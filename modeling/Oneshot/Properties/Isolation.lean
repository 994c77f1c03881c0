import Oneshot.Properties.Linear
import Oneshot.Protocol.Parts

open conc

namespace oneshot

variable {T : Type}

/-! Each channel of a program is used as if it were the only one. -/

namespace Heap

variable {h h' : Heap T} {τ : List (HeapLabel T)} {i j : Nat} {e e' : Ends T} {a : Addr}
  {handle : Receiver.Handle}

/-- The channel of the ends `e` in the run `τ` of its own. As long as it is not freed, the heap
    has it at its address. -/
structure Projects (h : Heap T) (handle : Receiver.Handle) (e : Ends T) (τ : List (Label T))
    (σ : System T) : Prop where
  alone : System.Alone handle τ σ
  sender : σ.sender = e.sender
  receiver : σ.receiver = e.receiver
  token : ∀ t, h.token t = true → σ.memory.token t = true
  held : frees τ = 0 → σ.memory.channel = h.channels e.channel_ptr ∧ h.live e.channel_ptr = true

/-- A step that may unpark a thread, and leaves the ends and their channel alone. -/
theorem Projects.other {τ : List (Label T)} {σ : System T} (hproj : h.Projects handle e τ σ)
    (hsender : e'.sender = e.sender) (hreceiver : e'.receiver = e.receiver) {o : Option Thread}
    (htoken : ∀ t, h'.token t = true → h.token t = true ∨ o = some t)
    (hheld : frees τ = 0 → h'.channels e'.channel_ptr = h.channels e.channel_ptr ∧
      h'.live e'.channel_ptr = h.live e.channel_ptr) :
    ∃ σ', h'.Projects handle e' (τ ++ (o.map .stray).toList) σ' ∧
      Run System.PatientStep σ (o.map .stray).toList σ' := by
  cases o with
  | none =>
    refine ⟨σ, ⟨by simpa using hproj.alone, hproj.sender.trans hsender.symm,
      hproj.receiver.trans hreceiver.symm, fun t ht => ?_, fun hτ => ?_⟩, .nil⟩
    · exact hproj.token t ((htoken t ht).resolve_right (by simp))
    · rw [Option.map_none, Option.toList_none, List.append_nil] at hτ
      rw [(hheld hτ).1, (hheld hτ).2]
      exact hproj.held hτ
  | some thread =>
    have hstray : System.PatientStep σ (.stray thread) _ := ⟨.stray thread, rfl⟩
    refine ⟨_, ⟨hproj.alone.snoc hstray, hproj.sender.trans hsender.symm,
      hproj.receiver.trans hreceiver.symm, fun t ht => ?_, fun hτ => ?_⟩, Run.nil.snoc hstray⟩
    · refine Memory.token_setToken ((htoken t ht).imp (hproj.token t) fun h => ?_)
      exact (Option.some.inj h).symm
    · rw [frees_append] at hτ
      have hzero : frees τ = 0 := Nat.eq_zero_of_add_eq_zero_right hτ
      rw [(hheld hzero).1, (hheld hzero).2]
      exact hproj.held hzero

/-- A step of the channel itself. -/
theorem Projects.own {τ : List (Label T)} {σ ρ : System T} {l : Label T}
    (hproj : h.Projects handle e τ σ) (hstep : System.Step (h.view e) l ρ)
    (hlate : (h.view e).earlyExit l = false) :
    ∃ σ', (h.put i e ρ).Projects handle { e with sender := ρ.sender, receiver := ρ.receiver }
      (τ ++ [l]) σ' ∧ System.PatientStep σ l σ' := by
  have hchannel (hl : l.touches = true) : σ.memory.channel = (h.view e).memory.channel :=
    (hproj.held (hproj.alone.unfreed hproj.sender hproj.receiver hstep hl)).1
  obtain ⟨σ', hstep', hsender, hreceiver⟩ :=
    hstep.lift hproj.sender hproj.receiver hchannel fun t _ => hproj.token t
  have htoken (t : Thread) (ht : ρ.memory.token t = true) : σ'.memory.token t = true := by
    rw [hstep.tokens] at ht
    rw [hstep'.tokens]
    exact Label.tokens_mono hproj.token ht
  have hlate' : σ.earlyExit l = false := by
    rw [System.earlyExit_congr hproj.sender hchannel]
    exact hlate
  refine ⟨σ', ⟨hproj.alone.snoc ⟨hstep', hlate'⟩, hsender, hreceiver, htoken, fun hτ => ?_⟩,
    hstep', hlate'⟩
  rw [frees_append] at hτ
  obtain ⟨hzero, hlast⟩ := Nat.add_eq_zero_iff.mp hτ
  obtain ⟨hheld, hlive⟩ := hproj.held hzero
  have hfrees : l.frees = false := by simpa [frees] using hlast
  constructor
  · rw [hstep'.channel, hheld]
    simp [put, store, setEnds, hstep.channel, view, memory]
  · simp [put, store, setEnds, hstep.allocated, view, memory, hlive, hfrees]

/-- What a run of a program that has come to `h` keeps. -/
structure Sound (τ : List (HeapLabel T)) (h : Heap T) : Prop where
  projects : ∀ i e, h.ends[i]? = some e →
    ∃ handle σ, (made τ)[i]? = some handle ∧ h.Projects handle e (part i τ) σ
  /-- Two channels that are not freed are at different addresses. -/
  apart : ∀ i j e e', h.ends[i]? = some e → h.ends[j]? = some e' → frees (part i τ) = 0 →
    frees (part j τ) = 0 → e.channel_ptr = e'.channel_ptr → i = j
  /-- And every live allocation is one of them. -/
  owned : ∀ a, h.live a = true →
    ∃ i e, h.ends[i]? = some e ∧ e.channel_ptr = a ∧ frees (part i τ) = 0
  /-- Before a channel is made, it meets nothing but stray unparks. -/
  fresh : ∀ i, h.ends.length ≤ i → ∃ ts : List Thread, part i τ = ts.map .stray
  length : (made τ).length = h.ends.length

theorem Sound.init (hinitial : h.Initial) : Sound [] h where
  projects i e he := by simp [hinitial.2] at he
  apart i j e e' he := by simp [hinitial.2] at he
  owned a ha := by simp [hinitial.1] at ha
  fresh i _ := ⟨[], rfl⟩
  length := by simp [hinitial.2, made]

/-- Where every park token is there already, a stray unpark changes nothing. -/
theorem run_strays {σ : System T} (htoken : ∀ t, σ.memory.token t = true) (ts : List Thread) :
    Run System.PatientStep σ (ts.map .stray) σ := by
  induction ts with
  | nil => exact .nil
  | cons thread ts ih =>
    have hsame : σ.memory.setToken thread true = σ.memory := by
      have htokens : (fun t => if t = thread then true else σ.memory.token t) = σ.memory.token := by
        funext t
        simp [htoken]
      rw [Memory.setToken, htokens]
    have hstep : System.PatientStep σ (.stray thread) σ := by
      have hstray := System.Step.stray (σ := σ) thread
      rw [hsame] at hstray
      exact ⟨hstray, rfl⟩
    exact (Run.nil.snoc hstep).trans ih

namespace Sound

variable {l : HeapLabel T}

/-- A channel that is not freed is at an address that is in use. -/
theorem ptr_ne (hsound : Sound τ h) (he : h.ends[i]? = some e) (hi : frees (part i τ) = 0)
    (hfree : h.live a = false) : e.channel_ptr ≠ a := by
  obtain ⟨_, σ, _, hproj⟩ := hsound.projects i e he
  have hlive := (hproj.held hi).2
  rintro rfl
  rw [hfree] at hlive
  cases hlive

/-- A step that is none of its own leaves a channel alone that is not freed. -/
theorem kept (hsound : Sound τ h) (hstep : Step h l h') (hl : ∀ l', l ≠ .on i l')
    (he : h.ends[i]? = some e) (hi : frees (part i τ) = 0) :
    h'.channels e.channel_ptr = h.channels e.channel_ptr ∧
      h'.live e.channel_ptr = h.live e.channel_ptr := by
  cases hstep with
  | channel hfree | async_channel hfree =>
    have hne := hsound.ptr_ne he hi hfree
    simp [Heap.alloc, store, hne]
  | @on j e' l σ he' _ hstep =>
    by_cases hptr : e.channel_ptr = e'.channel_ptr
    · obtain ⟨_, σ', _, hproj⟩ := hsound.projects j e' he'
      -- Two channels at one address: the other one is freed, and this step does not touch it.
      have huntouched : l.touches = false := by
        by_contra htouches
        have hj := hproj.alone.unfreed hproj.sender hproj.receiver hstep
          (Bool.not_eq_false _ ▸ htouches)
        obtain rfl := hsound.apart i j e e' he he' hi hj hptr
        exact hl l rfl
      have hfrees : l.frees = false := by
        by_contra hfrees
        rw [Label.touches_of_frees (Bool.not_eq_false _ ▸ hfrees)] at huntouched
        cases huntouched
      simp [put, store, setEnds, hptr, hstep.channel, hstep.allocated, view, memory, hfrees,
        Label.update_of_untouched huntouched]
    · simp [put, store, setEnds, hptr]
  | into_raw | from_raw | as_inner | stray => exact ⟨rfl, rfl⟩

/-- A channel that was just made is in its first state. -/
theorem projects_made (hsound : Sound τ h) (a : Addr) (hhandle : handle ≠ .gone) :
    (h.alloc a handle).Projects handle ⟨a, .idle .sender, .idle handle, fun _ => false⟩
      (part h.ends.length τ) (System.made T handle fun _ => true) where
  alone := by
    obtain ⟨ts, hts⟩ := hsound.fresh h.ends.length (Nat.le_refl _)
    refine ⟨hhandle, fun _ => true, ?_⟩
    rw [hts]
    exact run_strays (fun _ => rfl) ts
  sender := rfl
  receiver := rfl
  token _ _ := rfl
  held _ := by simp [Heap.alloc, store, System.made]

/-- A step that is none of its own is a stray unpark to a channel, or nothing. -/
theorem projects_other (hsound : Sound τ h) (hstep : Step h l h') (hl : ∀ l', l ≠ .on i l')
    (he : h.ends[i]? = some e) (hptr : e'.channel_ptr = e.channel_ptr)
    (hsender : e'.sender = e.sender) (hreceiver : e'.receiver = e.receiver) {σ : System T}
    (hproj : h.Projects handle e (part i τ) σ) :
    ∃ σ', h'.Projects handle e' (part i (τ ++ [l])) σ' ∧
      Run System.PatientStep σ (l.part i).toList σ' := by
  rw [part_snoc, part_other hl]
  refine hproj.other hsender hreceiver (fun t ht => hstep.token ht) fun hi => ?_
  rw [hptr]
  exact hsound.kept hstep hl he hi

/-- Every channel goes on with its run. -/
theorem projects_step (hsound : Sound τ h) (hstep : PatientStep h l h')
    (he : h.ends[i]? = some e) {σ : System T} (hproj : h.Projects handle e (part i τ) σ) :
    ∃ e' σ', h'.ends[i]? = some e' ∧ h'.Projects handle e' (part i (τ ++ [l])) σ' ∧
      Run System.PatientStep σ (l.part i).toList σ' := by
  obtain ⟨e', he', _⟩ := hstep.1.ends.2 i e he
  have hsame {e₁ : Ends T} (he₁ : h.ends[i]? = some e₁) : e₁ = e :=
    Option.some.inj (he₁.symm.trans he)
  refine ⟨e', ?_⟩
  cases hstep.1.meets he' with
  | made _ hi => simp [hi] at he
  | own hl he₁ _ hstep' hh' =>
    obtain rfl := hsame he₁
    obtain rfl := hl
    obtain ⟨σ', hproj', hpatient⟩ := hproj.own (i := i) hstep' (by simpa [early, he] using hstep.2)
    rw [part_own]
    refine ⟨σ', he', hh' ▸ hproj', ?_⟩
    simpa [HeapLabel.part] using Run.nil.snoc hpatient
  | other hl he₁ hptr hsender hreceiver =>
    obtain rfl := hsame he₁
    obtain ⟨σ', hproj', hrun⟩ := hsound.projects_other hstep.1 hl he hptr hsender hreceiver hproj
    exact ⟨σ', he', hproj', hrun⟩

theorem step (hsound : Sound τ h) (hstep : PatientStep h l h') : Sound (τ ++ [l]) h' where
  projects i e' he' := by
    rw [made_snoc]
    cases hstep.1.meets he' with
    | @made a handle hl hi hfree hh' =>
      have hhandle : handle ≠ .gone := by
        cases l <;> cases hl <;> decide
      subst hi hh'
      refine ⟨handle, System.made T handle fun _ => true, ?_, ?_⟩
      · rw [hl, ← hsound.length]
        exact List.getElem?_concat_length
      · have hpart : l.part h.ends.length = none := by
          cases l <;> cases hl <;> rfl
        rw [part_snoc, hpart, Option.toList_none, List.append_nil]
        exact hsound.projects_made a hhandle
    | own _ he | other _ he =>
      obtain ⟨handle, σ, hhandle, hproj⟩ := hsound.projects i _ he
      obtain ⟨e₁, σ', he₁, hproj', _⟩ := hsound.projects_step hstep he hproj
      obtain rfl := Option.some.inj (he₁.symm.trans he')
      refine ⟨handle, σ', ?_, hproj'⟩
      rw [List.getElem?_append_left (List.getElem?_eq_some_iff.mp hhandle).1]
      exact hhandle
  apart i j e₁ e₂ he₁ he₂ hi hj hptr := by
    obtain ⟨rfl, hfree⟩ | ⟨e, he, heq, hi'⟩ := hstep.1.before he₁ hi
    · obtain ⟨rfl, _⟩ | ⟨e', he', heq', hj'⟩ := hstep.1.before he₂ hj
      · rfl
      · exact (hsound.ptr_ne he' hj' hfree (heq'.trans hptr.symm)).elim
    · obtain ⟨rfl, hfree⟩ | ⟨e', he', heq', hj'⟩ := hstep.1.before he₂ hj
      · exact (hsound.ptr_ne he hi' hfree (heq.trans hptr)).elim
      · exact hsound.apart i j e e' he he' hi' hj' (by rw [heq, heq', hptr])
  owned a ha := by
    obtain ⟨handle, hl, rfl⟩ | ⟨hlive, hfrees⟩ := hstep.1.live ha
    · obtain ⟨ts, hts⟩ := hsound.fresh h.ends.length (Nat.le_refl _)
      refine ⟨h.ends.length, ⟨a, .idle .sender, .idle handle, fun _ => false⟩, ?_, rfl, ?_⟩
      · exact List.getElem?_concat_length
      · rw [frees_other fun l' => HeapLabel.ne_on hl _ l', hts, frees_strays]
    · obtain ⟨i, e, he, rfl, hi⟩ := hsound.owned a hlive
      obtain ⟨e', he', hptr⟩ := hstep.1.ends.2 i e he
      refine ⟨i, e', he', hptr, ?_⟩
      by_cases hl : ∃ l', l = .on i l'
      · obtain ⟨l', rfl⟩ := hl
        rw [part_own, frees_append, hi]
        simp [frees, hfrees i e l' rfl he rfl]
      · rw [frees_other fun l' hl' => hl ⟨l', hl'⟩]
        exact hi
  fresh i hi := by
    have hlength := hstep.1.ends.1
    obtain ⟨ts, hts⟩ := hsound.fresh i (by omega)
    refine ⟨ts ++ l.rings.toList, ?_⟩
    have hl : ∀ l', l ≠ .on i l' := by
      rintro l' rfl
      obtain ⟨hstep, _⟩ := hstep
      cases hstep with
      | on he =>
        have hlt := (List.getElem?_eq_some_iff.mp he).1
        omega
    rw [part_snoc, part_other hl, hts, List.map_append]
    cases l.rings <;> rfl
  length := by rw [made_snoc, List.length_append, hsound.length, hstep.1.ends.1]

theorem run {h₀ : Heap T} (hinitial : h₀.Initial) (hrun : Run PatientStep h₀ τ h) : Sound τ h :=
  hrun.invariant (P := Sound) (.init hinitial) fun _ _ _ _ _ hsound hstep => hsound.step hstep

end Sound

theorem intoFuture_part {l : HeapLabel T} {l' : Label T} (hl : l.future = false)
    (hpart : l.part i = some l') : l'.intoFuture = false := by
  cases l with
  | on j l =>
    simp only [HeapLabel.part] at hpart
    split at hpart
    · obtain rfl := Option.some.inj hpart
      exact hl
    · obtain ⟨thread, _, rfl⟩ := Option.map_eq_some_iff.mp hpart
      rfl
  | stray =>
    cases hpart
    rfl
  | _ => cases hpart

/-- A program that makes no future leaves no spin loop early. -/
theorem patient_of_sync {h₀ : Heap T} (hinitial : h₀.Initial) (hrun : Run Step h₀ τ h)
    (hsync : ∀ l ∈ τ, l.future = false) : Run PatientStep h₀ τ h := by
  have hpart {τ : List (HeapLabel T)} (hτ : ∀ l ∈ τ, l.future = false) (i : Nat) :
      ∀ l ∈ part i τ, l.intoFuture = false := by
    intro l hl
    obtain ⟨l', hl', heq⟩ := List.mem_filterMap.mp hl
    exact intoFuture_part (hτ l' hl') heq
  have hmade {τ : List (HeapLabel T)} (hτ : ∀ l ∈ τ, l.future = false) :
      ∀ handle ∈ made τ, handle = .receiver := by
    intro handle hhandle
    obtain ⟨l', hl', heq⟩ := List.mem_filterMap.mp hhandle
    cases l' with
    | channel =>
      cases heq
      rfl
    | async_channel => cases hτ _ hl'
    | _ => cases heq
  refine ((hrun.attach hsync).invariant (P := fun τ h => Run PatientStep h₀ τ h ∧
    ∀ l ∈ τ, l.future = false) ⟨.nil, by simp⟩ ?_).1
  rintro τ h l h' _ ⟨hpatient, hτ⟩ ⟨hstep, hl⟩
  refine ⟨hpatient.snoc ⟨hstep, ?_⟩, fun l' hl' => ?_⟩
  · have hsound := Sound.run hinitial hpatient
    cases hstep with
    | @on i e l σ' he _ hstep =>
      obtain ⟨handle, σ, hhandle, hproj⟩ := hsound.projects i e he
      obtain rfl := hmade hτ handle (List.mem_of_getElem? hhandle)
      obtain ⟨_, token, hrun'⟩ := hproj.alone
      have hrun'' : Run System.Step (System.channel T token) (part i τ) σ :=
        hrun'.mono fun _ _ _ h => h.1
      obtain ⟨p, hp, hsim⟩ := Proto.synchronous_run hrun'' (hpart hτ i)
      have hblocking := (Proto.synchronous_of_run (hp.mono fun _ _ _ h => h.1) (hpart hτ i)).2
      have hchannel (hl : l.touches = true) : σ.memory.channel = (h.view e).memory.channel :=
        (hproj.held (hproj.alone.unfreed hproj.sender hproj.receiver hstep hl)).1
      have hlate := hsim.not_early hblocking l
      rw [System.earlyExit_congr hproj.sender hchannel] at hlate
      simp [early, he, hlate]
    | _ => rfl
  · obtain hl' | hl' := List.mem_append.mp hl'
    · exact hτ l' hl'
    · rw [List.mem_singleton.mp hl']
      exact hl

/-- A run of a program in which no destructor of a future leaves its spin loop early. -/
def Tame (τ : List (HeapLabel T)) (h : Heap T) : Prop :=
  ∃ h₀ : Heap T, h₀.Initial ∧
    (Run PatientStep h₀ τ h ∨ (Run Step h₀ τ h ∧ ∀ l ∈ τ, l.future = false))

theorem Tame.sound (htame : Tame τ h) : Sound τ h := by
  obtain ⟨h₀, hinitial, hrun | ⟨hrun, hsync⟩⟩ := htame
  · exact .run hinitial hrun
  · exact .run hinitial (patient_of_sync hinitial hrun hsync)

/-- What is known of one channel of a program holds of it as of a channel that is used alone. -/
structure Isolated (h : Heap T) (handle : Receiver.Handle) (e : Ends T) (τ : List (Label T))
    (σ : System T) : Prop where
  projects : h.Projects handle e τ σ
  allocation : AllocationKept τ σ
  message : MessageKept τ σ
  atomic : AtomicRun τ σ

/-- Each channel of a program runs as if it were the only one, whatever the others do at their
    addresses and before it at its own: what its two ends do is a run of a single channel, with
    the same answers, and up to its last access the heap has that channel at its address. -/
theorem channels_isolated (htame : Tame τ h) (he : h.ends[i]? = some e) :
    ∃ handle σ, (made τ)[i]? = some handle ∧ h.Isolated handle e (part i τ) σ := by
  obtain ⟨handle, σ, hhandle, hproj⟩ := htame.sound.projects i e he
  obtain ⟨token, p, hp, hsim⟩ := hproj.alone.proto
  refine ⟨handle, σ, hhandle, hproj, allocation_kept hp hsim, message_kept hp hsim, ?_⟩
  obtain ⟨_, token, hrun⟩ := hproj.alone
  exact Proto.atomicRun (hproj.alone.simulates token) (hrun.mono fun _ _ _ h => h.1)

/-- No channel yet. -/
def start (T : Type) : Heap T := ⟨fun _ => Channel.new, fun _ => false, fun _ => false, []⟩

def ons (i : Nat) (cs : List (System.Choice T)) : List (Choice T) := cs.map (.on i)

/-- A message goes through a channel whose ends were raw pointers in between. The next channel
    gets the same address, and its receiver is dropped before `send`. -/
def reuse : List (Choice Nat) :=
  [.channel 0, .into_raw .sender 0, .into_raw .receiver 0, .from_raw .sender 0, .from_raw .receiver 0] ++
    ons 0 (System.sends (.send 5) 3) ++ ons 0 (System.receives (.recv ⟨1⟩) 5 0) ++
    [.channel 0] ++ ons 1 (System.receives .drop 2 0) ++ ons 1 (System.sends (.send 7) 3) ++
    [.as_inner 1] ++ ons 1 (System.sends .into_inner 3)

theorem tame_of_play {cs : List (Choice T)} (hplay : ((start T).play cs).isSome = true)
    (hsync : ∀ l ∈ (start T).labels cs, l.future = false) :
    Tame ((start T).labels cs) ((start T).reached cs) :=
  ⟨start T, ⟨fun _ => rfl, rfl⟩, .inr ⟨run_of_play hplay, hsync⟩⟩

/-- The second channel, with the error of its `send` still held, and when both ends are gone. -/
theorem channels_isolated_reuse :
    (∃ e handle σ, ((start Nat).reached (reuse.take 23)).ends[1]? = some e ∧
        frees (part 1 ((start Nat).labels (reuse.take 23))) = 0 ∧
        (made ((start Nat).labels (reuse.take 23)))[1]? = some handle ∧
        ((start Nat).reached (reuse.take 23)).Isolated handle e
          (part 1 ((start Nat).labels (reuse.take 23))) σ) ∧
      ∃ e handle σ, ((start Nat).reached reuse).ends[1]? = some e ∧
        frees (part 1 ((start Nat).labels reuse)) = 1 ∧
        (made ((start Nat).labels reuse))[1]? = some handle ∧
        ((start Nat).reached reuse).Isolated handle e (part 1 ((start Nat).labels reuse)) σ := by
  constructor
  · have hsome : ((start Nat).reached (reuse.take 23)).ends[1]?.isSome = true := by decide
    obtain ⟨e, he⟩ := Option.isSome_iff_exists.mp hsome
    obtain ⟨handle, σ, h⟩ := channels_isolated (tame_of_play (by decide) (by decide)) he
    exact ⟨e, handle, σ, he, by decide, h⟩
  · have hsome : ((start Nat).reached reuse).ends[1]?.isSome = true := by decide
    obtain ⟨e, he⟩ := Option.isSome_iff_exists.mp hsome
    obtain ⟨handle, σ, h⟩ := channels_isolated (tame_of_play (by decide) (by decide)) he
    exact ⟨e, handle, σ, he, by decide, h⟩

end Heap

end oneshot
