import Oneshot.Heap
import Oneshot.Protocol.Projection

open conc

namespace oneshot

variable {T : Type}

/-! What the steps of a program are to each of its channels. -/

def HeapLabel.rings : HeapLabel T → Option Thread
  | .on _ l => l.rings
  | .stray thread => some thread
  | _ => none

/-- What a step is to the channel `i`: one of its own, or nothing but a stray unpark. -/
def HeapLabel.part (i : Nat) (l : HeapLabel T) : Option (Label T) :=
  match l with
  | .on j l' => if j = i then some l' else l'.rings.map .stray
  | _ => l.rings.map .stray

def Heap.part (i : Nat) (τ : List (HeapLabel T)) : List (Label T) := τ.filterMap (HeapLabel.part i)

/-- The handle that the maker of a channel gets of its receiving side. -/
def HeapLabel.made : HeapLabel T → Option Receiver.Handle
  | .channel _ => some .receiver
  | .async_channel _ => some .async_receiver
  | _ => none

/-- The step makes a future. -/
def HeapLabel.future : HeapLabel T → Bool
  | .async_channel _ => true
  | .on _ l => l.intoFuture
  | _ => false

/-- How the channels were made, in their order. -/
def Heap.made (τ : List (HeapLabel T)) : List Receiver.Handle := τ.filterMap HeapLabel.made

theorem HeapLabel.ne_on {l : HeapLabel T} {handle : Receiver.Handle} (hl : l.made = some handle)
    (i : Nat) (l' : Label T) : l ≠ .on i l' := by
  rintro rfl
  cases hl

theorem frees_append (τ τ' : List (Label T)) : frees (τ ++ τ') = frees τ + frees τ' :=
  List.countP_append

namespace Heap

variable {h h' : Heap T} {τ : List (HeapLabel T)} {i j : Nat} {e e' : Ends T} {a : Addr}
  {handle : Receiver.Handle}

theorem part_snoc (i : Nat) (τ : List (HeapLabel T)) (l : HeapLabel T) :
    part i (τ ++ [l]) = part i τ ++ (l.part i).toList := filterMap_snoc _ τ l

theorem made_snoc (τ : List (HeapLabel T)) (l : HeapLabel T) :
    made (τ ++ [l]) = made τ ++ l.made.toList := filterMap_snoc _ τ l

/-- What a step is to the channel `i`, which has the ends `e'` after it: it makes the channel, one
    of the ends makes it, or it leaves the ends as they are. -/
inductive Meets (h : Heap T) (l : HeapLabel T) (h' : Heap T) (i : Nat) : Ends T → Prop where
  | made {a : Addr} {handle : Receiver.Handle} (hl : l.made = some handle)
      (hi : i = h.ends.length) (hfree : h.live a = false) (hh' : h' = h.alloc a handle) :
      Meets h l h' i ⟨a, .idle .sender, .idle handle, fun _ => false⟩
  | own {e : Ends T} {l' : Label T} {σ : System T} (hl : l = .on i l') (he : h.ends[i]? = some e)
      (hallows : h.allows e l' = true) (hstep : System.Step (h.view e) l' σ)
      (hh' : h' = h.put i e σ) :
      Meets h l h' i { e with sender := σ.sender, receiver := σ.receiver }
  | other {e e' : Ends T} (hl : ∀ l', l ≠ .on i l') (he : h.ends[i]? = some e)
      (hptr : e'.channel_ptr = e.channel_ptr) (hsender : e'.sender = e.sender)
      (hreceiver : e'.receiver = e.receiver)
      (hraw : ∀ side, e'.raw side = true → e.raw side = true ∨ e.holds side = true) :
      Meets h l h' i e'

theorem getElem?_alloc {handle : Receiver.Handle} (he : (h.alloc a handle).ends[i]? = some e) :
    h.ends[i]? = some e ∨
      i = h.ends.length ∧ e = ⟨a, .idle .sender, .idle handle, fun _ => false⟩ := by
  simp only [alloc, List.getElem?_append] at he
  split at he
  · exact .inl he
  · obtain ⟨hlt, heq⟩ := List.getElem?_eq_some_iff.mp he
    rw [List.length_singleton] at hlt
    refine .inr ⟨by omega, ?_⟩
    rw [← heq]
    simp [List.getElem_singleton]

theorem getElem?_setEnds (he : h.ends[i]? = some e) (he' : (h.setEnds i e').ends[j]? = some e₁) :
    (j = i ∧ e₁ = e') ∨ (j ≠ i ∧ h.ends[j]? = some e₁) := by
  by_cases hj : j = i
  · subst hj
    rw [setEnds, List.getElem?_set_self (List.getElem?_eq_some_iff.mp he).1] at he'
    exact .inl ⟨rfl, (Option.some.inj he').symm⟩
  · rw [setEnds, List.getElem?_set_ne (Ne.symm hj)] at he'
    exact .inr ⟨hj, he'⟩

theorem Step.meets {l : HeapLabel T} (hstep : Step h l h') (he' : h'.ends[i]? = some e') :
    Meets h l h' i e' := by
  have hsame {e : Ends T} (hl : ∀ l', l ≠ .on i l') (he : h.ends[i]? = some e) :
      Meets h l h' i e := .other hl he rfl rfl rfl fun _ => .inl
  cases hstep with
  | channel hfree | async_channel hfree =>
    obtain he' | ⟨hi, rfl⟩ := getElem?_alloc he'
    · exact hsame (fun _ hl => by cases hl) he'
    · exact .made rfl hi hfree rfl
  | @on j e l σ he hallows hstep =>
    obtain ⟨rfl, rfl⟩ | ⟨hi, he'⟩ := getElem?_setEnds (h := h.store e.channel_ptr σ.memory) he he'
    · exact .own rfl he hallows hstep rfl
    · exact hsame (by rintro l' ⟨⟩; exact hi rfl) he'
  | @into_raw side j e he hholds hraw =>
    obtain ⟨rfl, rfl⟩ | ⟨_, he'⟩ := getElem?_setEnds he he'
    · refine .other (fun _ hl => by cases hl) he rfl rfl rfl fun side' hraw' => ?_
      by_cases hside : side' = side
      · rw [hside]
        exact .inr hholds
      · exact .inl (by simpa [Ends.setRaw, hside] using hraw')
    · exact hsame (fun _ hl => by cases hl) he'
  | @from_raw side j e he hraw =>
    obtain ⟨rfl, rfl⟩ | ⟨_, he'⟩ := getElem?_setEnds he he'
    · refine .other (fun _ hl => by cases hl) he rfl rfl rfl fun side' hraw' => .inl ?_
      by_cases hside : side' = side
      · rw [hside]
        exact hraw
      · simpa [Ends.setRaw, hside] using hraw'
    · exact hsame (fun _ hl => by cases hl) he'
  | as_inner | stray => exact hsame (fun _ hl => by cases hl) he'

/-- No channel is lost, and each has the same pointer for ever. -/
theorem Step.ends {l : HeapLabel T} (hstep : Step h l h') :
    h'.ends.length = h.ends.length + l.made.toList.length ∧
      ∀ (i : Nat) (e : Ends T), h.ends[i]? = some e →
        ∃ e' : Ends T, h'.ends[i]? = some e' ∧ e'.channel_ptr = e.channel_ptr := by
  have hset {i : Nat} {e e' : Ends T} (he : h.ends[i]? = some e)
      (hptr : e'.channel_ptr = e.channel_ptr) (j : Nat) (e₁ : Ends T) (he₁ : h.ends[j]? = some e₁) :
      ∃ e₂, (h.ends.set i e')[j]? = some e₂ ∧ e₂.channel_ptr = e₁.channel_ptr := by
    by_cases hj : j = i
    · subst hj
      rw [he] at he₁
      obtain rfl := Option.some.inj he₁
      exact ⟨e', List.getElem?_set_self (List.getElem?_eq_some_iff.mp he).1, hptr⟩
    · exact ⟨e₁, (List.getElem?_set_ne (Ne.symm hj)).trans he₁, rfl⟩
  cases hstep with
  | channel | async_channel =>
    refine ⟨List.length_append, fun i e he => ⟨e, ?_, rfl⟩⟩
    exact (List.getElem?_append_left (List.getElem?_eq_some_iff.mp he).1).trans he
  | on he | into_raw he | from_raw he => exact ⟨List.length_set, hset he rfl⟩
  | as_inner | stray => exact ⟨rfl, fun i e he => ⟨e, he, rfl⟩⟩

/-- An allocation that is live was so before, and this step did not free it, or is a new one. -/
theorem Step.live {l : HeapLabel T} (hstep : Step h l h') (hlive : h'.live a = true) :
    (∃ handle, l.made = some handle ∧ h' = h.alloc a handle) ∨
      (h.live a = true ∧ ∀ (i : Nat) (e : Ends T) l', l = .on i l' → h.ends[i]? = some e →
        e.channel_ptr = a → l'.frees = false) := by
  cases hstep with
  | @channel b | @async_channel b =>
    by_cases hab : a = b
    · rw [hab]
      exact .inl ⟨_, rfl, rfl⟩
    · exact .inr ⟨by simpa [alloc, store, hab] using hlive, fun _ _ _ hl => by cases hl⟩
  | @on i e l σ he _ hstep =>
    simp only [put, store, setEnds] at hlive
    split at hlive
    · rename_i hae
      rw [hstep.allocated, Bool.and_eq_true, Bool.not_eq_true'] at hlive
      refine .inr ⟨hae ▸ hlive.1, ?_⟩
      rintro j e' l' ⟨⟩ he' _
      exact hlive.2
    · rename_i hae
      refine .inr ⟨hlive, ?_⟩
      rintro j e' l' ⟨⟩ he' hptr
      rw [he] at he'
      obtain rfl := Option.some.inj he'
      exact (hae hptr.symm).elim
  | into_raw | from_raw | as_inner | stray =>
    exact .inr ⟨hlive, fun _ _ _ hl => by cases hl⟩

/-- A step sets no park token but that of the thread it unparks. -/
theorem Step.token {l : HeapLabel T} (hstep : Step h l h') {t : Thread}
    (htoken : h'.token t = true) : h.token t = true ∨ l.rings = some t := by
  cases hstep with
  | @on i e l σ _ _ hstep =>
    replace htoken : σ.memory.token t = true := htoken
    rw [hstep.tokens] at htoken
    exact Label.token_of_tokens htoken
  | stray thread =>
    simp only at htoken
    split at htoken
    · exact .inr (by simp_all [HeapLabel.rings])
    · exact .inl htoken
  | _ => exact .inl htoken

theorem part_other {l : HeapLabel T} (hl : ∀ l', l ≠ .on i l') :
    l.part i = l.rings.map .stray := by
  cases l with
  | on j l =>
    have hj : j ≠ i := by
      rintro rfl
      exact hl l rfl
    exact if_neg hj
  | _ => rfl

theorem part_own (i : Nat) (τ : List (HeapLabel T)) (l : Label T) :
    part i (τ ++ [.on i l]) = part i τ ++ [l] := by
  rw [part_snoc]
  simp [HeapLabel.part]

theorem frees_strays (ts : List Thread) : frees (ts.map Label.stray : List (Label T)) = 0 := by
  rw [frees, List.countP_map]
  exact List.countP_eq_zero.mpr fun _ _ => Bool.not_eq_true _ ▸ rfl

theorem frees_stray (o : Option Thread) : frees ((o.map Label.stray).toList : List (Label T)) = 0 := by
  cases o <;> rfl

/-- A step that is none of the channel's own frees nothing of it. -/
theorem frees_other {l : HeapLabel T} (hl : ∀ l', l ≠ .on i l') :
    frees (part i (τ ++ [l])) = frees (part i τ) := by
  rw [part_snoc, part_other hl, frees_append, frees_stray, Nat.add_zero]

theorem frees_of_snoc {l : HeapLabel T} (hi : frees (part i (τ ++ [l])) = 0) :
    frees (part i τ) = 0 := by
  rw [part_snoc, frees_append] at hi
  exact Nat.eq_zero_of_add_eq_zero_right hi

/-- A channel that is not freed after a step was there before, or is the new one. -/
theorem Step.before {l : HeapLabel T} (hstep : Step h l h') (he' : h'.ends[i]? = some e')
    (hi : frees (part i (τ ++ [l])) = 0) :
    (i = h.ends.length ∧ h.live e'.channel_ptr = false) ∨
      ∃ e, h.ends[i]? = some e ∧ e.channel_ptr = e'.channel_ptr ∧ frees (part i τ) = 0 := by
  cases hstep.meets he' with
  | made _ hlength hfree => exact .inl ⟨hlength, hfree⟩
  | own _ he => exact .inr ⟨_, he, rfl, frees_of_snoc hi⟩
  | other _ he hptr => exact .inr ⟨_, he, hptr.symm, frees_of_snoc hi⟩

end Heap

end oneshot
