import Oneshot.Properties.Allocation
import Oneshot.Properties.Promptness

open conc

namespace oneshot

variable {T : Type}

/-- The thread that an access unparks. -/
def Access.unparks : Access T → Option Thread
  | .unpark thread => some thread
  | _ => none

/-- The thread that a step parks, or unparks. -/
def Label.parks (l : Label T) : Option Thread := l.action.bind (·.access.parks)

def Label.rings : Label T → Option Thread
  | .stray thread => some thread
  | l => l.action.bind (·.access.unparks)

/-- What a step makes of the park tokens. -/
def Label.tokens (l : Label T) (token : Thread → Bool) : Thread → Bool :=
  match l with
  | .stray thread => fun t => if t = thread then true else token t
  | l => match l.action with
    | some α => α.access.tokens token α.resp
    | none => token

/-! The same step in another memory. -/

namespace Access

variable {a : Access T} {v : a.Resp} {f g : Thread → Bool} {t : Thread}

/-- An access sets no token but that of the thread it unparks. -/
theorem token_of_tokens (htoken : a.tokens f v t = true) : f t = true ∨ a.unparks = some t := by
  cases a with
  | unpark thread =>
    simp only [tokens] at htoken
    split at htoken
    · exact .inr (by simp_all [unparks])
    · exact .inl htoken
  | park thread | park_timeout thread timeout =>
    cases v with
    | unparked =>
      simp only [tokens] at htoken
      split at htoken
      · cases htoken
      · exact .inl htoken
    | spurious | elapsed => exact .inl htoken
  | _ => exact .inl htoken

theorem tokens_mono (hsub : ∀ t, f t = true → g t = true) (htoken : a.tokens f v t = true) :
    a.tokens g v t = true := by
  cases a with
  | unpark thread =>
    simp only [tokens] at htoken ⊢
    split at htoken
    · rw [if_pos ‹_›]
    · rw [if_neg ‹_›]
      exact hsub t htoken
  | park thread | park_timeout thread timeout =>
    cases v with
    | unparked =>
      simp only [tokens] at htoken ⊢
      split at htoken
      · cases htoken
      · rw [if_neg ‹_›]
        exact hsub t htoken
    | spurious | elapsed => exact hsub t htoken
  | _ => exact hsub t htoken

end Access

namespace Memory

variable {μ μ' ν : Memory T} {a : Access T} {v : a.Resp} {env : Env}

/-- An access that does not touch the channel leaves it as it is. -/
theorem update_of_untouched {x : Channel T} (ha : a.touches = false) : x.update a = x := by
  cases a <;> first | rfl | cases ha

theorem exec_allocated (hexec : μ.exec env a = some (v, μ')) :
    μ'.allocated = (μ.allocated && !a.frees) := by
  cases a with
  | dealloc =>
    cases hexec
    simp [Access.frees]
  | take_message | drop_message | take_waker | drop_waker =>
    obtain ⟨_, _, heq⟩ := Option.map_eq_some_iff.mp hexec
    cases heq
    simp [Access.frees, setMessage, setWaker]
  | compare_exchange current new success failure =>
    simp only [exec] at hexec
    split at hexec <;> cases hexec <;> simp [Access.frees, setState]
  | park thread =>
    simp only [exec] at hexec
    split at hexec
    · cases hexec
    · obtain ⟨_, ⟨_, rfl⟩ | ⟨_, _, rfl⟩⟩ := wakeup_eq hexec <;> simp [Access.frees, setToken]
  | park_timeout thread timeout =>
    obtain ⟨_, ⟨_, rfl⟩ | ⟨_, _, rfl⟩⟩ := wakeup_eq hexec <;> simp [Access.frees, setToken]
  | _ =>
    cases hexec
    simp [Access.frees, setState, setMessage, setWaker, setToken]

/-- An access can be made in a memory that has the same channel, if it touches that, and the
    token of the thread that it parks. -/
theorem Acts.lift {α : (interface T).Action} (hacts : μ.Acts α μ')
    (hchannel : α.access.touches = true → ν.channel = μ.channel)
    (htoken : ∀ t, α.access.parks = some t → μ.token t = true → ν.token t = true) :
    ∃ ν', ν.Acts α ν' := by
  obtain ⟨env, hexec⟩ := hacts
  obtain ⟨a, v⟩ := α
  replace hexec : μ.exec env a = some (v, μ') := hexec
  have hwakes {thread : Thread} {w v : Wakeup} (hset : μ.token thread = true → ν.token thread = true)
      (hwakeup : μ.wakeup thread w = some (v, μ')) : ∃ ν', ν.wakeup thread w = some (v, ν') := by
    obtain ⟨rfl, ⟨hw, _⟩ | ⟨rfl, htaken, _⟩⟩ := wakeup_eq hwakeup
    · cases v with
      | unparked => exact (hw rfl).elim
      | spurious | elapsed => exact ⟨ν, rfl⟩
    · exact ⟨ν.setToken thread false, by simp [wakeup, hset htaken]⟩
  cases a with
  | park thread =>
    simp only [exec] at hexec
    split at hexec
    · cases hexec
    · obtain ⟨ν', hwakeup⟩ := hwakes (htoken thread rfl) hexec
      exact ⟨ν', env, (if_neg ‹_›).trans hwakeup⟩
  | park_timeout thread timeout =>
    obtain ⟨ν', hwakeup⟩ := hwakes (htoken thread rfl) hexec
    exact ⟨ν', env, hwakeup⟩
  | load | store | swap | fetch_add | fetch_xor | compare_exchange | write_message | take_message |
    drop_message | write_waker | take_waker | drop_waker | dealloc =>
    obtain ⟨y, allocated, token⟩ := ν
    obtain rfl : y = μ.channel := hchannel rfl
    first
      | cases hexec
        exact ⟨_, env, rfl⟩
      | obtain ⟨_, hcell, heq⟩ := Option.map_eq_some_iff.mp hexec
        cases heq
        exact ⟨_, env, Option.map_eq_some_iff.mpr ⟨_, hcell, rfl⟩⟩
      | simp only [exec] at hexec
        split at hexec
        · cases hexec
          exact ⟨_, env, if_pos ‹_›⟩
        · cases hexec
          exact ⟨_, env, if_neg ‹_›⟩
  | _ =>
    cases hexec
    exact ⟨_, env, rfl⟩

end Memory

namespace System

variable {σ σ' ρ : System T} {l : Label T}

/-- What a step does to the memory: it makes the access that one of the sides has next, or
    none, and then it may unpark a thread all the same. -/
inductive Works (σ : System T) : Label T → Memory T → Prop where
  | access {l : Label T} {α : (interface T).Action} {μ' : Memory T} (hl : l.action = some α)
      (hnext : σ.sender.next = some α.access ∨ σ.receiver.next = some α.access)
      (hacts : σ.memory.Acts α μ') : Works σ l μ'
  | stray (thread : Thread) : Works σ (.stray thread) (σ.memory.setToken thread true)
  | still {l : Label T} (hl : l.action = none) (hstray : ∀ thread, l ≠ .stray thread) :
      Works σ l σ.memory

theorem Step.works (hstep : Step σ l σ') : Works σ l σ'.memory := by
  cases hstep with
  | sender hstep =>
    cases hs : σ.sender with
    | idle h =>
      rw [hs] at hstep
      cases hstep with
      | call => exact .still rfl (by rintro _ ⟨⟩)
    | busy c q =>
      rw [hs] at hstep
      cases hstep with
      | act hexec => exact .access rfl (.inl (by rw [hs]; rfl)) hexec
      | enter | ret => exact .still rfl (by rintro _ ⟨⟩)
  | receiver hstep =>
    cases hr : σ.receiver with
    | idle h =>
      rw [hr] at hstep
      cases hstep with
      | call => exact .still rfl (by rintro _ ⟨⟩)
    | busy c q =>
      rw [hr] at hstep
      cases hstep with
      | act hexec => exact .access rfl (.inr (by rw [hr]; rfl)) hexec
      | enter | ret => exact .still rfl (by rintro _ ⟨⟩)
  | stray thread => exact .stray thread

end System

theorem Label.frees_of_action {l : Label T} {α : (interface T).Action} (hl : l.action = some α) :
    l.frees = α.access.frees ∧ l.touches = α.access.touches := by
  simp [Label.frees, Label.touches, hl]

/-- What a step makes of the channel. -/
def Label.update (l : Label T) (x : Channel T) : Channel T :=
  match l.action with
  | some α => x.update α.access
  | none => x

theorem Label.update_of_untouched {l : Label T} {x : Channel T} (hl : l.touches = false) :
    l.update x = x := by
  unfold Label.update
  cases hα : l.action with
  | none => rfl
  | some α =>
    rw [(Label.frees_of_action hα).2] at hl
    exact Memory.update_of_untouched hl

namespace Label

variable {l : Label T} {f g : Thread → Bool} {t : Thread}

theorem token_of_tokens (htoken : l.tokens f t = true) : f t = true ∨ l.rings = some t := by
  cases l with
  | stray thread =>
    simp only [tokens] at htoken
    split at htoken
    · exact .inr (by simp_all [rings])
    · exact .inl htoken
  | sender e | receiver e =>
    cases e with
    | act α => exact Access.token_of_tokens htoken
    | call | enter | ret => exact .inl htoken

theorem tokens_mono (hsub : ∀ t, f t = true → g t = true) (htoken : l.tokens f t = true) :
    l.tokens g t = true := by
  cases l with
  | stray thread =>
    simp only [tokens] at htoken ⊢
    split at htoken
    · rw [if_pos ‹_›]
    · rw [if_neg ‹_›]
      exact hsub t htoken
  | sender e | receiver e =>
    cases e with
    | act α => exact Access.tokens_mono hsub htoken
    | call | enter | ret => exact hsub t htoken

end Label

namespace System

variable {σ σ' ρ : System T} {l : Label T}

theorem Step.channel (hstep : Step σ l σ') : σ'.memory.channel = l.update σ.memory.channel := by
  have hworks := hstep.works
  generalize σ'.memory = μ' at hworks
  cases hworks with
  | access hl _ hacts =>
    obtain ⟨env, hexec⟩ := hacts
    rw [(Memory.exec_channel hexec).2, Label.update, hl]
  | stray => rfl
  | still hl => rw [Label.update, hl]

theorem Step.allocated (hstep : Step σ l σ') :
    σ'.memory.allocated = (σ.memory.allocated && !l.frees) := by
  have hworks := hstep.works
  generalize σ'.memory = μ' at hworks
  cases hworks with
  | access hl _ hacts =>
    obtain ⟨env, hexec⟩ := hacts
    rw [Memory.exec_allocated hexec, (Label.frees_of_action hl).1]
  | stray => simp [Memory.setToken, Label.frees, Label.action]
  | still hl => simp [Label.frees, hl]

theorem Step.tokens (hstep : Step σ l σ') : σ'.memory.token = l.tokens σ.memory.token := by
  have hworks := hstep.works
  generalize σ'.memory = μ' at hworks
  cases hworks with
  | access hl _ hacts =>
    obtain ⟨env, hexec⟩ := hacts
    rw [Memory.exec_tokens hexec]
    cases l with
    | stray => cases hl
    | _ => simp only [Label.tokens, hl]
  | stray => rfl
  | still hl hstray =>
    cases l with
    | stray thread => exact (hstray thread rfl).elim
    | _ => simp only [Label.tokens, hl]

/-- A step can be made from another state of the memory that has the same channel, if it
    touches that, and the token of the thread that it parks. -/
theorem Step.lift (hstep : Step σ l σ') (hsender : ρ.sender = σ.sender)
    (hreceiver : ρ.receiver = σ.receiver)
    (hchannel : l.touches = true → ρ.memory.channel = σ.memory.channel)
    (htoken : ∀ t, l.parks = some t → σ.memory.token t = true → ρ.memory.token t = true) :
    ∃ ρ', Step ρ l ρ' ∧ ρ'.sender = σ'.sender ∧ ρ'.receiver = σ'.receiver := by
  obtain ⟨ν, s, r⟩ := ρ
  obtain ⟨μ, s', r'⟩ := σ
  obtain rfl : s = s' := hsender
  obtain rfl : r = r' := hreceiver
  cases hstep with
  | sender hstep =>
    cases hstep with
    | act hacts =>
      obtain ⟨ν', hacts'⟩ := hacts.lift hchannel htoken
      exact ⟨⟨ν', _, r⟩, .sender (.act hacts'), rfl, rfl⟩
    | call haccepts => exact ⟨⟨ν, _, r⟩, .sender (.call haccepts), rfl, rfl⟩
    | enter => exact ⟨⟨ν, _, r⟩, .sender .enter, rfl, rfl⟩
    | ret => exact ⟨⟨ν, _, r⟩, .sender .ret, rfl, rfl⟩
  | receiver hstep =>
    cases hstep with
    | act hacts =>
      obtain ⟨ν', hacts'⟩ := hacts.lift hchannel htoken
      exact ⟨⟨ν', s, _⟩, .receiver (.act hacts'), rfl, rfl⟩
    | call haccepts => exact ⟨⟨ν, s, _⟩, .receiver (.call haccepts), rfl, rfl⟩
    | enter => exact ⟨⟨ν, s, _⟩, .receiver .enter, rfl, rfl⟩
    | ret => exact ⟨⟨ν, s, _⟩, .receiver .ret, rfl, rfl⟩
  | stray thread => exact ⟨_, .stray thread, rfl, rfl⟩

/-- Whether a spin loop is left early is a matter of what the step reads. -/
theorem earlyExit_congr (hsender : ρ.sender = σ.sender)
    (hchannel : l.touches = true → ρ.memory.channel = σ.memory.channel) :
    ρ.earlyExit l = σ.earlyExit l := by
  have hwindow : ρ.inWindow = σ.inWindow := by rw [inWindow, inWindow, hsender]
  cases l with
  | receiver e =>
    cases e with
    | act α =>
      obtain ⟨a, v⟩ := α
      cases a with
      | load order => simp only [earlyExit, hwindow, hchannel rfl]
      | _ => rfl
    | _ => rfl
  | _ => rfl

end System

namespace Proto

/-- A side that may still touch the channel finds it there. -/
theorem untouched_next {σ : System T} {p : Proto T} (hsim : Simulates σ p) (hpatient : p.Patient)
    (hdead : Dead p.s p.r) {a : Access T}
    (hnext : σ.sender.next = some a ∨ σ.receiver.next = some a) : a.touches = false := by
  have hstep : ∃ α σ', α.access = a ∧ (System.Step σ (.sender (.act α)) σ' ∨
      System.Step σ (.receiver (.act α)) σ') := by
    obtain ⟨μ, s, r⟩ := σ
    obtain hnext | hnext := hnext
    · cases s with
      | idle h => cases hnext
      | busy c q =>
        cases q with
        | access a' k =>
          cases hnext
          obtain ⟨e, σ', hstep⟩ := hsim.sender_step rfl
          cases hstep with
          | sender hstep =>
            cases hstep with
            | act hacts => exact ⟨_, _, rfl, .inl (.sender (.act hacts))⟩
        | _ => cases hnext
    · cases r with
      | idle h => cases hnext
      | busy c q =>
        cases q with
        | access a' k =>
          cases hnext
          obtain ⟨e, σ', hstep⟩ := hsim.receiver_step rfl
          cases hstep with
          | receiver hstep =>
            cases hstep with
            | act hacts => exact ⟨_, _, rfl, .inr (.receiver (.act hacts))⟩
        | _ => cases hnext
  obtain ⟨α, σ', rfl, hstep | hstep⟩ := hstep
  all_goals
    obtain ⟨p', hp, _⟩ := hsim.step hstep
    simpa [Label.touches, Label.action] using untouched_of_dead hpatient hp hdead

end Proto

namespace Proto

/-- A sender in its window has announced itself, and not written its final state. -/
theorem Simulates.of_inWindow {σ : System T} {p : Proto T} (hsim : Simulates σ p)
    (hwindow : σ.inWindow = true) :
    (∃ message, p.s = .unparking message) ∨ ∃ message waker, p.s = .taken message waker := by
  unfold System.inWindow at hwindow
  cases hnext : σ.sender.next with
  | none => simp [hnext] at hwindow
  | some a =>
    obtain ⟨f, hon⟩ := hsim.sender.on_next hnext
    replace hon : p.s.on a = some f := hon
    rw [hnext] at hwindow
    cases a with
    | take_waker =>
      cases hs : p.s with
      | unparking message => exact .inl ⟨message, rfl⟩
      | _ => rw [hs] at hon; cases hon
    | swap =>
      cases hs : p.s with
      | taken message waker => exact .inr ⟨message, waker, rfl⟩
      | _ => rw [hs] at hon; cases hon
    | _ => cases hwindow

/-- There the state is not `DISCONNECTED`, if the receiver is not a future. -/
theorem Blocking.state_ne {s : Sender.Role T} {r : Receiver.Role T} {x : Channel T}
    (hblocking : Blocking r) (hagree : r.Agree s x)
    (hs : (∃ message, s = .unparking message) ∨ ∃ message waker, s = .taken message waker) :
    x.state ≠ DISCONNECTED := by
  have hbyte {b : UInt8} {w : ReceiverWaker} (hb : b ≠ DISCONNECTED)
      (h : s.Window b w x ∨ s.Notified w x) : x.state ≠ DISCONNECTED := by
    obtain h | h := h
    · rw [h.holds]
      exact hb
    · obtain ⟨message, rfl⟩ | ⟨message, waker, rfl⟩ := hs <;> exact h.elim
  have hbefore {b : UInt8} {w : Option ReceiverWaker} : ¬ s.Before b w x := by
    obtain ⟨message, rfl⟩ | ⟨message, waker, rfl⟩ := hs <;> exact id
  have hpublished {o : Option T} : s.published ≠ some o := by
    obtain ⟨message, rfl⟩ | ⟨message, waker, rfl⟩ := hs <;> simp [Sender.Role.published]
  cases r with
  | waiting | woken => exact hbyte (by decide) (hagree.resolve_left hbefore)
  | expired | expired_woken => exact hbyte (by decide) hagree
  | idle | armed =>
    obtain ⟨o, ho, _⟩ := (hagree.resolve_left hbefore).published
    exact (hpublished ho).elim
  | own =>
    obtain ⟨_, _, _, ho, _⟩ := hagree
    exact (hpublished ho).elim
  | released =>
    obtain ⟨_, _, _, ho, _⟩ := hagree
    exact (hpublished ho).elim
  | left =>
    have hfailed := hagree.resolve_left hbefore
    obtain ⟨message, rfl⟩ | ⟨message, waker, rfl⟩ := hs <;> exact hfailed.elim
  | caught | leaving | quitting | abandoned => exact hblocking.elim

/-- A receiver that never becomes a future leaves no spin loop early. -/
theorem Simulates.not_early {σ : System T} {p : Proto T} (hsim : Simulates σ p)
    (hblocking : Blocking p.r) (l : Label T) : σ.earlyExit l = false := by
  by_contra hearly
  have hstate : σ.memory.channel.state = DISCONNECTED ∧ σ.inWindow = true := by
    cases l with
    | receiver e =>
      cases e with
      | act α =>
        obtain ⟨a, v⟩ := α
        cases a with
        | load order => simpa [System.earlyExit] using hearly
        | _ => exact (hearly rfl).elim
      | _ => exact (hearly rfl).elim
    | _ => exact (hearly rfl).elim
  rw [← hsim.memory] at hstate
  exact hblocking.state_ne p.agree (hsim.of_inWindow hstate.2) hstate.1

end Proto

/-- `channel()` or `async_channel()`, as the receiver's handle says. -/
def System.made (T : Type) (handle : Receiver.Handle) (token : Thread → Bool) : System T :=
  ⟨⟨Channel.new, true, token⟩, .idle .sender, .idle handle⟩

/-- A channel that is used alone, and patiently, in a run that has come to `σ`. -/
def System.Alone (handle : Receiver.Handle) (τ : List (Label T)) (σ : System T) : Prop :=
  handle ≠ .gone ∧ ∃ token, Run System.PatientStep (System.made T handle token) τ σ

namespace System.Alone

variable {handle : Receiver.Handle} {τ : List (Label T)} {σ σ' ρ : System T} {l : Label T}

theorem simulates (halone : Alone handle τ σ) (token : Thread → Bool) :
    Proto.Simulates (System.made T handle token) (Proto.init handle token) := by
  cases handle with
  | receiver => exact Proto.simulates_channel token
  | async_receiver => exact Proto.simulates_async_channel token
  | gone => exact (halone.1 rfl).elim

/-- The protocol of such a channel. -/
theorem proto (halone : Alone handle τ σ) :
    ∃ token p, Run Proto.PatientStep (Proto.init handle token) τ p ∧ Proto.Simulates σ p := by
  obtain ⟨_, token, hrun⟩ := id halone
  exact ⟨token, Proto.patient_run (halone.simulates token) (Proto.init_patient handle token) hrun⟩

theorem snoc (halone : Alone handle τ σ) (hstep : PatientStep σ l σ') :
    Alone handle (τ ++ [l]) σ' := by
  obtain ⟨hhandle, token, hrun⟩ := halone
  exact ⟨hhandle, token, hrun.snoc hstep⟩

/-- A step that touches the channel is made while that is not freed, even if it is made from
    another state of the memory. -/
theorem unfreed (halone : Alone handle τ σ) (hsender : σ.sender = ρ.sender)
    (hreceiver : σ.receiver = ρ.receiver) (hstep : Step ρ l σ') (hl : l.touches = true) :
    frees τ = 0 := by
  obtain ⟨token, p, hp, hsim⟩ := halone.proto
  obtain ⟨hpatient, hfreed⟩ := Proto.freed_run hp
  refine hfreed.never fun hdead => ?_
  have hworks := hstep.works
  generalize σ'.memory = μ' at hworks
  cases hworks with
  | @access _ α _ hα hnext =>
    rw [(Label.frees_of_action hα).2] at hl
    rw [← hsender, ← hreceiver] at hnext
    rw [Proto.untouched_next hsim hpatient hdead hnext] at hl
    cases hl
  | stray => cases hl
  | still hα => simp [Label.touches, hα] at hl

/-- Who holds a handle finds the channel there. -/
theorem unfreed_of_handle (halone : Alone handle τ σ)
    (hheld : (∃ h, σ.sender = .idle h ∧ h ≠ .gone) ∨ ∃ h, σ.receiver = .idle h ∧ h ≠ .gone) :
    frees τ = 0 := by
  obtain ⟨token, p, hp, hsim⟩ := halone.proto
  obtain ⟨hpatient, hfreed⟩ := Proto.freed_run hp
  refine hfreed.never fun hdead => ?_
  have hroles := Proto.dead_roles hpatient hdead
  obtain ⟨μ, s, r⟩ := σ
  obtain ⟨_, ss, rs, _⟩ := p
  obtain ⟨_, hs, hr⟩ := hsim
  obtain ⟨h, rfl, hh⟩ | ⟨h, rfl, hh⟩ := hheld
  · cases hs with
    | @idle _ ρ hready =>
      obtain ⟨⟨content, hfreed⟩, _⟩ | ⟨hpublished, _⟩ := hroles
      · obtain rfl : ρ = .freed content := hfreed
        cases h <;> first | exact hready.elim | exact hh rfl
      · replace hpublished : ρ.published ≠ none := hpublished
        cases h <;> cases ρ <;> first | exact hready.elim | exact hpublished rfl | exact hh rfl
  · cases hr with
    | @idle _ ρ hready =>
      obtain ⟨_, hleft⟩ | ⟨_, ⟨content, seen, hreleased⟩ | ⟨waker, habandoned⟩⟩ := hroles
      · obtain rfl : ρ = .left := hleft
        cases h <;> first | exact hready.elim | exact hh rfl
      · obtain rfl : ρ = .released content seen := hreleased
        cases h <;> first | exact hready.elim | exact hh rfl
      · obtain rfl : ρ = .abandoned waker := habandoned
        cases h <;> first | exact hready.elim | exact hh rfl

end System.Alone

end oneshot
