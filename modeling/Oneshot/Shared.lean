import Oneshot.System

open conc

namespace oneshot

variable {T : Type}

/-- A thread that has a shared reference to the `Sender`. All it may call is
    `is_closed`. -/
def Sender.shared (T : Type) : Endpoint (interface T) where
  Handle := Unit
  Call := Unit
  Ret := Bool
  accepts _ _ := true
  code _ := Sender.is_closed
  after _ _ := ()

/-- A channel whose sender is shared by any number of threads. -/
structure Shared (T : Type) where
  system : System T
  threads : Nat → (Sender.shared T).State

inductive Shared.Label (T : Type) where
  | side (l : oneshot.Label T)
  | thread (i : Nat) (e : (Sender.shared T).Event)

/-- The step is one of the two sides. -/
def Shared.Label.onSide : Shared.Label T → Option (oneshot.Label T)
  | .side l => some l
  | .thread _ _ => none

/-- The step takes the sender by value, or asks by a shared reference. -/
def Label.takesSender : Label T → Bool
  | .sender (.call (.send _)) | .sender (.call .drop) => true
  | _ => false

def Label.asksSender : Label T → Bool
  | .sender (.call .is_closed) => true
  | _ => false

namespace Shared

/-- What the two sides do, in a run. -/
def sides (τ : List (Label T)) : List (oneshot.Label T) := τ.filterMap Label.onSide

def setThread (S : Shared T) (i : Nat) (st : (Sender.shared T).State) (μ : Memory T) : Shared T where
  system := { S.system with memory := μ }
  threads j := if j = i then st else S.threads j

/-- The threads ask as long as the sender is there, and none of them is in a call when
    it is taken. All calls of `is_closed` are theirs. -/
inductive Step : Shared T → Label T → Shared T → Prop where
  | side {S : Shared T} {l : oneshot.Label T} {σ' : System T} (hstep : System.Step S.system l σ')
      (hasks : l.asksSender = false) (htakes : l.takesSender = true → ∀ i, S.threads i = .idle ()) :
      Step S (.side l) { S with system := σ' }
  | thread {S : Shared T} {i : Nat} {e : (Sender.shared T).Event} {st' : (Sender.shared T).State}
      {μ' : Memory T} (hsender : S.system.sender = .idle .sender)
      (hstep : (Sender.shared T).Step Memory.Acts (S.threads i) S.system.memory e st' μ') :
      Step S (.thread i e) (S.setThread i st' μ')

/-- A new channel, with all threads between two calls. -/
def Initial (S : Shared T) : Prop := S.system.Initial ∧ ∀ i, S.threads i = .idle ()

@[simp] theorem sides_append (τ₁ τ₂ : List (Label T)) : sides (τ₁ ++ τ₂) = sides τ₁ ++ sides τ₂ :=
  List.filterMap_append

/-- Where a call of `is_closed` is: it is still to look at the state, or about to
    answer. -/
def Asking : (Sender.shared T).State → Prop
  | .idle _ => True
  | .busy _ p => p = Sender.is_closed ∨ ∃ b, p = .ret b

/-- A step of a thread that asks. -/
theorem Asking.step {st st' : (Sender.shared T).State} {μ μ' : Memory T}
    {e : (Sender.shared T).Event} (hasking : Asking st)
    (hstep : (Sender.shared T).Step Memory.Acts st μ e st' μ') : Asking st' ∧ μ' = μ := by
  cases hstep with
  | call => exact ⟨.inl rfl, rfl⟩
  | act hacts =>
    obtain h | ⟨b, h⟩ := hasking
    · cases h
      exact ⟨.inr ⟨_, rfl⟩, (Memory.acts_load hacts).2⟩
    · cases h
  | enter => obtain h | ⟨b, h⟩ := hasking <;> cases h
  | ret => exact ⟨trivial, rfl⟩

/-- To the two sides the threads are not there. -/
theorem sides_run {S₀ S : Shared T} {τ : List (Label T)} (hrun : Run Step S₀ τ S)
    (hinit : ∀ i, Asking (S₀.threads i)) :
    Run System.Step S₀.system (sides τ) S.system ∧ ∀ i, Asking (S.threads i) := by
  induction hrun with
  | nil => exact ⟨.nil, hinit⟩
  | @snoc τ S S' l _ hstep ih =>
    obtain ⟨hsides, hasking⟩ := ih
    rw [sides_append]
    cases hstep with
    | side hstep => exact ⟨hsides.snoc hstep, hasking⟩
    | @thread i e st' μ' _ hstep =>
      obtain ⟨hasking', rfl⟩ := (hasking i).step hstep
      have hnone : sides [Label.thread i e] = [] := rfl
      refine ⟨?_, fun j => ?_⟩
      · rw [hnone, List.append_nil]
        exact hsides
      · by_cases hj : j = i
        · simpa [setThread, hj] using hasking'
        · simpa [setThread, hj] using hasking j

/-- A thread in a call keeps the sender from being taken. -/
theorem sender_of_busy {S₀ S : Shared T} {τ : List (Label T)} (hrun : Run Step S₀ τ S)
    (hidle : ∀ i, S₀.threads i = .idle ()) {i : Nat} {p : Code T Bool}
    (hbusy : S.threads i = .busy () p) : S.system.sender = .idle .sender := by
  induction hrun generalizing p with
  | nil =>
    rw [hidle i] at hbusy
    cases hbusy
  | @snoc τ S S' l _ hstep ih =>
    cases hstep with
    | @side l σ' hstep hasks htakes =>
      have hsender := ih hbusy
      obtain ⟨memory, sender, receiver⟩ := σ'
      cases hstep with
      | receiver | stray => exact hsender
      | sender hstep =>
        rw [hsender] at hstep
        cases hstep with
        | @call _ c _ haccepts =>
          have htaken : (oneshot.Label.sender (.call c) : oneshot.Label T).takesSender = true := by
            cases c <;> first | rfl | (cases hasks; done) | cases haccepts
          replace hbusy : S.threads i = .busy () p := hbusy
          rw [htakes htaken i] at hbusy
          cases hbusy
    | thread hsender hstep => exact hsender

/-! Runs that are made of a run of the two sides, or of one question. -/

/-- No thread is in a call. -/
def quiet (σ : System T) : Shared T := ⟨σ, fun _ => .idle ()⟩

theorem quiet_run {σ σ' : System T} {τ : List (oneshot.Label T)} (hrun : Run System.Step σ τ σ')
    (hasks : ∀ l ∈ τ, l.asksSender = false) : Run Step (quiet σ) (τ.map .side) (quiet σ') := by
  induction hrun with
  | nil => exact .nil
  | @snoc τ σ₁ σ₂ l _ hstep ih =>
    rw [List.map_append]
    have hl := hasks l (List.mem_append_right _ (List.mem_singleton_self l))
    exact (ih fun l hl => hasks l (List.mem_append_left _ hl)).snoc (.side hstep hl fun _ _ => rfl)

/-- The labels of a question and its answer. -/
def question (i : Nat) (v : UInt8) : List (Label T) :=
  [.thread i (.call ()), .thread i (.act ⟨.load .Relaxed, v⟩), .thread i (.ret () (v == DISCONNECTED))]

/-- One thread in the state `st`, and the others between two calls. -/
def only (i : Nat) (st : (Sender.shared T).State) : Nat → (Sender.shared T).State :=
  fun j => if j = i then st else .idle ()

theorem only_step {σ : System T} {i : Nat} {e : (Sender.shared T).Event}
    {st st' : (Sender.shared T).State} (hsender : σ.sender = .idle .sender)
    (hstep : (Sender.shared T).Step Memory.Acts st σ.memory e st' σ.memory) :
    Step ⟨σ, only i st⟩ (.thread i e) ⟨σ, only i st'⟩ := by
  have hset : (Shared.mk σ (only i st)).setThread i st' σ.memory = ⟨σ, only i st'⟩ := by
    refine congrArg (Shared.mk σ) (funext fun j => ?_)
    by_cases hj : j = i <;> simp [only, hj]
  rw [← hset]
  refine .thread hsender ?_
  simpa [only] using hstep

theorem question_run {σ : System T} (i : Nat) (hsender : σ.sender = .idle .sender) :
    Run Step (quiet σ) (question i σ.memory.channel.state) (quiet σ) := by
  have hquiet : quiet σ = ⟨σ, only i (.idle ())⟩ :=
    congrArg (Shared.mk σ) (funext fun _ => (ite_self _).symm)
  have hload : σ.memory.Acts ⟨.load .Relaxed, σ.memory.channel.state⟩ σ.memory :=
    ⟨⟨.spurious, ⟨0⟩⟩, rfl⟩
  rw [hquiet]
  exact ((Run.nil.snoc (only_step hsender (.call rfl))).snoc
    (only_step hsender (.act hload))).snoc (only_step hsender .ret)

end Shared

end oneshot
