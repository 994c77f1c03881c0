import Oneshot.Weak

open conc

namespace oneshot

variable {T : Type}

/-- A step of the sender that does not park, as none of them does. -/
def Label.running : Label T → Prop
  | .sender (.act α) => α.access.parks = none
  | .sender _ => True
  | _ => False

/-- The state byte, as it is when all writes have arrived. -/
def System.byte (σ : System T) : UInt8 := σ.memory.channel.state

/-- The accesses of a receiver that has not found the sender's final state, other than those
    to the byte: what they do does not concern the sender. -/
def Access.aside : Access T → Bool
  | .fence _ | .write_waker _ | .drop_waker | .clone_waker _ | .wake_by_ref _ => true
  | .park _ | .park_timeout _ _ | .now | .spin_loop => true
  | _ => false

namespace Memory

/-- What such an access makes of the memory. -/
def aside (μ : Memory T) : (interface T).Action → Memory T
  | ⟨.write_waker waker, _⟩ => μ.setWaker (some waker)
  | ⟨.drop_waker, _⟩ => μ.setWaker none
  | ⟨.park thread, .unparked⟩ | ⟨.park_timeout thread _, .unparked⟩ => μ.setToken thread false
  | _ => μ

theorem state_aside (μ : Memory T) (α : (interface T).Action) :
    (μ.aside α).channel.state = μ.channel.state := by
  unfold aside
  split <;> rfl

theorem wakeup_aside {μ μ' : Memory T} {thread : Thread} {w v : Wakeup}
    (hwakeup : μ.wakeup thread w = some (v, μ')) :
    μ' = (if v = .unparked then μ.setToken thread false else μ) ∧ ∀ ν : Memory T,
      (v = .unparked → ν.token thread = μ.token thread) →
      ν.wakeup thread w = some (v, if v = .unparked then ν.setToken thread false else ν) := by
  obtain ⟨rfl, ⟨hv, rfl⟩ | ⟨rfl, htoken, rfl⟩⟩ := wakeup_eq hwakeup
  · refine ⟨(if_neg hv).symm, fun ν _ => ?_⟩
    rw [if_neg hv]
    cases v <;> first | rfl | exact (hv rfl).elim
  · refine ⟨rfl, fun ν hν => ?_⟩
    rw [wakeup, if_pos ((hν rfl).trans htoken), if_pos rfl]

theorem acts_aside {μ μ' : Memory T} {α : (interface T).Action} (hacts : μ.Acts α μ')
    (haside : α.access.aside = true) : μ' = μ.aside α ∧ ∀ ν : Memory T,
      (α.access.cell = some .waker → ν.channel.waker = μ.channel.waker) →
      (∀ thread, syncOp true α = .take thread → ν.token thread = μ.token thread) →
      ν.Acts α (ν.aside α) := by
  obtain ⟨a, v⟩ := α
  obtain ⟨env, hexec⟩ := hacts
  cases a with
  | drop_waker =>
    obtain ⟨waker, hwaker, heq⟩ := Option.map_eq_some_iff.mp hexec
    cases heq
    refine ⟨rfl, fun ν hν _ => ⟨env, ?_⟩⟩
    have hsome : ν.channel.waker = some waker := (hν rfl).trans hwaker
    exact Option.map_eq_some_iff.mpr ⟨waker, hsome, rfl⟩
  | park thread =>
    simp only [exec] at hexec
    split at hexec
    · cases hexec
    · obtain ⟨rfl, hν⟩ := wakeup_aside hexec
      have haside (ν : Memory T) : ν.aside ⟨.park thread, v⟩ =
          if v = .unparked then ν.setToken thread false else ν := by cases v <;> rfl
      refine ⟨(haside μ).symm, fun ν _ htoken => ⟨env, ?_⟩⟩
      rw [haside]
      refine (if_neg ‹_›).trans (hν ν fun h => htoken thread ?_)
      rw [h]
      rfl
  | park_timeout thread timeout =>
    replace hexec : μ.wakeup thread env.wakeup = some (v, μ') := hexec
    obtain ⟨rfl, hν⟩ := wakeup_aside hexec
    have haside (ν : Memory T) : ν.aside ⟨.park_timeout thread timeout, v⟩ =
        if v = .unparked then ν.setToken thread false else ν := by cases v <;> rfl
    refine ⟨(haside μ).symm, fun ν _ htoken => ⟨env, ?_⟩⟩
    rw [haside]
    refine hν ν fun h => htoken thread ?_
    rw [h]
    rfl
  | clone_waker waker =>
    replace hexec : some (waker, μ) = some (v, μ') := hexec
    cases hexec
    exact ⟨rfl, fun ν _ _ => ⟨env, rfl⟩⟩
  | write_waker | fence | wake_by_ref | now | spin_loop =>
    cases hexec
    exact ⟨rfl, fun ν _ _ => ⟨env, rfl⟩⟩
  | _ => cases haside

/-- An access to something else goes its way whatever is in the waker cell. -/
theorem acts_setWaker {μ μ' : Memory T} {α : (interface T).Action} (hacts : μ.Acts α μ')
    (hparks : α.access.parks = none) (hcell : α.access.cell ≠ some .waker) :
    μ'.channel.waker = μ.channel.waker ∧
      ∀ waker, (μ.setWaker waker).Acts α (μ'.setWaker waker) := by
  obtain ⟨a, v⟩ := α
  obtain ⟨env, hexec⟩ := hacts
  cases a with
  | take_message | drop_message =>
    obtain ⟨message, hmessage, heq⟩ := Option.map_eq_some_iff.mp hexec
    cases heq
    exact ⟨rfl, fun _ => ⟨env, Option.map_eq_some_iff.mpr ⟨_, hmessage, rfl⟩⟩⟩
  | compare_exchange current new success failure =>
    simp only [exec] at hexec
    split at hexec
    · cases hexec
      exact ⟨rfl, fun _ => ⟨env, if_pos ‹_›⟩⟩
    · cases hexec
      exact ⟨rfl, fun _ => ⟨env, if_neg ‹_›⟩⟩
  | clone_waker waker =>
    replace hexec : some (waker, μ) = some (v, μ') := hexec
    cases hexec
    exact ⟨rfl, fun _ => ⟨env, rfl⟩⟩
  | write_waker | take_waker | drop_waker => exact (hcell rfl).elim
  | park | park_timeout => cases hparks
  | _ =>
    cases hexec
    exact ⟨rfl, fun _ => ⟨env, rfl⟩⟩

theorem setToken_comm (μ : Memory T) {t thread : Thread} {b : Bool} (h : t ≠ thread ∨ b = true) :
    (μ.setToken t true).setToken thread b = (μ.setToken thread b).setToken t true := by
  have htoken : ((μ.setToken t true).setToken thread b).token =
      ((μ.setToken thread b).setToken t true).token := by
    funext t'
    simp only [setToken]
    split
    · split
      · exact h.resolve_left fun hne => hne (by simp_all)
      · rfl
    · rfl
  obtain ⟨x, allocated, token⟩ := μ
  simp only [setToken] at htoken ⊢
  rw [htoken]

/-- An access that does not hand over the token goes its way whether that is set or not. -/
theorem acts_setToken {μ μ' : Memory T} {α : (interface T).Action} (hacts : μ.Acts α μ')
    (hparks : α.access.parks = none) {thread : Thread} {b : Bool}
    (hunpark : α.access ≠ .unpark thread ∨ b = true) :
    (α.access ≠ .unpark thread → μ'.token thread = μ.token thread) ∧
      (μ.setToken thread b).Acts α (μ'.setToken thread b) := by
  obtain ⟨a, v⟩ := α
  obtain ⟨env, hexec⟩ := hacts
  cases a with
  | take_message | drop_message | take_waker | drop_waker =>
    obtain ⟨_, hsome, heq⟩ := Option.map_eq_some_iff.mp hexec
    cases heq
    exact ⟨fun _ => rfl, env, Option.map_eq_some_iff.mpr ⟨_, hsome, rfl⟩⟩
  | compare_exchange current new success failure =>
    simp only [exec] at hexec
    split at hexec
    · cases hexec
      exact ⟨fun _ => rfl, env, if_pos ‹_›⟩
    · cases hexec
      exact ⟨fun _ => rfl, env, if_neg ‹_›⟩
  | clone_waker waker =>
    replace hexec : some (waker, μ) = some (v, μ') := hexec
    cases hexec
    exact ⟨fun _ => rfl, env, rfl⟩
  | unpark t =>
    cases hexec
    have hne : t ≠ thread ∨ b = true := hunpark.imp (fun h ht => h (by rw [ht])) id
    refine ⟨fun h => ?_, env, ?_⟩
    · have hthread : thread ≠ t := fun ht => h (by rw [ht])
      simp [setToken, hthread]
    · rw [setToken_comm μ hne]
      rfl
  | park | park_timeout => cases hparks
  | _ =>
    cases hexec
    exact ⟨fun _ => rfl, env, rfl⟩

end Memory

/-- The step does not concern what the access `α` of the receiver changes. -/
def Label.spares (α : (interface T).Action) (d : Label T) : Prop :=
  (α.access.cell = some .waker → d.accesses .sender .waker = false) ∧
    ∀ thread, syncOp true α = .take thread → d ≠ .sender (.act ⟨.unpark thread, ()⟩)

namespace Memory

theorem acts_spared {μ μ' : Memory T} {α β : (interface T).Action} (hacts : μ.Acts β μ')
    (hparks : β.access.parks = none) (hspares : (Label.sender (.act β)).spares α) :
    (μ.aside α).Acts β (μ'.aside α) := by
  have hcell (hα : α.access.cell = some .waker) : β.access.cell ≠ some .waker := by
    simpa [Label.accesses] using hspares.1 hα
  have hunpark (thread : Thread) (hα : syncOp true α = .take thread) :
      β.access ≠ .unpark thread := by
    obtain ⟨b, v⟩ := β
    intro hb
    cases hb
    exact hspares.2 thread hα rfl
  obtain ⟨a, v⟩ := α
  cases a with
  | write_waker waker => exact (acts_setWaker hacts hparks (hcell rfl)).2 _
  | drop_waker => exact (acts_setWaker hacts hparks (hcell rfl)).2 _
  | park thread | park_timeout thread timeout =>
    cases v with
    | unparked => exact (acts_setToken hacts hparks (.inl (hunpark thread rfl))).2
    | spurious | elapsed => exact hacts
  | _ => exact hacts

end Memory

namespace System

/-- The system after an event of the receiver that does not concern the sender. -/
def beside (σ : System T) (e : (oneshot.receiver T).Event) (r' : (oneshot.receiver T).State) :
    System T :=
  match e with
  | .act α => ⟨σ.memory.aside α, σ.sender, r'⟩
  | _ => ⟨σ.memory, σ.sender, r'⟩

/-- What the receiver's event depends on is the same in both states. -/
structure Unmoved (e : (oneshot.receiver T).Event) (σ σ' : System T) : Prop where
  receiver : σ'.receiver = σ.receiver
  waker : ∀ α, e = .act α → α.access.cell = some .waker →
    σ'.memory.channel.waker = σ.memory.channel.waker
  token : ∀ α thread, e = .act α → syncOp true α = .take thread →
    σ'.memory.token thread = σ.memory.token thread

section

variable {σ σ' : System T} {d : Label T} {e : (oneshot.receiver T).Event}
  {r' : (oneshot.receiver T).State}

theorem byte_beside (σ : System T) (e : (oneshot.receiver T).Event)
    (r' : (oneshot.receiver T).State) : (σ.beside e r').byte = σ.byte := by
  unfold beside
  split
  · exact Memory.state_aside _ _
  · rfl

/-- A step of the sender that is not concerned can be made after the receiver's. -/
theorem Step.beside (hstep : Step σ d σ') (hd : d.running)
    (hspares : ∀ α, e = .act α → d.spares α) : Step (σ.beside e r') d (σ'.beside e r') := by
  cases hstep with
  | @sender e' s' μ' hstep =>
    have hkeep := (Proto.follows_of_step hstep).2
    cases e with
    | act α =>
      refine .sender (σ := ⟨σ.memory.aside α, σ.sender, r'⟩) (hstep.transport ?_ ?_)
      · rintro β rfl hacts
        exact Memory.acts_spared hacts hd (hspares α rfl)
      · exact fun hno => by rw [hkeep hno]
    | _ => exact .sender (σ := ⟨σ.memory, σ.sender, r'⟩) hstep
  | receiver | stray => exact hd.elim

theorem Step.unmoved (hstep : Step σ d σ') (hd : d.running)
    (hspares : ∀ α, e = .act α → d.spares α) : Unmoved e σ σ' := by
  cases hstep with
  | @sender e' s' μ' hstep =>
    obtain ⟨hfollows, hkeep⟩ := Proto.follows_of_step hstep
    cases e' with
    | act β =>
      refine ⟨rfl, fun α he hα => ?_, fun α thread he hα => ?_⟩
      · have hcell : β.access.cell ≠ some .waker := by
          simpa [Label.accesses] using (hspares α he).1 hα
        exact (Memory.acts_setWaker hfollows hd hcell).1
      · refine (Memory.acts_setToken (b := true) hfollows hd (.inr rfl)).1 fun hβ => ?_
        obtain ⟨b, v⟩ := β
        cases hβ
        exact (hspares α he).2 thread hα rfl
    | _ =>
      obtain rfl := hkeep fun α h => by cases h
      exact ⟨rfl, fun _ _ _ => rfl, fun _ _ _ _ => rfl⟩
  | receiver | stray => exact hd.elim

theorem Unmoved.of_run {D : List (Label T)} (hrun : Run Step σ D σ') (hD : ∀ d ∈ D, d.running)
    (hspares : ∀ d ∈ D, ∀ α, e = .act α → d.spares α) : Unmoved e σ σ' := by
  induction hrun with
  | nil => exact ⟨rfl, fun _ _ _ => rfl, fun _ _ _ _ => rfl⟩
  | @snoc D s s' d _ hstep ih =>
    have hlast : d ∈ D ++ [d] := List.mem_append_right _ (List.mem_singleton_self _)
    have hold := ih (fun d hd => hD d (List.mem_append_left _ hd))
      fun d hd => hspares d (List.mem_append_left _ hd)
    have hnew : Unmoved e _ _ := hstep.unmoved (hD _ hlast) (hspares _ hlast)
    exact ⟨hnew.receiver.trans hold.receiver,
      fun α he hα => (hnew.waker α he hα).trans (hold.waker α he hα),
      fun α thread he hα => (hnew.token α thread he hα).trans (hold.token α thread he hα)⟩

/-- An event that does not concern the sender can be made as well before the sender's last
    steps as after them. -/
theorem Unmoved.step {σ₁ : System T} {μ' : Memory T} (h : Unmoved e σ₁ σ)
    (hstep : (oneshot.receiver T).Step Memory.Acts σ.receiver σ.memory e r' μ')
    (haside : ∀ α, e = .act α → α.access.aside = true) :
    (⟨μ', σ.sender, r'⟩ : System T) = σ.beside e r' ∧
      Step σ₁ (.receiver e) (σ₁.beside e r') := by
  obtain ⟨hfollows, hkeep⟩ := Proto.follows_of_step hstep
  obtain ⟨μ₁, s₁, r₁⟩ := σ₁
  obtain ⟨μ, s, r⟩ := σ
  obtain ⟨rfl, hwaker, htoken⟩ := h
  cases e with
  | act α =>
    obtain ⟨rfl, hacts⟩ := Memory.acts_aside hfollows (haside α rfl)
    have hfirst := hacts μ₁ (fun hα => (hwaker α rfl hα).symm)
      fun thread hα => (htoken α thread rfl hα).symm
    refine ⟨rfl, .receiver (σ := ⟨μ₁, s₁, r⟩) (hstep.transport ?_ fun hno => (hno α rfl).elim)⟩
    rintro β ⟨⟩ _
    exact hfirst
  | _ =>
    obtain rfl := hkeep fun α h => by cases h
    refine ⟨rfl, .receiver (σ := ⟨μ₁, s₁, r⟩) (hstep.transport ?_ fun _ => rfl)⟩
    rintro β ⟨⟩

end

end System

end oneshot
