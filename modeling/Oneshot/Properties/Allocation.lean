import Oneshot.Protocol.Patience

open conc

namespace oneshot

variable {T : Type}

/-- The accesses to the heap allocation: to the state byte, to one of the two
    cells, or the deallocation itself. -/
def Access.touches : Access T → Bool
  | .load _ | .store _ _ | .swap _ _ | .fetch_add _ _ | .fetch_xor _ _ => true
  | .compare_exchange _ _ _ _ => true
  | .write_message _ | .take_message | .drop_message => true
  | .write_waker _ | .take_waker | .drop_waker => true
  | .dealloc => true
  | _ => false

def Access.frees : Access T → Bool
  | .dealloc => true
  | _ => false

def Label.touches (l : Label T) : Bool := l.action.any (·.access.touches)

def Label.frees (l : Label T) : Bool := l.action.any (·.access.frees)

theorem Label.touches_of_frees {l : Label T} (hl : l.frees = true) : l.touches = true := by
  unfold Label.frees at hl
  unfold Label.touches
  cases hα : l.action with
  | none => simp [hα] at hl
  | some α =>
    obtain ⟨a, v⟩ := α
    cases a <;> simp_all [Access.frees, Access.touches]

/-- No step touches the allocation after a step that has freed it. -/
def AllocationSafe (τ : List (Label T)) : Prop :=
  τ.Pairwise fun l l' => l.frees = true → l'.touches = false

/-- How often a run has freed the allocation. -/
def frees (τ : List (Label T)) : Nat := τ.countP Label.frees

namespace Proto

/-- One of the sides has freed the channel. -/
def Dead (s : Sender.Role T) (r : Receiver.Role T) : Prop :=
  (∃ content, s = .freed content) ∨ (∃ content seen, r = .released content seen) ∨
    ∃ waker, r = .abandoned waker

theorem dead_sender_move {s s' : Sender.Role T} {r : Receiver.Role T} {α : (interface T).Action}
    (hmove : s.Move α s') : Dead s' r ↔ Dead s r ∨ α.access.frees = true := by
  cases hmove <;> simp [Dead, Access.frees]

theorem dead_receiver_move {s : Sender.Role T} {r r' : Receiver.Role T}
    {α : (interface T).Action} (hmove : r.Move α r') :
    Dead s r' ↔ Dead s r ∨ α.access.frees = true := by
  cases hmove <;> simp [Dead, Access.frees]

/-- The side that is left when the channel is freed has no more business with it. -/
theorem dead_roles {p : Proto T} (hpatient : p.Patient) (hdead : Dead p.s p.r) :
    ((∃ content, p.s = .freed content) ∧ p.r = .left) ∨ (p.s.published ≠ none ∧
      ((∃ content seen, p.r = .released content seen) ∨ ∃ waker, p.r = .abandoned waker)) := by
  have hagree : Receiver.Role.Agree p.r p.s p.memory.channel := p.agree
  obtain ⟨content, hs⟩ | ⟨content, seen, hr⟩ | ⟨waker, hr⟩ := hdead
  · rw [hs] at hagree
    exact .inl ⟨⟨content, hs⟩, hagree.of_freed⟩
  · rw [hr] at hagree
    obtain ⟨_, _, sent, hsent, _⟩ := hagree
    exact .inr ⟨by simp [hsent], .inl ⟨content, seen, hr⟩⟩
  · exact .inr ⟨by simp [hpatient waker (.inr hr)], .inr ⟨waker, hr⟩⟩

theorem untouched_sender_move {s s' : Sender.Role T} {α : (interface T).Action}
    (hmove : s.Move α s') (hs : (∃ content, s = .freed content) ∨ s.published ≠ none) :
    α.access.touches = false := by
  cases hmove <;> first | rfl | simp [Sender.Role.published] at hs

/-- No step touches the channel once it is freed. -/
theorem untouched_of_dead {p p' : Proto T} {l : Label T} (hpatient : p.Patient)
    (hstep : Step p l p') (hdead : Dead p.s p.r) : l.touches = false := by
  cases hstep.moves with
  | still hl => simp [Label.touches, hl]
  | @sender α _ hmove =>
    have hs := dead_roles hpatient hdead
    have huntouched := untouched_sender_move hmove (hs.imp (·.1) (·.1))
    simpa [Label.touches, Label.action] using huntouched
  | @receiver α _ hmove =>
    obtain ⟨_, hr⟩ | ⟨_, ⟨content, seen, hr⟩ | ⟨waker, hr⟩⟩ := dead_roles hpatient hdead
    all_goals rw [hr] at hmove; cases hmove

/-- The ledger of the allocation: it was freed once if one of the sides has freed
    it, and else not at all. -/
structure Freed (τ : List (Label T)) (p : Proto T) : Prop where
  safe : AllocationSafe τ
  never : ¬ Dead p.s p.r → frees τ = 0
  once : Dead p.s p.r → frees τ = 1

theorem Freed.step {τ : List (Label T)} {p p' : Proto T} {l : Label T} (h : Freed τ p)
    (hpatient : p.Patient) (hstep : Step p l p') : Freed (τ ++ [l]) p' := by
  have hfrees : frees (τ ++ [l]) = frees τ + if l.frees then 1 else 0 := by
    simp [frees, List.countP_append, List.countP_singleton]
  have hdead : Dead p'.s p'.r ↔ Dead p.s p.r ∨ l.frees = true := by
    cases hstep.moves with
    | still hl hs hr => simp [hs, hr, Label.frees, hl]
    | sender hmove hr =>
      simpa [hr, Label.frees, Label.action] using dead_sender_move hmove
    | receiver hmove hs =>
      simpa [hs, Label.frees, Label.action] using dead_receiver_move hmove
  have huntouched (hd : Dead p.s p.r) : l.frees = false := by
    by_contra hl
    have htouches := Label.touches_of_frees (Bool.not_eq_false _ ▸ hl)
    simp [untouched_of_dead hpatient hstep hd] at htouches
  refine ⟨?_, ?_, ?_⟩
  · refine List.pairwise_append.mpr ⟨h.safe, List.pairwise_singleton _ _, ?_⟩
    intro l₁ hl₁ l₂ hl₂ hf
    obtain rfl := List.mem_singleton.mp hl₂
    by_cases hd : Dead p.s p.r
    · exact untouched_of_dead hpatient hstep hd
    · have hzero := h.never hd
      simp [frees, List.countP_eq_zero] at hzero
      exact absurd hf (by simp [hzero l₁ hl₁])
  · intro hno
    rw [hdead, not_or] at hno
    simp [hfrees, h.never hno.1, hno.2]
  · intro hyes
    obtain hd | hl := hdead.mp hyes
    · simp [hfrees, h.once hd, huntouched hd]
    · have hno : ¬ Dead p.s p.r := fun hd => by simp [huntouched hd] at hl
      simp [hfrees, h.never hno, hl]

theorem freed_run {h : Receiver.Handle} {token : Thread → Bool} {τ : List (Label T)} {p : Proto T}
    (hrun : Run PatientStep (init h token) τ p) : p.Patient ∧ Freed τ p := by
  induction hrun with
  | nil =>
    refine ⟨init_patient h token, .nil, fun _ => rfl, ?_⟩
    rintro (⟨_, h⟩ | ⟨_, _, h⟩ | ⟨_, h⟩) <;> cases h
  | snoc _ hstep ih => exact ⟨hstep.2, ih.2.step ih.1 hstep.1⟩

theorem dead_of_completed {σ : System T} {p : Proto T} (hsim : Simulates σ p)
    (hcompleted : σ.Completed) : Dead p.s p.r := by
  obtain ⟨⟨_, hs⟩, _, hr⟩ := hsim.completed hcompleted
  have hagree : Receiver.Role.Agree p.r p.s p.memory.channel := p.agree
  cases hp : p.r <;> rw [hp] at hr hagree
  case left =>
    cases hps : p.s <;> rw [hps] at hs hagree
    case freed content => exact .inl ⟨content, rfl⟩
    case finished message => obtain h | h := hagree <;> cases h
    all_goals cases hs
  case released content seen => exact .inr (.inl ⟨content, seen, rfl⟩)
  case abandoned waker => exact .inr (.inr ⟨waker, rfl⟩)
  all_goals cases hr

end Proto

/-- What allocation safety asks of a run that has come to `σ`. -/
def AllocationKept (τ : List (Label T)) (σ : System T) : Prop :=
  AllocationSafe τ ∧ frees τ ≤ 1 ∧ (σ.Completed → frees τ = 1)

theorem allocation_kept {h : Receiver.Handle} {token : Thread → Bool} {τ : List (Label T)}
    {σ : System T} {p : Proto T} (hrun : Run Proto.PatientStep (Proto.init h token) τ p)
    (hsim : Proto.Simulates σ p) : AllocationKept τ σ := by
  obtain ⟨_, hfreed⟩ := Proto.freed_run hrun
  refine ⟨hfreed.safe, ?_, fun hcompleted => hfreed.once (Proto.dead_of_completed hsim hcompleted)⟩
  by_cases hd : Proto.Dead p.s p.r
  · exact Nat.le_of_eq (hfreed.once hd)
  · simp [hfreed.never hd]

/-- Allocation safety of a channel whose receiver may become a future, as long as
    the destructor of the future never leaves its spin loop while the sender is
    still at work. -/
theorem async_allocation_kept {σ₀ σ : System T} {τ : List (Label T)} (hinitial : σ₀.Initial)
    (hrun : Run System.PatientStep σ₀ τ σ) : AllocationKept τ σ := by
  obtain ⟨token, rfl | rfl⟩ := hinitial
  · obtain ⟨p, hp, hsim⟩ := Proto.patient_run (Proto.simulates_channel token)
      (Proto.init_patient _ _) hrun
    exact allocation_kept hp hsim
  · obtain ⟨p, hp, hsim⟩ := Proto.patient_run (Proto.simulates_async_channel token)
      (Proto.init_patient _ _) hrun
    exact allocation_kept hp hsim

theorem async_allocation_kept_late_exit :
    AllocationKept ((System.async_channel Nat fun _ => false).labels System.late_exit)
      ((System.async_channel Nat fun _ => false).reached System.late_exit) :=
  async_allocation_kept ⟨_, .inr rfl⟩ (System.play_patient (System.play_eq (by decide)) (by decide))

/-- Without that condition the sender may touch the channel after the receiver
    has freed it. -/
theorem async_allocation_not_kept :
    ¬ ∀ (τ : List (Label Nat)) (σ : System Nat),
      Run System.Step (System.async_channel Nat fun _ => false) τ σ → AllocationKept τ σ := by
  intro hkept
  have hsafe := (hkept _ _ (@System.run_of_play _ _ System.early_exit (by decide))).1
  unfold AllocationSafe at hsafe
  exact absurd hsafe (by decide)

/-- Allocation safety of a channel whose receiver stays a plain `Receiver`. -/
theorem sync_allocation_kept {σ : System T} {token : Thread → Bool} {τ : List (Label T)}
    (hrun : Run System.Step (System.channel T token) τ σ)
    (hsync : ∀ l ∈ τ, l.intoFuture = false) : AllocationKept τ σ := by
  obtain ⟨p, hp, hsim⟩ := Proto.synchronous_run hrun hsync
  exact allocation_kept hp hsim

theorem sync_allocation_kept_timed_out :
    AllocationKept ((System.channel Nat fun _ => false).labels System.timed_out)
      ((System.channel Nat fun _ => false).reached System.timed_out) :=
  sync_allocation_kept (System.run_of_play (by decide)) (by decide)

end oneshot
