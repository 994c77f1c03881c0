import Oneshot.Protocol.Refinement

open conc

namespace oneshot

variable {T : Type}

namespace Proto

/-- A destructor that waits for the sender's final state gives up only after a
    sender that was dropped has written it. -/
def Patient (p : Proto T) : Prop :=
  ∀ waker, p.r = .quitting waker ∨ p.r = .abandoned waker → p.s.published = some none

def PatientStep (p : Proto T) (l : Label T) (p' : Proto T) : Prop := Step p l p' ∧ p'.Patient

theorem init_patient (h : Receiver.Handle) (token : Thread → Bool) :
    (init h token : Proto T).Patient := by
  rintro waker (h | h) <;> cases h

theorem patient_of_run {h : Receiver.Handle} {token : Thread → Bool} {τ : List (Label T)}
    {p : Proto T} (hrun : Run PatientStep (init h token) τ p) : p.Patient := by
  cases hrun with
  | nil => exact init_patient h token
  | snoc _ hstep => exact hstep.2

/-- What the sender has published stays published. -/
theorem published_move {s s' : Sender.Role T} {α : (interface T).Action} (hmove : s.Move α s')
    {message : Option T} (hpublished : s.published = some message) :
    s'.published = some message := by
  cases hmove <;> first | exact hpublished | cases hpublished

/-- A destructor gives up only by reading `DISCONNECTED` in its spin loop. -/
theorem quitting_move {r r' : Receiver.Role T} {α : (interface T).Action} (hmove : r.Move α r')
    {waker : ReceiverWaker} (hr' : r' = .quitting waker ∨ r' = .abandoned waker) :
    (r = .leaving waker ∧ ∃ order, α = ⟨.load order, DISCONNECTED⟩) ∨ r = .quitting waker := by
  cases hmove <;> simp_all

/-- Between its announcement and its final write the sender's next access is the
    one that empties the waker cell, or that write. -/
theorem Simulates.inWindow {σ : System T} {p : Proto T} (hsim : Simulates σ p) {b : UInt8}
    {waker : ReceiverWaker} {x : Channel T} (hs : p.s.Window b waker x) : σ.inWindow = true := by
  have hready (h : Sender.Handle) : ¬ Sender.Ready h p.s := by
    cases h <;> cases hp : p.s <;> simp_all [Sender.Role.Window, Sender.Ready]
  obtain ⟨a, f, hnext, hon⟩ := hsim.sender.next_of_unready hready id
  replace hon : p.s.on a = some f := hon
  unfold System.inWindow
  rw [hnext]
  cases hp : p.s <;> rw [hp] at hs hon
  case unparking | taken =>
    cases a with
    | take_waker | swap val order => rfl
    | _ => cases hon
  all_goals exact hs.elim

/-- A step that leaves no spin loop early keeps the destructor patient. -/
theorem Patient.step {σ : System T} {p p' : Proto T} {l : Label T} (hsim : Simulates σ p)
    (hpatient : p.Patient) (hstep : Step p l p') (hlate : σ.earlyExit l = false) : p'.Patient := by
  intro waker hr'
  have hagree := p.agree
  cases hstep.moves with
  | still _ hs hr =>
    rw [hs]
    exact hpatient waker (hr ▸ hr')
  | sender hmove hr =>
    exact published_move hmove (hpatient waker (hr ▸ hr'))
  | receiver hmove hs hacts =>
    rw [hs]
    obtain ⟨hleaving, order, rfl⟩ | hquitting := quitting_move hmove hr'
    · obtain ⟨env, hexec⟩ := hacts
      have hstate : DISCONNECTED = p.memory.channel.state := (Memory.exec_channel hexec).1
      change Receiver.Role.Agree p.r p.s _ at hagree
      rw [hleaving] at hagree
      obtain hwindow | hnotified := hagree
      · have hbyte : σ.memory.channel.state = DISCONNECTED := by rw [← hsim.memory, hstate]
        simp [System.earlyExit, hbyte, hsim.inWindow hwindow] at hlate
      · obtain ⟨message, hmessage, hchannel⟩ := hnotified.published
        rw [hchannel] at hstate
        cases message with
        | none => exact hmessage
        | some message => cases hstate
    · exact hpatient waker (.inl hquitting)

/-- Every run of the system that leaves no spin loop early is one of the protocol
    in which the destructor is patient. -/
theorem patient_run {σ₀ σ : System T} {p₀ : Proto T} {τ : List (Label T)}
    (hsim : Simulates σ₀ p₀) (hpatient : p₀.Patient) (hrun : Run System.PatientStep σ₀ τ σ) :
    ∃ p, Run PatientStep p₀ τ p ∧ Simulates σ p := by
  have hstep (σ : System T) (p : Proto T) (l : Label T) (σ' : System T)
      (hrel : Simulates σ p ∧ p.Patient) (hstep : System.PatientStep σ l σ') :
      ∃ p', PatientStep p l p' ∧ Simulates σ' p' ∧ p'.Patient := by
    obtain ⟨p', hp, hsim'⟩ := hrel.1.step hstep.1
    have hpatient' := hrel.2.step hrel.1 hp hstep.2
    exact ⟨p', ⟨hp, hpatient'⟩, hsim', hpatient'⟩
  obtain ⟨p, hp, hrel⟩ := hrun.simulation ⟨hsim, hpatient⟩ hstep
  exact ⟨p, hp, hrel.1⟩

/-! A receiver that never becomes a future stores no task waker, and so is never
caught in the middle of the sender's window. -/

/-- The handles and calls of a plain `Receiver`. -/
def Synchronous : (Receiver.contract T).Session → Prop
  | .between h _ => h ≠ .async_receiver
  | .during c _ _ => match c with
    | .into_future | .poll _ | .async_is_closed | .async_has_message | .async_drop => False
    | _ => True

/-- The roles of a plain `Receiver`. -/
def Blocking : Receiver.Role T → Prop
  | .armed (.Task _) | .waiting (.Task _) => False
  | .caught _ | .leaving _ | .quitting _ | .abandoned _ => False
  | .woken (.Task _) => False
  | _ => True

/-- A step of a blocking role that stores no task waker. -/
theorem blocking_move {r r' : Receiver.Role T} {α : (interface T).Action} (hmove : r.Move α r')
    (hr : Blocking r) (hα : ∀ cx, α ≠ ⟨.write_waker (.Task cx), ()⟩) : Blocking r' := by
  cases hmove with
  | store_waker waker =>
    cases waker with
    | Thread current => trivial
    | Task cx => exact (hα cx rfl).elim
  | publish waker | exchange waker | woken_again waker => cases waker <;> trivial
  | _ => trivial

theorem synchronous_step {p p' : Proto T} {l : Label T} (hstep : Step p l p')
    (hl : l.intoFuture = false)
    (h : Synchronous p.receiver ∧ Blocking p.r) : Synchronous p'.receiver ∧ Blocking p'.r := by
  obtain ⟨μ, ss, rs, hagree⟩ := p
  obtain ⟨μ', ss', rs', hagree'⟩ := p'
  cases hstep with
  | stray thread _ _ hreceiver =>
    cases hreceiver
    exact h
  | sender hsession _ hreceiver =>
    cases hreceiver
    exact h
  | receiver hsession _ _ =>
    cases hsession with
    | @call h' c ρ haccepts hready =>
      refine ⟨?_, h.2⟩
      cases c with
      | into_future => cases hl
      | poll | async_is_closed | async_has_message | async_drop =>
        cases h' with
        | async_receiver => exact h.1 rfl
        | _ => cases haccepts
      | _ => trivial
    | enter hwaits => exact h
    | @ret c v ρ g hpost =>
      refine ⟨?_, h.2⟩
      cases c <;> first | exact h.1.elim | (intro hh; cases hh)
    | @act c ρ ρ' g g' α f hon hmove htrack =>
      refine ⟨h.1, blocking_move (Receiver.Role.move_of_on hon hmove) h.2 ?_⟩
      intro cx hα
      obtain rfl : α = ⟨.write_waker (.Task cx), ()⟩ := hα
      have hwaker := Receiver.Progress.waker_of_write htrack
      cases c <;> simp_all [Synchronous, Receiver.Call.waker]

/-- A `Receiver` that never becomes a future stays a plain one. -/
theorem synchronous_of_run {token : Thread → Bool} {τ : List (Label T)} {p : Proto T}
    (hrun : Run Step (init .receiver token) τ p) (hsync : ∀ l ∈ τ, l.intoFuture = false) :
    Synchronous p.receiver ∧ Blocking p.r := by
  have hinit : Synchronous (init .receiver token : Proto T).receiver ∧
      Blocking (init .receiver token : Proto T).r := ⟨by rintro ⟨⟩, trivial⟩
  exact (hrun.attach hsync).keeps (P := fun p => Synchronous p.receiver ∧ Blocking p.r)
    (fun _ _ _ h hstep => synchronous_step hstep.1 hstep.2 h) hinit

/-- A run of a plain `Receiver` is one in which its destructor is patient. -/
theorem synchronous_run {σ : System T} {τ : List (Label T)} {token : Thread → Bool}
    (hrun : Run System.Step (System.channel T token) τ σ)
    (hsync : ∀ l ∈ τ, l.intoFuture = false) :
    ∃ p, Run PatientStep (init .receiver token) τ p ∧ Simulates σ p := by
  have hstep (σ : System T) (p : Proto T) (l : Label T) (σ' : System T)
      (hrel : Simulates σ p ∧ Synchronous p.receiver ∧ Blocking p.r)
      (hstep : System.Step σ l σ' ∧ l.intoFuture = false) :
      ∃ p', PatientStep p l p' ∧ Simulates σ' p' ∧ Synchronous p'.receiver ∧ Blocking p'.r := by
    obtain ⟨p', hp, hsim⟩ := hrel.1.step hstep.1
    have hblocking := synchronous_step hp hstep.2 hrel.2
    refine ⟨p', ⟨hp, ?_⟩, hsim, hblocking⟩
    rintro waker (hr | hr) <;> simp [hr, Blocking] at hblocking
  obtain ⟨p, hp, hrel⟩ := (hrun.attach hsync).simulation
    ⟨simulates_channel token, by rintro ⟨⟩, trivial⟩ hstep
  exact ⟨p, hp, hrel.1⟩

end Proto

end oneshot
