import Oneshot.Unwind
import Oneshot.Protocol.Refinement

open conc

namespace oneshot

variable {T : Type}

/-- A wake that unwinds leaves nothing to be done. -/
theorem Sender.Role.Move.unwind {c : Call T} {h : Handle} {s s' : Role T}
    {α : (interface T).Action} (hmove : s.Move α s') (hunwinds : unwinds c α.access = some h) :
    h = .gone ∧ ∃ message, s' = .finished message := by
  cases hmove with
  | wake message task =>
    refine ⟨?_, message, rfl⟩
    cases c <;> cases hunwinds <;> rfl
  | _ => cases c <;> cases hunwinds

/-- How the sending side recovers. -/
noncomputable def Sender.recovery (T : Type) : Contract.Recovery (Sender.contract T) unwinds where
  Inside _ _ _ := True
  Thrown h s := h = .gone ∧ ∃ message : Option T, s = Role.finished message
  call _ _ := trivial
  act _ _ _ _ := trivial
  unwind _ hon hmove hunwinds := (Role.move_of_on hon hmove).unwind hunwinds
  thrown_ready := by
    rintro h s ⟨rfl, message, rfl⟩
    trivial

namespace Receiver

/-- The sender's final state is in the channel as the sender has written it. -/
def Owned.Untouched (x : Owned T) : Prop := x.intact = true ∧ Final x.state x.message

/-- The roles of a `poll`. A waker that is left over in a channel of its own is dropped before
    anything else is done there. -/
def Role.Polling : Role T → Prop
  | .idle | .armed (.Task _) | .waiting (.Task _) | .caught (.Task _) => True
  | .own x => x.waker = none ∨ x.Untouched
  | .released _ _ => True
  | _ => False

/-- The roles in which an access to a waker leaves a `poll`. The waker cell is empty, or the
    sender's. -/
def Role.Thrown : Role T → Prop
  | .idle | .caught (.Task _) => True
  | .own x => x.waker = none ∧ x.Untouched
  | _ => False

theorem Role.Polling.call {h : Handle} {cx : Waker} {r : Role T}
    (haccepts : (receiver T).accepts h (.poll cx) = true) (hready : Ready h r) : r.Polling := by
  cases h <;> cases haccepts
  cases r with
  | idle => trivial
  | own x => exact .inl hready.1
  | waiting waker | caught waker => cases waker <;> exact hready
  | _ => exact hready.elim

/-- A `poll` stores task wakers only, makes no swap and does not drop the message. -/
theorem Role.Move.polling {cx : Waker} {r r' : Role T} {g g' : Progress T}
    {α : (interface T).Action} (hmove : r.Move α r')
    (htrack : Progress.advance (.poll cx) g α = some g') (hg : g.settled ≠ some .dropped)
    (hr : r.Polling) : r'.Polling := by
  have hmakes := (Progress.follow_of_advance htrack).1
  cases hmove with
  | store_waker waker =>
    obtain rfl : ReceiverWaker.Task cx = waker := Option.some.inj (Progress.waker_of_write htrack)
    trivial
  | look _ hfinal | woken _ _ hfinal | poll_late _ _ hfinal | retract_late _ hfinal
  | caught _ _ hfinal => exact .inl rfl
  | exchange_late _ hfinal => exact .inr ⟨rfl, hfinal⟩
  | own_load x => exact hr
  | own_store x _ _ hwaker => exact .inl hwaker
  | own_fence x => exact hr
  | own_clock x => exact hr
  | own_take x _ _ _ hwaker => exact .inl hwaker
  | own_drop => exact (hg (Progress.dropped_of_drop htrack)).elim
  | own_drop_waker x => exact .inl rfl
  | exchange waker | caught_again waker | caught_spin waker | wake_self waker =>
    cases waker <;> exact hr
  | leave | close | publish | publish_late | expire | expire_unparking | expire_late | depart
  | depart_late | own_swap => cases hmakes
  | look_empty | clock | clone | disarm | poll_receiving | poll_unparking | retract
  | retract_unparking | release => trivial
  | _ => exact hr.elim

/-- Only a `poll` is left by an access that unwinds, and its future is kept. -/
theorem poll_of_unwinds {c : Call} {a : Access T} {h : Handle} (hunwinds : unwinds c a = some h) :
    (∃ cx, c = .poll cx) ∧ h = .async_receiver := by
  unfold unwinds at hunwinds
  split at hunwinds <;> cases hunwinds <;> exact ⟨⟨_, rfl⟩, rfl⟩

theorem Role.Move.thrown {c : Call} {h : Handle} {r r' : Role T} {α : (interface T).Action}
    (hmove : r.Move α r') (hunwinds : unwinds c α.access = some h) (hr : r.Polling) :
    r'.Thrown := by
  cases hmove with
  | clone | disarm => trivial
  | wake_self waker => cases waker <;> exact hr
  | own_drop_waker x hwaker =>
    refine ⟨rfl, ?_⟩
    obtain hnone | huntouched := hr
    · rw [hnone] at hwaker
      cases hwaker
    · exact huntouched
  | _ => cases c <;> cases hunwinds

/-- A `poll` can be called again in a role in which it was left. -/
theorem Role.Thrown.ready {r : Role T} (hr : r.Thrown) : Ready .async_receiver r := by
  cases r with
  | idle => trivial
  | caught waker => cases waker <;> exact hr
  | own x =>
    obtain ⟨state, message, waker, seen, intact⟩ := x
    obtain ⟨rfl, rfl, hfinal⟩ := hr
    refine ⟨rfl, ?_⟩
    cases hfinal with
    | sent => exact .inl ⟨rfl, rfl, rfl⟩
    | dropped => exact .inr ⟨rfl, rfl, .inl rfl⟩
  | _ => exact hr.elim

/-- How the receiving side recovers. -/
def recovery (T : Type) : Contract.Recovery (contract T) unwinds where
  Inside c r g := ∀ cx, c = .poll cx → Role.Polling r ∧ Progress.settled g ≠ some .dropped
  Thrown h r := h = .async_receiver ∧ Role.Thrown r
  call := by
    rintro h c r haccepts hready cx rfl
    refine ⟨Role.Polling.call haccepts hready, ?_⟩
    rintro ⟨⟩
  act := by
    rintro c r r' g g' α f hinside hon hmove htrack cx rfl
    obtain ⟨hr, hg⟩ := hinside cx rfl
    refine ⟨(Role.move_of_on hon hmove).polling htrack hg hr, ?_⟩
    obtain ⟨_, hsame⟩ | ⟨o, _, hallows, _, hafter⟩ := Progress.advance_settled htrack
    · rw [hsame]
      exact hg
    · rw [hafter]
      rintro ⟨⟩
      cases hallows
  unwind := by
    rintro c r r' g h α f hinside hon hmove hunwinds
    obtain ⟨⟨cx, rfl⟩, rfl⟩ := poll_of_unwinds hunwinds
    exact ⟨rfl, (Role.move_of_on hon hmove).thrown hunwinds (hinside cx rfl).1⟩
  thrown_ready := by
    rintro h r ⟨rfl, hr⟩
    exact hr.ready

end Receiver

namespace Proto

/-- A step of a channel whose wakers may panic, as the protocol sees it. An access that
    unwinds is an access, and then its call is abandoned. -/
inductive Unwinding : Proto T → oneshot.Unwinding.Label T → Proto T → Prop where
  | step {p p' : Proto T} {l : Label T} (hstep : Step p l p') : Unwinding p (.step l) p'
  | sender {p p₁ p' : Proto T} {α : (interface T).Action} (hstep : Step p (.sender (.act α)) p₁)
      (habandons : (Sender.recovery T).Abandons p₁.sender p'.sender)
      (hmemory : p'.memory = p₁.memory) (hreceiver : p'.receiver = p₁.receiver) :
      Unwinding p (.sender α) p'
  | receiver {p p₁ p' : Proto T} {α : (interface T).Action}
      (hstep : Step p (.receiver (.act α)) p₁)
      (habandons : (Receiver.recovery T).Abandons p₁.receiver p'.receiver)
      (hmemory : p'.memory = p₁.memory) (hsender : p'.sender = p₁.sender) :
      Unwinding p (.receiver α) p'

/-- To the memory and to the roles an access that unwinds is one that returns. -/
theorem Unwinding.plain {p p' : Proto T} {l : oneshot.Unwinding.Label T}
    (hstep : Unwinding p l p') :
    ∃ p₁, Step p l.plain p₁ ∧ p'.memory = p₁.memory ∧ p'.s = p₁.s ∧ p'.r = p₁.r := by
  cases hstep with
  | step hstep => exact ⟨p', hstep, rfl, rfl, rfl⟩
  | @sender p₁ _ α hstep habandons hmemory hreceiver =>
    refine ⟨p₁, hstep, hmemory, habandons.role, ?_⟩
    rw [r, hreceiver]
    rfl
  | @receiver p₁ _ α hstep habandons hmemory hsender =>
    refine ⟨p₁, hstep, hmemory, ?_, habandons.role⟩
    rw [s, hsender]
    rfl

/-- The code of both sides plays its part, and the call that each is in can be left. -/
structure Recovers (σ : System T) (p : Proto T) : Prop where
  simulates : Simulates σ p
  sender : (Sender.recovery T).Kept p.sender
  receiver : (Receiver.recovery T).Kept p.receiver

theorem Recovers.of_init {σ : System T} {h : Receiver.Handle} {token : Thread → Bool}
    (hsim : Simulates σ (init h token)) : Recovers σ (init h token) :=
  ⟨hsim, trivial, trivial⟩

/-- A step of a side keeps what is kept by its call. -/
theorem kept_step {p p' : Proto T} {l : Label T} (hstep : Step p l p')
    (hs : (Sender.recovery T).Kept p.sender) (hr : (Receiver.recovery T).Kept p.receiver) :
    (Sender.recovery T).Kept p'.sender ∧ (Receiver.recovery T).Kept p'.receiver := by
  cases hstep with
  | sender hsession _ hreceiver =>
    rw [hreceiver]
    exact ⟨hs.step hsession, hr⟩
  | receiver hsession _ hsender =>
    rw [hsender]
    exact ⟨hs, hr.step hsession⟩
  | stray thread _ hsender hreceiver =>
    rw [hsender, hreceiver]
    exact ⟨hs, hr⟩

/-- Every step of the system is one of the protocol. -/
theorem Recovers.step {σ σ' : System T} {p : Proto T} {l : oneshot.Unwinding.Label T}
    (hrecovers : Recovers σ p) (hstep : oneshot.Unwinding.Step σ l σ') :
    ∃ p', Unwinding p l p' ∧ Recovers σ' p' := by
  obtain ⟨memory, sender, receiver⟩ := σ
  obtain ⟨μ, ss, rs, hagree⟩ := p
  obtain ⟨hsim, hks, hkr⟩ := hrecovers
  cases hstep with
  | step hstep =>
    obtain ⟨p', hp, hsim'⟩ := hsim.step hstep
    obtain ⟨hks', hkr'⟩ := kept_step hp hks hkr
    exact ⟨p', .step hp, hsim', hks', hkr'⟩
  | @sender α s' μ' hunwind =>
    obtain ⟨rfl, hs, hr⟩ := hsim
    have hacts : μ.Acts α μ' := by cases hunwind; assumption
    obtain ⟨ss₁, ss', hsession, habandons, htracks, hagree'⟩ :=
      Contract.Recovery.tracks_unwind (R := Sender.recovery T) hs hks hunwind
        (P := fun s => Receiver.Role.Agree rs.role s μ'.channel) (by
          rintro f hon ⟨env, hexec⟩
          obtain ⟨hanswers, hupdate⟩ := Memory.exec_channel hexec
          rw [hupdate]
          exact Sender.sound hagree hon hanswers)
    have hagree₁ : Receiver.Role.Agree rs.role ss₁.role μ'.channel := by
      rw [← habandons.role]
      exact hagree'
    have hstep : Step ⟨μ, ss, rs, hagree⟩ (.sender (.act α)) ⟨μ', ss₁, rs, hagree₁⟩ :=
      .sender hsession hacts rfl
    refine ⟨⟨μ', ss', rs, hagree'⟩, ?_, ⟨rfl, htracks, hr⟩, habandons.kept, hkr⟩
    exact .sender hstep habandons rfl rfl
  | @receiver α r' μ' hunwind =>
    obtain ⟨rfl, hs, hr⟩ := hsim
    have hacts : μ.Acts α μ' := by cases hunwind; assumption
    obtain ⟨rs₁, rs', hsession, habandons, htracks, hagree'⟩ :=
      Contract.Recovery.tracks_unwind (R := Receiver.recovery T) hr hkr hunwind
        (P := fun r => Receiver.Role.Agree r ss.role μ'.channel) (by
          rintro f hon ⟨env, hexec⟩
          obtain ⟨hanswers, hupdate⟩ := Memory.exec_channel hexec
          rw [hupdate]
          exact Receiver.sound hagree hon hanswers)
    have hagree₁ : Receiver.Role.Agree rs₁.role ss.role μ'.channel := by
      rw [← habandons.role]
      exact hagree'
    have hstep : Step ⟨μ, ss, rs, hagree⟩ (.receiver (.act α)) ⟨μ', ss, rs₁, hagree₁⟩ :=
      .receiver hsession hacts rfl
    refine ⟨⟨μ', ss, rs', hagree'⟩, ?_, ⟨rfl, hs, htracks⟩, hks, habandons.kept⟩
    exact .receiver hstep habandons rfl rfl

/-- Every run of a channel whose wakers may panic is one of the protocol. -/
theorem Recovers.run {σ₀ σ : System T} {p₀ : Proto T} {τ : List (oneshot.Unwinding.Label T)}
    (hrecovers : Recovers σ₀ p₀) (hrun : Run oneshot.Unwinding.Step σ₀ τ σ) :
    ∃ p, Run Unwinding p₀ τ p ∧ Recovers σ p := by
  have hstep (σ : System T) (p : Proto T) (l : oneshot.Unwinding.Label T) (σ' : System T)
      (hrecovers : Recovers σ p) (hstep : oneshot.Unwinding.Step σ l σ') :
      ∃ p', Unwinding p l p' ∧ Recovers σ' p' := hrecovers.step hstep
  exact hrun.simulation hrecovers hstep

end Proto

end oneshot
