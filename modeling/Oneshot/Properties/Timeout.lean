import Oneshot.Properties.Calls

open conc

namespace oneshot

variable {T : Type}

/-- The access swaps `EMPTY` into the state. -/
def Access.expires : Access T → Bool
  | .swap val _ => val = EMPTY
  | _ => false

/-- The access is one to the message cell. -/
def Access.handles : Access T → Bool
  | .write_message _ | .take_message | .drop_message => true
  | _ => false

namespace Receiver

/-! What a timed wait that has timed out did. -/

section

attribute [local simp] access Program.perform state.load state.store state.swap fence
  Channel.take_message Channel.write_waker Channel.drop_waker thread.park thread.park_timeout
  Instant.now Access.expires Access.handles

/-- The accesses of a round that goes on waiting: they neither take back the state nor
    have to do with the message. -/
def Waits (acts : List (interface T).Action) : Prop :=
  ∀ α ∈ acts, α.access.expires = false ∧ α.access.handles = false

theorem waits_nil : Waits ([] : List (interface T).Action) := by
  simp [Waits]

theorem Waits.append {acts more : List (interface T).Action} (hacts : Waits acts)
    (hmore : Waits more) : Waits (acts ++ more) := by
  intro α hα
  obtain h | h := List.mem_append.mp hα
  · exact hacts α h
  · exact hmore α h

theorem State.of_eq_RECEIVING {v : UInt8} (hv : State.of v = .RECEIVING) : v = RECEIVING := by
  unfold State.of at hv
  split_ifs at hv with h₁ h₂ h₃
  exact h₃

/-- Waiting for the sender's final state ends with that state. -/
theorem wait_for_unpark_trace {current : Thread} {acts : List (interface T).Action}
    (htrace : (Receiver.wait_for_unpark current : Code T _).Trace acts (.error .Timeout)) :
    False := by
  obtain ⟨pre, last, _, _, hlast⟩ :=
    htrace.loop (fun _ => True) trivial fun _ _ _ _ => trivial
  simp at hlast
  obtain ⟨_, v, rest, _, hrest⟩ := hlast
  cases hv : State.of v <;> simp [hv] at hrest

/-- The last accesses of a call that has timed out: a look at the clock, after the
    deadline, the swap that takes back `RECEIVING`, and the drop of the waker. -/
def Expiry (deadline : Instant) (acts : List (interface T).Action) : Prop :=
  ∃ pre now, acts = pre ++ [⟨.now, now⟩, ⟨.swap EMPTY .Acquire, RECEIVING⟩, ⟨.drop_waker, ()⟩] ∧
    deadline.nanos < now.nanos ∧ Waits pre

theorem recv_deadline_loop_trace {current : Thread} {deadline : Instant}
    {acts : List (interface T).Action}
    (htrace : (Receiver.recv_deadline_loop current deadline : Code T _).Trace acts
      (.error .Timeout)) : Expiry deadline acts := by
  obtain ⟨pre, last, rfl, hpre, hlast⟩ := htrace.loop Waits waits_nil fun acts more hacts hmore => by
    refine hacts.append ?_
    simp at hmore
    obtain ⟨now, rest, rfl, hrest⟩ := hmore
    cases hdeadline : deadline.checked_duration_since now with
    | some timeout =>
      simp [hdeadline] at hrest
      obtain ⟨_, v, rest', rfl, hrest'⟩ := hrest
      cases hv : State.of v <;> simp [hv] at hrest'
      all_goals subst hrest'; simp [Waits]
    | none =>
      simp [hdeadline] at hrest
      obtain ⟨v, rest', rfl, hrest'⟩ := hrest
      cases hv : State.of v <;> simp [hv, Program.trace_bind] at hrest'
  simp at hlast
  obtain ⟨now, rest, rfl, hrest⟩ := hlast
  cases hdeadline : deadline.checked_duration_since now with
  | some timeout =>
    simp [hdeadline] at hrest
    obtain ⟨_, v, rest', rfl, hrest'⟩ := hrest
    cases hv : State.of v <;> simp [hv] at hrest'
  | none =>
    simp [hdeadline] at hrest
    obtain ⟨v, rest', rfl, hrest'⟩ := hrest
    cases hv : State.of v <;> simp [hv, Program.trace_bind] at hrest'
    case RECEIVING =>
      obtain ⟨⟨⟩, rfl⟩ := hrest'
      obtain rfl := State.of_eq_RECEIVING hv
      refine ⟨pre, now, rfl, ?_, hpre⟩
      by_contra hle
      simp [Instant.checked_duration_since, Nat.not_lt.mp hle] at hdeadline
    case UNPARKING => exact (wait_for_unpark_trace hrest').elim

theorem recv_deadline_trace {current : Thread} {deadline : Instant}
    {acts : List (interface T).Action}
    (htrace : (Receiver.recv_deadline current deadline : Code T _).Trace acts (.error .Timeout)) :
    Expiry deadline acts := by
  simp [Receiver.recv_deadline, Receiver.start_recv_ref] at htrace
  obtain ⟨v, rest, rfl, hrest⟩ := htrace
  cases hv : State.of v <;> simp [hv] at hrest
  obtain ⟨_, v', rest', rfl, hrest'⟩ := hrest
  cases hv' : State.of v' <;> simp [hv'] at hrest'
  obtain ⟨pre, now, rfl, hnow, hpre⟩ := recv_deadline_loop_trace hrest'
  refine ⟨⟨.load .Acquire, v⟩ :: ⟨.write_waker (.current_thread current), ()⟩ ::
    ⟨.swap RECEIVING .Release, v'⟩ :: pre, now, rfl, hnow, ?_⟩
  have hstart : Waits [⟨.load .Acquire, v⟩, ⟨.write_waker (.current_thread current), ()⟩,
    (⟨.swap RECEIVING .Release, v'⟩ : (interface T).Action)] := by simp [Waits]
  exact hstart.append hpre

theorem timed_out_trace {current : Thread} {deadline : Instant} {acts : List (interface T).Action}
    (htrace : ((receiver T).code (.recv_deadline current deadline)).Trace acts
      (.recv_timeout (.error .Timeout))) : Expiry deadline acts := by
  obtain ⟨first, v, rest, rfl, hfirst, hrest⟩ := Program.trace_bind.mp htrace
  obtain ⟨rfl, hv⟩ := Program.trace_ret.mp hrest
  cases hv
  rw [List.append_nil]
  exact recv_deadline_trace hfirst

end

end Receiver

/-- A timed wait that has timed out, with `τ₁` before its call and `τ₂` between its call
    and its return: it has read the clock after the deadline, and then taken back its
    waker from a sender that had not announced itself. It has not come near the
    message. -/
def Honest (deadline : Instant) (τ₁ τ₂ : List (Label T)) : Prop :=
  ∃ δ₁ δ₂ δ₃, τ₂ = δ₁ ++ .receiver (.act ⟨.swap EMPTY .Acquire, RECEIVING⟩) ::
      (δ₂ ++ .receiver (.act ⟨.drop_waker, ()⟩) :: δ₃) ∧
    (∃ now : Instant, deadline.nanos < now.nanos ∧ .receiver (.act ⟨.now, now⟩) ∈ δ₁) ∧
    (∀ l ∈ τ₁ ++ δ₁, l.announces = false) ∧
    (∀ l ∈ δ₁, ∀ α, l.received = some α →
      α.access.expires = false ∧ α.access.handles = false) ∧
    ∀ l ∈ δ₂ ++ δ₃, l.received = none

/-- What a run that has come to `σ` has to do with time-outs. -/
structure TimeoutsHonest (τ : List (Label T)) (σ : System T) : Prop where
  honest : ∀ τ₁ τ₂ τ₃ current deadline c,
    τ = τ₁ ++ .receiver (.call (.recv_deadline current deadline)) :: τ₂ ++
      .receiver (.ret c (.recv_timeout (.error .Timeout))) :: τ₃ →
    (∀ l ∈ τ₂, l.returns = false) → Honest deadline τ₁ τ₂
  /-- A time-out leaves the channel as it was. -/
  restored : ∀ τ₁ τ₂ τ₃, τ = τ₁ ++ .receiver (.act ⟨.swap EMPTY .Acquire, RECEIVING⟩) ::
      (τ₂ ++ .receiver (.act ⟨.drop_waker, ()⟩) :: τ₃) →
    (∀ l ∈ τ₂ ++ τ₃, l.received = none) → σ.memory.channel.waker = none ∧
      (σ.memory.channel.state = EMPTY ∨ ∃ l ∈ τ₂ ++ τ₃, l.announces = true)
  /-- A call whose time is up after the sender has announced itself returns what the
      sender does. -/
  late : ∀ τ₁ τ₂ τ₂' τ₃ current deadline (b : UInt8) c v,
    τ = τ₁ ++ .receiver (.call (.recv_deadline current deadline)) ::
      (τ₂ ++ .receiver (.act ⟨.swap EMPTY .Acquire, b⟩) :: τ₂') ++ .receiver (.ret c v) :: τ₃ →
    (∀ l ∈ τ₂ ++ τ₂', l.returns = false) → (∃ l ∈ τ₁ ++ τ₂, l.announces = true) →
    ((∃ m, v = .recv_timeout (.ok m) ∧ sent τ = [m]) ∨
        (v = .recv_timeout (.error .Disconnected) ∧ sent τ = [])) ∧
      ((∀ l ∈ τ₃, l.received = none) → σ.memory.channel.state = DISCONNECTED)
  /-- A send fails only after the receiver was dropped. -/
  send : ∀ τ₁ τ₂ c result, τ = τ₁ ++ .sender (.ret c (.send result)) :: τ₂ →
    (∀ d : Receiver.Call, d.destroys = true → .receiver (.call d) ∉ τ₁) → result = .ok ()
  finished : ∀ c, .sender (.ret c (.send (.ok ()))) ∈ τ → ∃ l ∈ τ, l.finishes = true
  /-- A receive call that starts after the send gets the message, if no call before has
      got it. -/
  receive : ∀ τ₁ τ₂ τ₃ c c' v,
    τ = τ₁ ++ .receiver (.call c) :: τ₂ ++ .receiver (.ret c' v) :: τ₃ →
    (∀ l ∈ τ₂, l.returns = false) → (∃ l ∈ τ₁, l.finishes = true) →
    (∀ m, Fate.received m ∉ fates τ₁) → c.receives = true →
    ∃ o : Option T, sent τ₁ = o.toList ∧
      Receiver.outcome c' v = some (Receiver.found o) ∧ ∀ l ∈ τ₂, l.waits = false
  returns : (∃ l ∈ τ, l.finishes = true) → Prompt σ
  released : (σ.returned = true → Released σ) ∧ Unhindered σ

namespace Receiver

variable {c : Call} {r r' : Role T} {s : Sender.Role T} {x : Channel T}
  {α : (interface T).Action}

/-- A receiver that is still apart from the sender has settled on nothing else than that
    the channel is open. -/
theorem Role.Move.open_of_apart {o : Outcome T} (hmove : r.Move α r') (hr' : r'.apart = true)
    (hpoint : point c α = some o) : o = .open := by
  cases hmove with
  | look_empty | expired_again | caught_again | poll_receiving | poll_unparking =>
    simp only [point, loadPoint] at hpoint
    split_ifs at hpoint <;> cases hpoint
    all_goals first | rfl | simp_all
  | woken_again waker order hv =>
    obtain rfl | rfl := hv <;> simp [point, loadPoint] at hpoint
  | publish | expire | expire_unparking =>
    simp [point, swapPoint] at hpoint
    try exact hpoint.symm
  | exchange | retract | retract_unparking =>
    simp only [point, exchangePoint] at hpoint
    split_ifs at hpoint <;> cases hpoint
    all_goals first | rfl | simp_all
  | _ => first | (cases hr'; done) | cases hpoint

def Undecided : (Receiver.contract T).Session → Prop
  | .between _ _ => True
  | .during _ r g => Role.apart r = true → ∀ o, Progress.settled g = some o → o = .open

theorem undecided_step {ss ss' : (Receiver.contract T).Session} {e : (receiver T).Event}
    (hstep : Contract.Session.Step ss e ss') (hundecided : Undecided ss) : Undecided ss' := by
  cases hstep with
  | call haccepts hready => rintro _ _ ⟨⟩
  | @act c r r' g g' α f hon hmove htrack =>
    intro hr' o ho
    have hmove := Role.move_of_on hon hmove
    obtain ⟨_, hsame⟩ | ⟨o', hpoint, _, _, hafter⟩ := Progress.advance_settled htrack
    · exact hundecided (hmove.apart (c := c) hr').1 o (hsame.symm.trans ho)
    · obtain rfl : o' = o := Option.some.inj (hafter.symm.trans ho)
      exact hmove.open_of_apart hr' hpoint
  | enter => exact hundecided
  | ret => trivial

end Receiver

namespace Sender

/-- What a sender that has announced itself is to leave. -/
def Role.committed : Role T → Option (Option T)
  | .unparking message | .taken message _ | .notify message _ | .finished message => some message
  | _ => none

theorem Role.committed_of_published {s : Role T} {o : Option T} (hs : s.published = some o) :
    s.committed = some o := by
  cases s <;> first | exact hs | cases hs

theorem Role.Move.committed {s s' : Role T} {α : (interface T).Action} {o : Option T}
    (hmove : s.Move α s') (hs : s.committed = some o) : s'.committed = some o := by
  cases hmove <;> first | exact hs | cases hs

end Sender

namespace Receiver

variable {r : Role T} {s : Sender.Role T} {x : Channel T} {α : (interface T).Action}

/-- The receiver has taken back `RECEIVING` too late, or has seen that the sender is
    done. -/
def Role.overdue (r : Role T) : Bool :=
  r.ended || match r with
    | .expired _ | .expired_woken _ => true
    | _ => false

theorem Role.not_ended_of_apart (hr : r.apart = true) : r.ended = false := by
  cases r <;> first | rfl | cases hr

/-- While the receiver waits the byte says whether the sender has announced itself. -/
theorem Role.Agree.announced_of_waiting {waker : ReceiverWaker}
    (hagree : Role.Agree (.waiting waker) s x) : s.announced = true ↔ x.state ≠ RECEIVING := by
  obtain hs | hs | hs := hagree
  · have hannounced : s.announced = false := by cases s <;> first | rfl | exact hs.elim
    simp [hannounced, hs.holds.1]
  · have hannounced : s.announced = true := by cases s <;> first | rfl | exact hs.elim
    simp [hannounced, hs.holds]
  · obtain ⟨o, ho, rfl⟩ := hs.published
    rw [Sender.Role.announced_of_published ho]
    cases o <;> simp

/-- A receiver that takes back `RECEIVING` does so before the sender has announced
    itself, or too late. -/
theorem Role.Move.expires {r' : Role T} {b : UInt8} (hmove : r.Move α r')
    (hα : α = ⟨.swap EMPTY .Acquire, b⟩) (hagree : r.Agree s x)
    (hanswers : x.Answers α.access α.resp) :
    (s.announced = true ↔ b ≠ RECEIVING) ∧ r.apart = true ∧
      ((b = RECEIVING ∧ ∃ waker, r' = .armed waker) ∨
        (b ≠ RECEIVING ∧ ((∃ waker, r' = .expired waker) ∨ ∃ y, r' = .own y))) := by
  cases hmove with
  | expire current =>
    cases hα
    rw [hagree.announced_of_waiting, ← show RECEIVING = x.state from hanswers]
    exact ⟨Iff.rfl, rfl, .inl ⟨rfl, _, rfl⟩⟩
  | expire_unparking current =>
    cases hα
    rw [hagree.announced_of_waiting, ← show UNPARKING = x.state from hanswers]
    exact ⟨Iff.rfl, rfl, .inr ⟨by simp, .inl ⟨_, rfl⟩⟩⟩
  | @expire_late current v content hfinal =>
    have hb : b = x.state := by cases hα; exact hanswers
    cases hα
    rw [hagree.announced_of_waiting, ← hb]
    exact ⟨Iff.rfl, rfl, .inr ⟨by cases hfinal <;> simp, .inr ⟨_, rfl⟩⟩⟩
  | _ => simp at hα

theorem Role.Move.overdue {r' : Role T} (hmove : r.Move α r') (hr : r.overdue = true) :
    r'.overdue = true ∧ (r.ended = true ∨ r'.apart = true ∨ ∃ y, r' = .own y) := by
  cases hmove with
  | expired_park | expired_again => exact ⟨rfl, .inr (.inl rfl)⟩
  | expired => exact ⟨rfl, .inr (.inr ⟨_, rfl⟩)⟩
  | _ => first | exact ⟨rfl, .inl rfl⟩ | cases hr

/-- A call that has not settled on what the sender is to leave does not settle on
    anything else. -/
theorem undecided_act {c : Call} {r' : Role T} {g g' : Progress T} {o : Option T}
    (hmove : r.Move α r') (htrack : Progress.advance c g α = some g') (hagree : r.Agree s x)
    (hanswers : x.Answers α.access α.resp) (hpublished : r'.ended = true → s.published = some o)
    (hr' : r'.ended = true ∨ r'.apart = true) (hc : c.destroys = false)
    (hopen : ∀ q, g.settled = some q → q = .open) (hr : r.awaits o) :
    g'.settled = some (found o) ∨ (∀ q, g'.settled = some q → q = .open) ∧ r'.awaits o := by
  obtain hended | happart := hr'
  · have hg : g.settled ≠ some .dropped := fun hg => by cases hopen _ hg
    obtain ⟨hsame, hr'⟩ | hdestroys | hfound :=
      awaits_act hmove htrack hagree hanswers (hpublished hended) hr hg
    · exact .inr ⟨fun q hq => hopen q (hsame.symm.trans hq), hr'⟩
    · rw [hc] at hdestroys
      cases hdestroys
    · exact .inl hfound
  · refine .inr ⟨fun q hq => ?_, .inl happart⟩
    obtain ⟨_, hsame⟩ | ⟨q', hpoint, _, _, hafter⟩ := Progress.advance_settled htrack
    · exact hopen q (hsame.symm.trans hq)
    · obtain rfl : q' = q := Option.some.inj (hafter.symm.trans hq)
      exact hmove.open_of_apart happart hpoint

/-- A sender that has announced itself to a receiver that is there is to leave it
    something. -/
theorem Role.Agree.committed (hagree : r.Agree s x) (hr : r.apart = true)
    (hs : s.announced = true) : ∃ o, s.committed = some o := by
  cases r <;> cases s <;>
    simp_all [Agree, Sender.Role.Before, Sender.Role.Window, Sender.Role.Notified,
      Sender.Role.Finished, Role.apart, Sender.Role.announced, Sender.Role.committed]

end Receiver

namespace Proto

variable {p p' : Proto T} {l : Label T} {τ : List (Label T)} {o : Option T}

/-- The call in progress has taken back `RECEIVING` too late, and comes to what the
    sender is to leave. -/
structure Late (c : Receiver.Call) (o : Option T) (p : Proto T) : Prop where
  committed : p.s.committed = some o
  overdue : p.r.overdue = true
  published : p.r.ended = true → p.s.published = some o
  settled : ∃ r g, p.receiver = .during c r g ∧ (Receiver.Progress.settled g = some (Receiver.found o) ∨
    (∀ q, Receiver.Progress.settled g = some q → q = .open) ∧ Receiver.Role.awaits o r)

/-- What a sender is to leave it does leave. -/
theorem Step.committed (hstep : Step p l p') (hs : p.s.committed = some o) :
    p'.s.committed = some o := by
  cases hstep.moves with
  | still _ hs' => rw [hs']; exact hs
  | sender hmove => exact hmove.committed hs
  | receiver _ hs' => rw [hs']; exact hs

theorem Late.step {c : Receiver.Call} (hlate : Late c o p) (hstep : Step p l p')
    (hc : c.destroys = false) (hl : l.returns = false) : Late c o p' := by
  obtain ⟨hcommitted, hoverdue, hpublished, r, g, hduring, hsettled⟩ := hlate
  have hcommitted' := hstep.committed hcommitted
  have hagree : Receiver.Role.Agree p.r p.s p.memory.channel := p.agree
  have hagree' : Receiver.Role.Agree p'.r p'.s p'.memory.channel := p'.agree
  have hr : p.r = r := by rw [Proto.r, hduring]; rfl
  by_cases hl' : l.ofReceiver = true
  · obtain ⟨μ, ss, rs, _⟩ := p
    obtain ⟨μ', ss', rs', _⟩ := p'
    obtain rfl : rs = .during c r g := hduring
    cases hstep with
    | sender | stray => cases hl'
    | @receiver _ e hsession hmemory hsender =>
      cases hsender
      cases hsession with
      | @act _ _ r' _ g' α f hon hmove htrack =>
        replace hmove : r.Move α r' := Receiver.Role.move_of_on hon hmove
        obtain ⟨env, hexec⟩ := hmemory
        obtain ⟨hoverdue', hcases⟩ := hmove.overdue hoverdue
        have hpublished' (hended' : r'.ended = true) : ss.role.published = some o := by
          obtain hended | happart | ⟨y, rfl⟩ := hcases
          · exact hpublished hended
          · rw [Receiver.Role.not_ended_of_apart happart] at hended'
            cases hended'
          · obtain ⟨_, _, sent, hsent, _⟩ := hagree'
            exact hsent.trans ((Sender.Role.committed_of_published hsent).symm.trans hcommitted)
        refine ⟨hcommitted', hoverdue', hpublished', r', g', rfl, ?_⟩
        obtain hfound | ⟨hopen, hr⟩ := hsettled
        · exact .inl (Receiver.Progress.advance_settles htrack hfound)
        · have hr' : r'.ended = true ∨ r'.apart = true := by
            obtain hended | happart | ⟨y, rfl⟩ := hcases
            · exact .inl (hmove.ended hended).1
            · exact .inr happart
            · exact .inl rfl
          exact Receiver.undecided_act hmove htrack hagree (Memory.exec_channel hexec).1 hpublished'
            hr' hc hopen hr
      | enter => exact ⟨hcommitted', hoverdue, hpublished, r, g, rfl, hsettled⟩
      | ret => cases hl
  · rw [Bool.not_eq_true] at hl'
    have hr' := hstep.role_of_other hl'
    refine ⟨hcommitted', ?_, ?_, r, g, ?_, hsettled⟩
    · rw [hr']
      exact hoverdue
    · rw [hr']
      exact fun hended => hstep.published (hpublished hended)
    · cases hstep with
      | sender _ _ hreceiver | stray _ _ _ hreceiver => rw [hreceiver, hduring]
      | receiver => cases hl'

/-- A call that takes back `RECEIVING` from a sender that has announced itself is late. -/
theorem late_of_swap {c : Receiver.Call} {r : Receiver.Role T} {g : Receiver.Progress T}
    {b : UInt8} (hstep : Step p (.receiver (.act ⟨.swap EMPTY .Acquire, b⟩)) p')
    (hduring : p.receiver = .during c r g) (hc : c.destroys = false)
    (hundecided : Receiver.Undecided p.receiver) (hs : p.s.announced = true) :
    ∃ o, Late c o p' := by
  have hagree : Receiver.Role.Agree p.r p.s p.memory.channel := p.agree
  have hagree' : Receiver.Role.Agree p'.r p'.s p'.memory.channel := p'.agree
  obtain ⟨μ, ss, rs, _⟩ := p
  obtain ⟨μ', ss', rs', _⟩ := p'
  obtain rfl : rs = .during c r g := hduring
  cases hstep with
  | @receiver _ e hsession hmemory hsender =>
    cases hsender
    generalize hα : (⟨.swap EMPTY .Acquire, b⟩ : (interface T).Action) = α at hsession hmemory
    cases hsession with
    | @act _ _ r' _ g' _ f hon hmove htrack =>
      replace hmove : r.Move α r' := Receiver.Role.move_of_on hon hmove
      obtain ⟨env, hexec⟩ := hmemory
      have hanswers := (Memory.exec_channel hexec).1
      obtain ⟨hannounced, happart, hcases⟩ := hmove.expires hα.symm hagree hanswers
      obtain ⟨o, hcommitted⟩ := hagree.committed happart hs
      obtain ⟨hb, _⟩ | ⟨_, hr'⟩ := hcases
      · exact (hannounced.mp hs hb).elim
      · have hpublished (hended : r'.ended = true) : ss.role.published = some o := by
          obtain ⟨waker, rfl⟩ | ⟨y, rfl⟩ := hr'
          · cases hended
          · obtain ⟨_, _, sent, hsent, _⟩ := hagree'
            exact hsent.trans ((Sender.Role.committed_of_published hsent).symm.trans hcommitted)
        have hsettled := Receiver.undecided_act hmove htrack hagree hanswers hpublished
          (by obtain ⟨_, rfl⟩ | ⟨_, rfl⟩ := hr' <;> first | exact .inl rfl | exact .inr rfl) hc
          (hundecided happart) (.inl happart)
        refine ⟨o, hcommitted, ?_, hpublished, r', g', rfl, hsettled⟩
        obtain ⟨_, rfl⟩ | ⟨_, rfl⟩ := hr' <;> rfl

/-- A late call that does not time out returns what the sender has left, and leaves the
    channel disconnected. -/
theorem Late.returns {current : Thread} {deadline : Instant} {c : Receiver.Call}
    {v : Receiver.Ret T} (hlate : Late (.recv_deadline current deadline) o p)
    (hstep : Step p (.receiver (.ret c v)) p') (hremembers : Receiver.Remembers p.receiver)
    (hv : v ≠ .recv_timeout (.error .Timeout)) :
    ((∃ m, v = .recv_timeout (.ok m) ∧ o = some m) ∨
        (v = .recv_timeout (.error .Disconnected) ∧ o = none)) ∧
      p'.s.published = some o ∧ ∃ y, p'.r = .own y ∧ y.state = DISCONNECTED := by
  have hagree' : Receiver.Role.Agree p'.r p'.s p'.memory.channel := p'.agree
  obtain ⟨_, hoverdue, hpublished, r, g, hduring, hsettled⟩ := hlate
  obtain ⟨μ, ss, rs, _⟩ := p
  obtain ⟨μ', ss', rs', _⟩ := p'
  obtain rfl : rs = .during _ r g := hduring
  cases hstep with
  | receiver hsession hmemory hsender =>
    cases hsender
    cases hsession with
    | ret hpost =>
      obtain ⟨hready, q, houtcome, hq⟩ := hpost
      have hfound : Receiver.Progress.settled g = some (Receiver.found o) := by
        obtain hfound | ⟨hopen, _⟩ := hsettled
        · exact hfound
        · obtain rfl := hopen q hq
          cases v with
          | recv_timeout result =>
            obtain ⟨⟨⟩⟩ | _ := result <;> first | exact (hv rfl).elim | cases houtcome
          | _ => cases houtcome
      obtain rfl : q = Receiver.found o := Option.some.inj (hq.symm.trans hfound)
      have hended : ∃ y, r = .own y := by
        cases r <;> first | exact ⟨_, rfl⟩ | exact hready.elim | cases hoverdue
      obtain ⟨y, rfl⟩ := hended
      have hs : ss.role.published = some o := hpublished rfl
      refine ⟨?_, hs, y, rfl, ?_⟩
      · cases v with
        | recv_timeout result =>
          obtain ⟨⟨⟩⟩ | m := result <;> cases o <;> cases houtcome
          · exact .inr ⟨rfl, rfl⟩
          · exact .inl ⟨_, rfl, rfl⟩
        | _ => cases houtcome
      · obtain ⟨_, ⟨_, hfull, _⟩ | ⟨hstate, _⟩⟩ := hready
        · -- The message is still there, but the call has taken it, or there was none.
          obtain ⟨_, _, sent, hsent, hmatches⟩ := hagree'
          obtain rfl : sent = o := Option.some.inj (hsent.symm.trans hs)
          obtain ⟨m, rfl, _⟩ := hmatches.full hfull
          have htaken : Receiver.Role.fates (.own y) = [.received m] := hremembers m hq
          cases hy : y.message <;> simp [hy, Receiver.Role.fates, Receiver.Role.content,
            Content.fates] at htaken hfull
        · exact hstate

/-- A time-out takes effect before the sender has announced itself. -/
theorem Step.expires {b : UInt8} (hstep : Step p (.receiver (.act ⟨.swap EMPTY .Acquire, b⟩)) p') :
    (p.s.announced = true ↔ b ≠ RECEIVING) ∧ (b = RECEIVING → ∃ waker, p'.r = .armed waker) := by
  have hagree : Receiver.Role.Agree p.r p.s p.memory.channel := p.agree
  generalize hα : (⟨.swap EMPTY .Acquire, b⟩ : (interface T).Action) = α at hstep
  cases hstep.moves with
  | still hl => cases hl
  | receiver hmove _ hacts =>
    obtain ⟨env, hexec⟩ := hacts
    obtain ⟨hannounced, _, ⟨_, hr⟩ | ⟨hb, _⟩⟩ :=
      hmove.expires hα.symm hagree (Memory.exec_channel hexec).1
    · exact ⟨hannounced, fun _ => hr⟩
    · exact ⟨hannounced, fun h => (hb h).elim⟩

theorem unannounced_of_expires {h : Receiver.Handle} {token : Thread → Bool}
    {τ₁ τ₂ : List (Label T)}
    (hrun : Run Step (init h token)
      (τ₁ ++ .receiver (.act ⟨.swap EMPTY .Acquire, RECEIVING⟩) :: τ₂) p) :
    ∀ l ∈ τ₁, l.announces = false := by
  obtain ⟨p₁, hp₁, hrest⟩ := hrun.split
  obtain ⟨p₂, hswap, _⟩ := hrest.cons_inv
  intro l hl
  by_contra hannounces
  have hs := (shown_run hp₁).announced.mpr ⟨l, hl, by simpa using hannounces⟩
  exact hswap.expires.1.mp hs rfl

theorem unannounced_of_call {h : Receiver.Handle} {token : Thread → Bool}
    {τ₁ τ₂ τ₂' τ₃ : List (Label T)} {l' : Label T}
    (hrun : Run Step (init h token)
      (τ₁ ++ l' :: (τ₂ ++ .receiver (.act ⟨.swap EMPTY .Acquire, RECEIVING⟩) :: τ₂') ++ τ₃) p) :
    ∀ l ∈ τ₁ ++ τ₂, l.announces = false := by
  rw [List.append_assoc, List.cons_append, List.append_assoc, List.cons_append,
    List.append_cons, ← List.append_assoc] at hrun
  have hbefore := unannounced_of_expires hrun
  intro l hl
  refine hbefore l ?_
  obtain hl | hl := List.mem_append.mp hl
  · exact List.mem_append_left _ (List.mem_append_left _ hl)
  · exact List.mem_append_right _ hl

/-- A time-out leaves the channel without a waker, and open as far as the receiver is
    concerned. -/
theorem restored_run {h : Receiver.Handle} {token : Thread → Bool} {τ₁ τ₂ τ₃ : List (Label T)}
    (hrun : Run Step (init h token) (τ₁ ++ .receiver (.act ⟨.swap EMPTY .Acquire, RECEIVING⟩) ::
      (τ₂ ++ .receiver (.act ⟨.drop_waker, ()⟩) :: τ₃)) p)
    (hquiet : ∀ l ∈ τ₂ ++ τ₃, l.received = none) :
    p.memory.channel.waker = none ∧
      (p.memory.channel.state = EMPTY ∨ ∃ l ∈ τ₂ ++ τ₃, l.announces = true) := by
  have hbefore := unannounced_of_expires hrun
  obtain ⟨p₁, _, hrest₁⟩ := hrun.split
  obtain ⟨p₂, hswap, hrest₂⟩ := hrest₁.cons_inv
  obtain ⟨p₃, hp₃, hrest₃⟩ := hrest₂.split
  obtain ⟨p₄, hdrop, hp₄⟩ := hrest₃.cons_inv
  obtain ⟨waker, hr₂⟩ := hswap.expires.2 rfl
  have hr₃ : p₃.r = .armed waker :=
    (role_of_quiet_run hp₃ fun l hl => hquiet l (List.mem_append_left _ hl)).trans hr₂
  have hr₄ : p₄.r = .idle := by
    cases hdrop.moves with
    | still hl => cases hl
    | receiver hmove _ _ =>
      rw [hr₃] at hmove
      generalize p₄.r = r at hmove
      cases hmove with
      | disarm => rfl
  have hr : p.r = .idle :=
    (role_of_quiet_run hp₄ fun l hl => hquiet l (List.mem_append_right _ hl)).trans hr₄
  have hagree : Receiver.Role.Agree p.r p.s p.memory.channel := p.agree
  rw [hr] at hagree
  obtain hs | hs := hagree
  · exact ⟨hs.holds.2, .inl hs.holds.1⟩
  · obtain ⟨o, ho, hx⟩ := hs.published
    refine ⟨by rw [hx], .inr ?_⟩
    obtain ⟨l, hl, hannounces⟩ :=
      (shown_run hrun).announced.mp (Sender.Role.announced_of_published ho)
    refine ⟨l, ?_, hannounces⟩
    simp only [List.mem_append, List.mem_cons] at hl ⊢
    obtain hl | rfl | hl | rfl | hl := hl
    · rw [hbefore l hl] at hannounces
      cases hannounces
    · cases hannounces
    · exact .inl hl
    · cases hannounces
    · exact .inr hl

/-- A call that has timed out was right to. -/
theorem Simulates.honest {σ₀ σ : System T} {h : Receiver.Handle} {token : Thread → Bool}
    {τ₁ τ₂ τ₃ : List (Label T)} {current : Thread} {deadline : Instant} {c : Receiver.Call}
    (hsim : Simulates σ₀ (init h token))
    (hrun : Run System.Step σ₀ (τ₁ ++ .receiver (.call (.recv_deadline current deadline)) :: τ₂ ++
      .receiver (.ret c (.recv_timeout (.error .Timeout))) :: τ₃) σ)
    (hτ₂ : ∀ l ∈ τ₂, l.returns = false) : Honest deadline τ₁ τ₂ := by
  obtain ⟨rfl, htrace⟩ := System.call_trace hrun hτ₂
  obtain ⟨pre, now, hacts, hnow, hpre⟩ := Receiver.timed_out_trace htrace
  rw [List.append_cons] at hacts
  obtain ⟨δ₁, _, δ, rfl, hδ₁, hswap, hδ⟩ := filterMap_split hacts
  have hδ' : δ.filterMap Label.received = [] ++ ⟨.drop_waker, ()⟩ :: [] := hδ
  obtain ⟨δ₂, _, δ₃, rfl, hδ₂, hdrop, hδ₃⟩ := filterMap_split hδ'
  obtain rfl := Label.received_eq hswap
  obtain rfl := Label.received_eq hdrop
  have hfirst {α : (interface T).Action} :
      α ∈ pre ++ [⟨.now, now⟩] ↔ ∃ l ∈ δ₁, l.received = some α := by
    rw [← hδ₁, List.mem_filterMap]
  refine ⟨δ₁, δ₂, δ₃, rfl, ⟨now, hnow, ?_⟩, ?_, ?_, ?_⟩
  · obtain ⟨l, hl, hreceived⟩ := hfirst.mp (List.mem_append_right _ (List.mem_singleton_self _))
    rw [← Label.received_eq hreceived]
    exact hl
  · obtain ⟨p, hp, _⟩ := hsim.run hrun
    exact unannounced_of_call hp
  · intro l hl α hα
    obtain hmem | hmem := List.mem_append.mp (hfirst.mpr ⟨l, hl, hα⟩)
    · exact hpre α hmem
    · rw [List.mem_singleton.mp hmem]
      exact ⟨rfl, rfl⟩
  · intro l hl
    obtain hl | hl := List.mem_append.mp hl
    · exact List.filterMap_eq_nil_iff.mp hδ₂ l hl
    · exact List.filterMap_eq_nil_iff.mp hδ₃ l hl

/-- A receiver in a call stays in it until it returns. -/
theorem Step.stays {c : Receiver.Call} (hstep : Step p l p')
    (hduring : ∃ r g, p.receiver = .during c r g) (hl : l.returns = false) :
    ∃ r g, p'.receiver = .during c r g := by
  obtain ⟨r, g, hduring⟩ := hduring
  cases hstep with
  | sender _ _ hreceiver | stray _ _ _ hreceiver => exact ⟨r, g, hreceiver.trans hduring⟩
  | receiver hsession =>
    rw [hduring] at hsession
    generalize p'.receiver = rs' at hsession
    cases hsession with
    | act => exact ⟨_, _, rfl⟩
    | enter => exact ⟨_, _, rfl⟩
    | ret => cases hl

theorem Step.during_of_call {c : Receiver.Call} (hstep : Step p (.receiver (.call c)) p') :
    ∃ r g, p'.receiver = .during c r g := by
  cases hstep with
  | receiver hsession =>
    generalize p.receiver = rs at hsession
    generalize p'.receiver = rs' at hsession
    cases hsession with
    | call => exact ⟨_, _, rfl⟩

/-- A call whose time is up after the sender has announced itself. -/
theorem late_run {h : Receiver.Handle} {token : Thread → Bool} {τ₁ τ₂ τ₂' τ₃ : List (Label T)}
    {current : Thread} {deadline : Instant} {b : UInt8} {c : Receiver.Call} {v : Receiver.Ret T}
    (hrun : Run Step (init h token) (τ₁ ++ .receiver (.call (.recv_deadline current deadline)) ::
      (τ₂ ++ .receiver (.act ⟨.swap EMPTY .Acquire, b⟩) :: τ₂') ++ .receiver (.ret c v) :: τ₃) p)
    (hτ : ∀ l ∈ τ₂ ++ τ₂', l.returns = false) (hannounces : ∃ l ∈ τ₁ ++ τ₂, l.announces = true)
    (hv : v ≠ .recv_timeout (.error .Timeout)) :
    ∃ o, p.s.published = some o ∧ ((∃ m, v = .recv_timeout (.ok m) ∧ o = some m) ∨
        (v = .recv_timeout (.error .Disconnected) ∧ o = none)) ∧
      ((∀ l ∈ τ₃, l.received = none) → p.memory.channel.state = DISCONNECTED) := by
  obtain ⟨p₅, hfirst, hrest⟩ := hrun.split
  obtain ⟨p₆, hret, hp⟩ := hrest.cons_inv
  have hledger := ledger_run hfirst
  obtain ⟨p₁, hp₁, hcalled⟩ := hfirst.split
  obtain ⟨p₂, hcall, hduring⟩ := hcalled.cons_inv
  obtain ⟨p₃, hp₃, hswaps⟩ := hduring.split
  obtain ⟨p₄, hswap, hp₅⟩ := hswaps.cons_inv
  have hrun₃ : Run Step (init h token)
      (τ₁ ++ .receiver (.call (.recv_deadline current deadline)) :: τ₂) p₃ := by
    rw [List.append_cons]
    exact (hp₁.snoc hcall).trans hp₃
  have hs₃ : p₃.s.announced = true := by
    obtain ⟨l, hl, hannounces⟩ := hannounces
    refine (shown_run hrun₃).announced.mpr ⟨l, ?_, hannounces⟩
    obtain hl | hl := List.mem_append.mp hl
    · exact List.mem_append_left _ hl
    · exact List.mem_append_right _ (List.mem_cons_of_mem _ hl)
  have hundecided : Receiver.Undecided p₃.receiver :=
    hrun₃.keeps (P := fun p => Receiver.Undecided p.receiver)
      (fun _ _ _ h hstep => by
        cases hstep with
        | sender _ _ hreceiver | stray _ _ _ hreceiver => rw [hreceiver]; exact h
        | receiver hsession => exact Receiver.undecided_step hsession h)
      (show Receiver.Undecided (init h token).receiver from trivial)
  obtain ⟨r, g, hduring₃⟩ :=
    (hp₃.attach fun l hl => hτ l (List.mem_append_left _ hl)).keeps
      (P := fun p => ∃ r g, p.receiver = .during (.recv_deadline current deadline) r g)
      (fun _ _ _ h hstep => hstep.1.stays h hstep.2) hcall.during_of_call
  obtain ⟨o, hlate₄⟩ := late_of_swap hswap hduring₃ rfl hundecided hs₃
  have hlate₅ : Late (.recv_deadline current deadline) o p₅ :=
    (hp₅.attach fun l hl => hτ l (List.mem_append_right _ hl)).keeps
      (fun _ _ _ h hstep => h.step hstep.1 rfl hstep.2) hlate₄
  obtain ⟨hvalue, hs₆, y, hr₆, hstate⟩ := hlate₅.returns hret hledger.receiver hv
  refine ⟨o, published_run hp hs₆, hvalue, fun hquiet => ?_⟩
  have hagree : Receiver.Role.Agree p.r p.s p.memory.channel := p.agree
  rw [role_of_quiet_run hp hquiet, hr₆] at hagree
  exact hagree.1.trans hstate

/-- A call whose time is up after the sender has announced itself does not time out. -/
theorem Simulates.not_timed_out {σ₀ σ : System T} {h : Receiver.Handle} {token : Thread → Bool}
    {τ₁ τ₂ τ₂' τ₃ : List (Label T)} {current : Thread} {deadline : Instant} {b : UInt8}
    {c : Receiver.Call} {v : Receiver.Ret T} (hsim : Simulates σ₀ (init h token))
    (hrun : Run System.Step σ₀ (τ₁ ++ .receiver (.call (.recv_deadline current deadline)) ::
      (τ₂ ++ .receiver (.act ⟨.swap EMPTY .Acquire, b⟩) :: τ₂') ++ .receiver (.ret c v) :: τ₃) σ)
    (hτ : ∀ l ∈ τ₂ ++ τ₂', l.returns = false) (hannounces : ∃ l ∈ τ₁ ++ τ₂, l.announces = true) :
    v ≠ .recv_timeout (.error .Timeout) := by
  rintro rfl
  have hreturns : ∀ l ∈ τ₂ ++ .receiver (.act ⟨.swap EMPTY .Acquire, b⟩) :: τ₂', l.returns = false := by
    intro l hl
    obtain hl | hl := List.mem_append.mp hl
    · exact hτ l (List.mem_append_left _ hl)
    · obtain rfl | hl := List.mem_cons.mp hl
      · rfl
      · exact hτ l (List.mem_append_right _ hl)
  obtain ⟨δ₁, δ₂, δ₃, heq, _, _, hwaits, hquiet⟩ := hsim.honest hrun hreturns
  have hb : b ≠ RECEIVING := by
    rintro rfl
    obtain ⟨p, hp, _⟩ := hsim.run hrun
    obtain ⟨l, hl, hannounces⟩ := hannounces
    rw [unannounced_of_call hp l hl] at hannounces
    cases hannounces
  have hmem : .receiver (.act ⟨.swap EMPTY .Acquire, b⟩) ∈
      τ₂ ++ .receiver (.act ⟨.swap EMPTY .Acquire, b⟩) :: τ₂' :=
    List.mem_append_right _ (List.mem_cons_self ..)
  rw [heq] at hmem
  simp only [List.mem_append, List.mem_cons] at hmem
  obtain hmem | hmem | hmem | hmem | hmem := hmem
  · cases (hwaits _ hmem _ rfl).1
  · simp [hb] at hmem
  · cases hquiet _ (List.mem_append_left _ hmem)
  · simp at hmem
  · cases hquiet _ (List.mem_append_right _ hmem)

/-- What has returned from a send shows where the sender is. -/
theorem send_ret_run {h : Receiver.Handle} {token : Thread → Bool} {τ₁ τ₂ : List (Label T)}
    {c : Sender.Call T} {result : Except SendError Unit}
    (hrun : Run Step (init h token) (τ₁ ++ .sender (.ret c (.send result)) :: τ₂) p) :
    (result = .ok () ∧ ∃ l ∈ τ₁, l.finishes = true) ∨
      (result = .error {} ∧ ∃ d : Receiver.Call, d.destroys = true ∧ .receiver (.call d) ∈ τ₁) := by
  obtain ⟨p₁, hp₁, hrest⟩ := hrun.split
  obtain ⟨p₂, hret, _⟩ := hrest.cons_inv
  have hshown := shown_run hp₁
  have hagree : Receiver.Role.Agree p₁.r p₁.s p₁.memory.channel := p₁.agree
  obtain ⟨hresult, m, hs⟩ | ⟨hresult, hlost⟩ := hret.send_ret
  · refine .inl ⟨hresult, hshown.published.mp ?_⟩
    rw [hs]
    rfl
  · exact .inr ⟨hresult, Receiver.called_of_left hshown.called (hagree.left_of_lost hlost)⟩

theorem Simulates.timeouts {σ₀ σ : System T} {h : Receiver.Handle} {token : Thread → Bool}
    (hsim : Simulates σ₀ (init h token)) (hrun : Run System.Step σ₀ τ σ)
    (hidle : σ₀.receiver.Paced Access.reads 10 10 true)
    (hreleased : (σ.returned = true → Released σ) ∧ Unhindered σ) : TimeoutsHonest τ σ := by
  obtain ⟨p, hp, hsim'⟩ := hsim.run hrun
  refine ⟨?_, ?_, ?_, ?_, ?_, ?_, hsim.prompt_of_finished hrun hidle, hreleased⟩
  · rintro τ₁ τ₂ τ₃ current deadline c rfl hτ₂
    exact hsim.honest hrun hτ₂
  · rintro τ₁ τ₂ τ₃ rfl hquiet
    rw [← hsim'.memory]
    exact restored_run hp hquiet
  · rintro τ₁ τ₂ τ₂' τ₃ current deadline b c v rfl hτ hannounces
    have hv := hsim.not_timed_out hrun hτ hannounces
    obtain ⟨o, ho, hvalue, hstate⟩ := late_run hp hτ hannounces hv
    have hsent := (ledger_run hp).sent_of_published ho
    refine ⟨?_, fun hquiet => hsim'.memory ▸ hstate hquiet⟩
    rw [hsent]
    obtain ⟨m, hm, rfl⟩ | ⟨hd, rfl⟩ := hvalue
    · exact .inl ⟨m, hm, rfl⟩
    · exact .inr ⟨hd, rfl⟩
  · rintro τ₁ τ₂ c result rfl hdestroys
    obtain ⟨hresult, _⟩ | ⟨_, d, hd, hmem⟩ := send_ret_run hp
    · exact hresult
    · exact (hdestroys d hd hmem).elim
  · intro c hmem
    obtain ⟨τ₁, τ₂, rfl⟩ := List.append_of_mem hmem
    obtain ⟨_, l, hl, hfinishes⟩ | ⟨hresult, _⟩ := send_ret_run hp
    · exact ⟨l, List.mem_append_left _ hl, hfinishes⟩
    · cases hresult
  · rintro τ₁ τ₂ τ₃ c c' v rfl hτ₂ hfinishes hfates hc
    exact hsim.found hrun hτ₂ hfinishes hfates hc

end Proto

/-- In every run of a channel: a timed wait times out only after its deadline and before
    the sender has announced itself, and it leaves the channel open and as it was. -/
theorem timeouts_honest {σ₀ σ : System T} {τ : List (Label T)} (hinitial : σ₀.Initial)
    (hrun : Run System.Step σ₀ τ σ) : TimeoutsHonest τ σ := by
  obtain ⟨token, rfl | rfl⟩ := hinitial
  · have hsim := Proto.simulates_channel (T := T) token
    exact hsim.timeouts hrun (fun _ _ h => by cases h)
      (hsim.wakeup hrun fun _ _ h => by cases h)
  · have hsim := Proto.simulates_async_channel (T := T) token
    exact hsim.timeouts hrun (fun _ _ h => by cases h)
      (hsim.wakeup hrun fun _ _ h => by cases h)

theorem timeouts_honest_timed_out :
    TimeoutsHonest ((System.channel Nat fun _ => false).labels System.timed_out)
      ((System.channel Nat fun _ => false).reached System.timed_out) :=
  timeouts_honest ⟨_, .inl rfl⟩ (System.run_of_play (by decide))

end oneshot
