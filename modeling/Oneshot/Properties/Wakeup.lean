import Oneshot.Protocol.Refinement

open conc

namespace oneshot

variable {T : Type}

/-- The accesses that wait: a thread parks, or spins. -/
def Access.waits : Access T → Bool
  | .park _ | .park_timeout _ _ | .spin_loop => true
  | _ => false

/-- The receiver begins a round of a waiting loop, parks or spins. -/
def Label.waits : Label T → Bool
  | .receiver .enter => true
  | .receiver (.act α) => α.access.waits
  | _ => false

/-- The sender's `send` or `drop` has returned. -/
def System.returned (σ : System T) : Bool :=
  match σ.sender with
  | .idle .sender => false
  | .idle _ => true
  | .busy .into_inner _ | .busy .drop_error _ => true
  | .busy _ _ => false

/-- The sender has returned, and what it leaves behind ends all waiting. -/
structure Released (σ : System T) : Prop where
  /-- A thread about to park finds its token set. -/
  token : ∀ a thread, σ.receiver.next = some a → a.parks = some thread →
    σ.memory.token thread = true
  /-- Whatever the receiver reads from now on is a final state. -/
  reads : ∀ τ σ', Run System.Step σ τ σ' → ∀ (order : MemOrder) (v : UInt8),
    .receiver (.act ⟨.load order, v⟩) ∈ τ → v = MESSAGE ∨ v = DISCONNECTED
  /-- And having read it, it leaves its loop, and waits no more. -/
  leaves : ∀ τ₁ τ₂ σ' (order : MemOrder) (v : UInt8),
    Run System.Step σ (τ₁ ++ .receiver (.act ⟨.load order, v⟩) :: τ₂) σ' →
    ∀ l ∈ τ₂, l.waits = false

/-- The sender is never kept from its next step, and has few of them: its code has
    no loops and makes no access that waits. -/
structure Unhindered (σ : System T) : Prop where
  step : ∀ c p, σ.sender = .busy c p → ∃ e σ', System.Step σ (.sender e) σ'
  ends : ∀ c p, σ.sender = .busy c p → p.Ends 5
  next : ∀ a, σ.sender.next = some a → a.waits = false

namespace Sender

/-- The sender has nothing to tell the receiver any more. -/
def Role.ended : Role T → Bool
  | .finished _ | .failed _ | .last _ | .freed _ => true
  | _ => false

def Ended : (Sender.contract T).Session → Prop
  | .between h s => Ready h s
  | .during c s _ => match c with
    | .into_inner | .drop_error => Role.ended s = true
    | _ => True

theorem Role.Move.ended {s s' : Role T} {α : (interface T).Action} (hmove : s.Move α s')
    (hs : s.ended = true) : s'.ended = true := by
  cases hmove <;> first | rfl | cases hs

theorem ended_step {ss ss' : (Sender.contract T).Session} {e : (sender T).Event}
    (hstep : Contract.Session.Step ss e ss') (hended : Ended ss) : Ended ss' := by
  cases hstep with
  | @call h c s haccepts hready =>
    cases c with
    | into_inner | drop_error =>
      cases h <;> cases haccepts
      cases s <;> first | rfl | exact hready.elim
    | _ => trivial
  | @act c s s' g g' α f hon hmove htrack =>
    cases c with
    | into_inner | drop_error => exact (Role.move_of_on hon hmove).ended hended
    | _ => trivial
  | enter hwaits => exact hwaits.elim
  | ret hpost => exact post_ready hpost

end Sender

/-! The sender's code is straight. -/

namespace Sender

theorem access_ends (a : Access T) : (access a).Ends 1 := fun _ => trivial

theorem unpark_ends (waker : ReceiverWaker) : (waker.unpark : Code T Unit).Ends 1 := by
  cases waker <;> exact fun _ => trivial

theorem send_ends (message : T) : (Sender.send message).Ends 5 := by
  refine (access_ends (.write_message message)).bind (m := 4) fun _ => ?_
  refine (access_ends (.fetch_add 1 .AcqRel)).bind (m := 3) fun v => ?_
  cases State.of v with
  | RECEIVING =>
    refine (access_ends .take_waker).bind (m := 2) fun waker => ?_
    refine (access_ends (.swap MESSAGE .AcqRel)).bind (m := 1) fun _ => ?_
    exact (unpark_ends waker).bind (m := 0) fun _ => trivial
  | _ => trivial

theorem drop_ends : (Sender.drop : Code T Unit).Ends 4 := by
  refine (access_ends (.fetch_xor 0b001 .AcqRel)).bind (m := 3) fun v => ?_
  cases State.of v with
  | RECEIVING =>
    refine (access_ends .take_waker).bind (m := 2) fun waker => ?_
    refine (access_ends (.swap DISCONNECTED .AcqRel)).bind (m := 1) fun _ => ?_
    exact unpark_ends waker
  | DISCONNECTED => exact (access_ends .dealloc).mono (by omega)
  | _ => trivial

theorem into_inner_ends : (SendError.into_inner : Code T T).Ends 2 := by
  refine (access_ends .take_message).bind (m := 1) fun _ => ?_
  exact (access_ends .dealloc).map fun _ => _

theorem drop_error_ends : (SendError.drop : Code T Unit).Ends 2 :=
  (access_ends .drop_message).bind (m := 1) fun _ => access_ends .dealloc

theorem is_closed_ends : (Sender.is_closed : Code T Bool).Ends 1 :=
  (access_ends (.load .Relaxed)).map (· == DISCONNECTED)

/-- The code of every call ends after at most five accesses. -/
theorem code_ends (c : Call T) : ((sender T).code c).Ends 5 := by
  cases c with
  | send message => exact (send_ends message).map Ret.send
  | is_closed => exact (is_closed_ends.map Ret.is_closed).mono (m := 5) (by omega)
  | drop => exact (drop_ends.map fun _ => Ret.drop).mono (m := 5) (by omega)
  | into_inner => exact (into_inner_ends.map Ret.into_inner).mono (m := 5) (by omega)
  | drop_error => exact (drop_error_ends.map fun _ => Ret.drop_error).mono (m := 5) (by omega)

/-- No access that a sender's role has waits. -/
theorem Role.on_waits {s : Role T} {a : Access T} {f : a.Resp → Role T → Prop}
    (hon : s.on a = some f) : a.waits = false := by
  cases a with
  | park | park_timeout | spin_loop => cases s <;> cases hon
  | _ => rfl

end Sender

/-- However far a call of the sender is, few of its accesses are left. -/
theorem ends_step {σ σ' : System T} {l : Label T} (hstep : System.Step σ l σ')
    (hends : ∀ c p, σ.sender = .busy c p → p.Ends 5) : ∀ c p, σ'.sender = .busy c p → p.Ends 5 := by
  cases hstep with
  | receiver hstep => exact hends
  | stray thread => exact hends
  | @sender e s' μ' hstep =>
    obtain ⟨memory, sender, receiver⟩ := σ
    intro c p hbusy
    replace hbusy : s' = .busy c p := hbusy
    cases hstep with
    | call haccepts =>
      cases hbusy
      exact Sender.code_ends c
    | act hexec =>
      cases hbusy
      exact Program.Ends.mono (n := 4) (hends _ _ rfl _) (by omega)
    | enter => exact (hends _ _ rfl).elim
    | ret => cases hbusy

namespace Proto

/-- The sender's next step can be made. -/
theorem Simulates.sender_step {σ : System T} {p : Proto T} (hsim : Simulates σ p)
    {c : Sender.Call T} {q : Code T (Sender.Ret T)} (hbusy : σ.sender = .busy c q) :
    ∃ e σ', System.Step σ (.sender e) σ' := by
  obtain ⟨memory, sender, receiver⟩ := σ
  obtain ⟨μ, ss, rs, hagree⟩ := p
  obtain ⟨rfl, hs, _⟩ := hsim
  obtain rfl : sender = .busy c q := hbusy
  cases hs with
  | busy hfollows =>
    cases q with
    | ret v => exact ⟨_, _, .sender .ret⟩
    | access a k =>
      obtain ⟨f, hon, _⟩ := hfollows
      obtain ⟨v, μ', hacts⟩ := Memory.exists_acts (Sender.provides hagree hon)
      exact ⟨_, _, .sender (.act hacts)⟩
    | iterate body k => exact hfollows.round.1.elim
    | unreachable => exact hfollows.elim

theorem Simulates.unhindered {σ : System T} {p : Proto T} (hsim : Simulates σ p)
    (hends : ∀ c q, σ.sender = .busy c q → q.Ends 5) : Unhindered σ where
  step _ _ hbusy := hsim.sender_step hbusy
  ends := hends
  next _ hnext := by
    obtain ⟨f, hon⟩ := hsim.sender.on_next hnext
    exact Sender.Role.on_waits (s := p.s) hon

/-- A thread that waits for a sender that is done has been unparked. -/
def Rung (p : Proto T) : Prop :=
  ∀ message thread, p.s = .finished message →
    p.r = .waiting (.Thread thread) ∨ p.r = .expired (.Thread thread) →
    p.memory.token thread = true

/-- The sender is done with a waiting thread only once it has unparked it. -/
theorem rung_sender {s s' : Sender.Role T} {r : Receiver.Role T} {x : Channel T}
    {α : (interface T).Action} {message : Option T} {thread : Thread} (hmove : s.Move α s')
    (hagree : r.Agree s x) (hanswers : x.Answers α.access α.resp) (hs' : s' = .finished message)
    (hr : r = .waiting (.Thread thread) ∨ r = .expired (.Thread thread)) :
    α.access = .unpark thread := by
  cases hmove with
  | unpark message current =>
    obtain rfl | rfl := hr
    · obtain h | h | ⟨h, _⟩ := hagree
      · exact h.elim
      · exact h.elim
      · cases h
        rfl
    · obtain h | ⟨h, _⟩ := hagree
      · exact h.elim
      · cases h
        rfl
  | wake message task =>
    obtain rfl | rfl := hr
    · obtain h | h | ⟨h, _⟩ := hagree
      · exact h.elim
      · exact h.elim
      · cases h
    · obtain h | ⟨h, _⟩ := hagree
      · exact h.elim
      · cases h
  | send | drop =>
    -- A receiver that waits has not left the state `EMPTY`.
    have hstate : x.state = EMPTY := Eq.symm hanswers
    obtain rfl | rfl := hr
    · obtain h | h | h := hagree
      · simp [h.holds.1] at hstate
      · exact h.elim
      · exact h.elim
    · obtain h | h := hagree
      · exact h.elim
      · exact h.elim
  | _ => cases hs'

/-- A receiver does not begin to wait for a sender that is done: a thread that already
    does may look at the clock. -/
theorem waits_still {s : Sender.Role T} {r r' : Receiver.Role T} {x : Channel T}
    {α : (interface T).Action} {o : Option T} {waker : ReceiverWaker} (hmove : r.Move α r')
    (hagree : r.Agree s x) (hanswers : x.Answers α.access α.resp) (hs : s.published = some o)
    (hr' : r' = .waiting waker ∨ r' = .expired waker) :
    r = r' ∧ α.access = .now ∧ ∃ thread, waker = .Thread thread := by
  have hne (hr : r.apart = true) {v : UInt8} (hstate : x.state = v) :
      v = MESSAGE ∨ v = DISCONNECTED := by
    rw [← hstate, hagree.final hr hs]
    cases o with
    | none => exact .inr rfl
    | some message => exact .inl rfl
  cases hmove with
  | clock_waiting current now =>
    obtain h | h := hr'
    · cases h
      exact ⟨rfl, rfl, current, rfl⟩
    · cases h
  | publish | expired_again | expire_unparking | poll_receiving =>
    simpa using hne rfl (Eq.symm hanswers)
  | exchange => simpa using hne rfl (Channel.answers_ok hanswers)
  | woken_again waker order hv =>
    obtain rfl | rfl := hv <;> simpa using hne rfl (Eq.symm hanswers)
  | _ => obtain h | h := hr' <;> cases h

theorem Rung.step {p p' : Proto T} {l : Label T} (hrung : p.Rung) (hstep : Step p l p') :
    p'.Rung := by
  intro message thread hs' hr'
  have hagree : Receiver.Role.Agree p.r p.s p.memory.channel := p.agree
  cases hstep.moves with
  | still _ hs hr _ _ htoken => exact htoken _ (hrung message thread (hs ▸ hs') (hr ▸ hr'))
  | @sender α _ hmove hr hacts =>
    obtain ⟨env, hexec⟩ := hacts
    rw [hr] at hr'
    have hunpark := rung_sender hmove hagree (Memory.exec_channel hexec).1 hs' hr'
    exact Memory.exec_token hexec (.inr hunpark) (by rw [hunpark]; simp [Access.parks])
  | @receiver α _ hmove hs hacts =>
    obtain ⟨env, hexec⟩ := hacts
    rw [hs] at hs'
    have hpublished : p.s.published = some message := by rw [hs']; rfl
    obtain ⟨hr, hnow, _⟩ := waits_still hmove hagree (Memory.exec_channel hexec).1 hpublished hr'
    have htoken : p.memory.token thread = true := hrung message thread hs' (hr ▸ hr')
    exact Memory.exec_token hexec (.inl htoken) (by rw [hnow]; simp [Access.parks])

/-- The sides of a run, as far as the end of all waiting is concerned. -/
theorem rung_run {h : Receiver.Handle} {token : Thread → Bool} {τ : List (Label T)} {p : Proto T}
    (hrun : Run Step (init h token) τ p) : p.Rung ∧ Sender.Ended p.sender := by
  have hinit : (init h token : Proto T).Rung := fun _ _ hs => by cases hs
  have hready : Sender.Ended (init h token : Proto T).sender := trivial
  refine hrun.invariant (P := fun _ p => p.Rung ∧ Sender.Ended p.sender) ⟨hinit, hready⟩ ?_
  rintro τ p l p' _ ⟨hrung, hended⟩ hstep
  refine ⟨hrung.step hstep, ?_⟩
  cases hstep with
  | sender hsession => exact Sender.ended_step hsession hended
  | receiver _ _ hs | stray _ _ hs =>
    rw [hs]
    exact hended

theorem Step.sender_ended {p p' : Proto T} {l : Label T} (hstep : Step p l p')
    (hs : p.s.ended = true) : p'.s.ended = true := by
  cases hstep.moves with
  | still _ hs' => rw [hs']; exact hs
  | sender hmove => exact hmove.ended hs
  | receiver _ hs' => rw [hs']; exact hs

end Proto

namespace Receiver

/-- The receiver waits for nothing any more. -/
def Role.ended : Role T → Bool
  | .own _ | .quitting _ | .abandoned _ | .left | .released _ _ => true
  | _ => false

theorem Role.Move.ended {r r' : Role T} {α : (interface T).Action} (hmove : r.Move α r')
    (hr : r.ended = true) : r'.ended = true ∧ α.access.waits = false := by
  cases hmove <;> first | exact ⟨rfl, rfl⟩ | cases hr

/-- A sender that is done has told a receiver that is still there. -/
theorem Role.Agree.finished_of_ended {r : Role T} {s : Sender.Role T} {x : Channel T}
    (hagree : r.Agree s x) (hr : r.apart = true) (hs : s.ended = true) :
    ∃ o, s = .finished o := by
  cases s with
  | finished message => exact ⟨message, rfl⟩
  | failed | last | freed =>
    cases r <;>
      simp_all [Role.apart, Agree, Sender.Role.Before, Sender.Role.Window, Sender.Role.Notified,
        Sender.Role.Finished]
  | _ => cases hs

/-- Once the sender is done, the next look at the state ends all waiting. -/
theorem Role.Move.load_ended {r r' : Role T} {s : Sender.Role T} {x : Channel T} {order : MemOrder}
    {v : UInt8} (hmove : r.Move ⟨.load order, v⟩ r') (hagree : r.Agree s x) (hstate : v = x.state)
    (hs : s.ended = true) : (v = MESSAGE ∨ v = DISCONNECTED) ∧ r'.ended = true := by
  have hfinal (hr : r.apart = true) : v = MESSAGE ∨ v = DISCONNECTED := by
    obtain ⟨o, rfl⟩ := hagree.finished_of_ended hr hs
    rw [hstate, hagree.final hr rfl]
    cases o with
    | none => exact .inr rfl
    | some message => exact .inl rfl
  cases hmove with
  | look_empty | expired_again | poll_receiving | poll_unparking | caught_again => simpa using hfinal rfl
  | woken_again waker order hv => obtain rfl | rfl := hv <;> simpa using hfinal rfl
  | quit => exact ⟨.inr rfl, rfl⟩
  | receive_late => exact ⟨.inl rfl, rfl⟩
  | own_load y order hy => exact ⟨hy.imp id (·.1), rfl⟩
  | look order hv | woken waker order hv | poll_late cx order hv | caught waker order hv
  | expired waker order hv => exact ⟨hfinal rfl, rfl⟩

end Receiver

namespace Proto

/-- A sender that has returned is done. -/
theorem Simulates.ended {σ : System T} {p : Proto T} (hsim : Simulates σ p)
    (hended : Sender.Ended p.sender) (hreturned : σ.returned = true) : p.s.ended = true := by
  obtain ⟨memory, sender, receiver⟩ := σ
  obtain ⟨μ, ss, rs, hagree⟩ := p
  obtain ⟨rfl, hs, _⟩ := hsim
  cases hs with
  | @idle h s hready =>
    cases h with
    | sender => cases hreturned
    | send_error | gone => cases s <;> first | rfl | exact hready.elim
  | @busy c q s g hfollows =>
    cases c with
    | into_inner | drop_error => exact hended
    | _ => cases hreturned

/-- A thread that is about to park waits for the sender. -/
theorem Simulates.waiting {σ : System T} {p : Proto T} (hsim : Simulates σ p) {a : Access T}
    {thread : Thread} (hnext : σ.receiver.next = some a) (hparks : a.parks = some thread) :
    p.r = .waiting (.Thread thread) ∨ p.r = .expired (.Thread thread) := by
  obtain ⟨f, hon⟩ := hsim.receiver.on_next hnext
  replace hon : p.r.on a = some f := hon
  cases a with
  | park current | park_timeout current timeout =>
    cases hparks
    cases hr : p.r with
    | waiting waker =>
      rw [hr] at hon
      cases waker with
      | Thread current =>
        obtain ⟨rfl, _⟩ := Option.ite_none_right_eq_some.mp hon
        exact .inl rfl
      | Task cx => cases hon
    | expired waker =>
      rw [hr] at hon
      first
        | obtain ⟨rfl, _⟩ := Option.ite_none_right_eq_some.mp hon
          exact .inr rfl
        | cases hon
    | _ => rw [hr] at hon; cases hon
  | _ => cases hparks

/-- A receiver that waits for nothing any more goes on so. -/
theorem Step.receiver_ended {p p' : Proto T} {l : Label T} (hstep : Step p l p')
    (hr : p.r.ended = true) : p'.r.ended = true ∧ l.waits = false := by
  cases hstep with
  | sender _ _ hreceiver =>
    refine ⟨?_, rfl⟩
    rw [Proto.r, hreceiver]
    exact hr
  | stray _ _ _ hreceiver =>
    refine ⟨?_, rfl⟩
    rw [Proto.r, hreceiver]
    exact hr
  | receiver hsession =>
    obtain ⟨μ, ss, rs, hagree⟩ := p
    obtain ⟨μ', ss', rs', hagree'⟩ := p'
    cases hsession with
    | act hon hmove htrack => exact (Receiver.Role.move_of_on hon hmove).ended hr
    | @enter c r g hwaits =>
      replace hr : r.ended = true := hr
      cases r <;> first | exact hwaits.elim | cases hr
    | call haccepts hready => exact ⟨hr, rfl⟩
    | ret hpost => exact ⟨hr, rfl⟩

/-- What the receiver reads of a sender that is done. -/
theorem Step.load_ended {p p' : Proto T} {order : MemOrder} {v : UInt8}
    (hstep : Step p (.receiver (.act ⟨.load order, v⟩)) p') (hs : p.s.ended = true) :
    (v = MESSAGE ∨ v = DISCONNECTED) ∧ p'.r.ended = true := by
  have hagree : Receiver.Role.Agree p.r p.s p.memory.channel := p.agree
  cases hstep.moves with
  | still hl => cases hl
  | receiver hmove _ hacts =>
    obtain ⟨env, hexec⟩ := hacts
    exact hmove.load_ended hagree (Memory.exec_channel hexec).1 hs

theorem Simulates.released {σ : System T} {p : Proto T} (hsim : Simulates σ p) (hrung : p.Rung)
    (hs : p.s.ended = true) : Released σ := by
  refine ⟨?_, ?_, ?_⟩
  · intro a thread hnext hparks
    have hwaiting := hsim.waiting hnext hparks
    have hapart : p.r.apart = true := by obtain h | h := hwaiting <;> rw [h] <;> rfl
    have hagree : Receiver.Role.Agree p.r p.s p.memory.channel := p.agree
    obtain ⟨message, hmessage⟩ := hagree.finished_of_ended hapart hs
    rw [← hsim.memory]
    exact hrung message thread hmessage hwaiting
  · intro τ σ' hrun order v hmem
    obtain ⟨p', hp, _⟩ := hsim.run hrun
    have hreads := hp.always (P := fun p => p.s.ended = true)
      (Q := fun l => ∀ (order : MemOrder) (v : UInt8), l = .receiver (.act ⟨.load order, v⟩) →
        v = MESSAGE ∨ v = DISCONNECTED) ?_ hs
    · exact hreads.2 _ hmem order v rfl
    · intro p l p' hs hstep
      refine ⟨hstep.sender_ended hs, ?_⟩
      rintro order v rfl
      exact (hstep.load_ended hs).1
  · intro τ₁ τ₂ σ' order v hrun
    obtain ⟨p', hp, _⟩ := hsim.run hrun
    obtain ⟨p₁, hp₁, hrest⟩ := hp.split
    obtain ⟨p₂, hload, hp₂⟩ := hrest.cons_inv
    have hs₁ : p₁.s.ended = true :=
      hp₁.keeps (P := fun p => p.s.ended = true) (fun _ _ _ hs hstep => hstep.sender_ended hs) hs
    have hr₂ : p₂.r.ended = true := (hload.load_ended hs₁).2
    exact (hp₂.always (P := fun p => p.r.ended = true) (Q := fun l => l.waits = false)
      (fun _ _ _ hr hstep => hstep.receiver_ended hr) hr₂).2

theorem Simulates.wakeup {σ₀ σ : System T} {h : Receiver.Handle} {token : Thread → Bool}
    {τ : List (Label T)} (hsim : Simulates σ₀ (init h token)) (hrun : Run System.Step σ₀ τ σ)
    (hends : ∀ c q, σ₀.sender = .busy c q → q.Ends 5) :
    (σ.returned = true → Released σ) ∧ Unhindered σ := by
  obtain ⟨p, hp, hsim'⟩ := hsim.run hrun
  obtain ⟨hrung, hended⟩ := rung_run hp
  have hends' : ∀ c q, σ.sender = .busy c q → q.Ends 5 :=
    hrun.keeps (P := fun σ => ∀ c q, σ.sender = .busy c q → q.Ends 5)
      (fun _ _ _ h hstep => ends_step hstep h) hends
  exact ⟨fun hreturned => hsim'.released hrung (hsim'.ended hended hreturned),
    hsim'.unhindered hends'⟩

end Proto

/-- In every run of either kind of channel: a sender that has returned leaves no
    receiver waiting, and the sender itself never waits. -/
theorem no_lost_wakeup {σ₀ σ : System T} {τ : List (Label T)} (hinitial : σ₀.Initial)
    (hrun : Run System.Step σ₀ τ σ) : (σ.returned = true → Released σ) ∧ Unhindered σ := by
  obtain ⟨token, rfl | rfl⟩ := hinitial
  · exact (Proto.simulates_channel token).wakeup hrun fun _ _ h => by cases h
  · exact (Proto.simulates_async_channel token).wakeup hrun fun _ _ h => by cases h

/-- A thread that is about to park in `recv` while the sender sends its message. -/
def System.parked : List (Choice Nat) := receives (.recv ⟨1⟩) 4 0 ++ sends (.send 5) 6

/-- The send has returned with the thread about to park, and it was not hindered when it
    was about to take the waker. -/
theorem no_lost_wakeup_parked :
    ((System.channel Nat fun _ => false).reached System.parked).receiver.next = some (.park ⟨1⟩) ∧
      Released ((System.channel Nat fun _ => false).reached System.parked) ∧
      ((System.channel Nat fun _ => false).reached (System.parked.take 8)).sender.next =
        some .take_waker ∧
      Unhindered ((System.channel Nat fun _ => false).reached (System.parked.take 8)) := by
  have hlast := no_lost_wakeup ⟨_, .inl rfl⟩
    (@System.run_of_play Nat (System.channel Nat fun _ => false) System.parked (by decide))
  have hwindow := no_lost_wakeup ⟨_, .inl rfl⟩
    (@System.run_of_play Nat (System.channel Nat fun _ => false) (System.parked.take 8) (by decide))
  exact ⟨rfl, hlast.1 rfl, rfl, hwindow.2⟩

end oneshot
