import Oneshot.Conc.Pace
import Oneshot.Properties.Unreachable
import Oneshot.Properties.WakerCell
import Oneshot.Properties.Message
import Oneshot.Properties.Wakeup

open conc

namespace oneshot

variable {T : Type}

/-- A call of the receiving side returns. -/
def Label.returns : Label T → Bool
  | .receiver (.ret _ _) => true
  | _ => false

/-- The call that the receiver is in returns soon, whatever the sender does: the
    receiver is never kept from its next step, and has at most 23 of them before it
    returns. -/
structure Prompt (σ : System T) : Prop where
  step : ∀ τ σ', Run System.Step σ τ σ' → ∀ c p, σ'.receiver = .busy c p →
    ∃ e σ'', System.Step σ' (.receiver e) σ''
  soon : ∀ τ σ', Run System.Step σ τ σ' → (∀ l ∈ τ, l.returns = false) →
    τ.countP Label.ofReceiver ≤ 23

namespace Receiver

/-! The code of the receiving side looks at the state in every round of its loops, and
makes few accesses in between. -/

section

/-- At most ten accesses up to the first loop or the return. -/
abbrev Brisk {α : Type} (p : Code T α) (n : Nat) (looked : Bool) (Q : α → Nat → Bool → Prop) :
    Prop :=
  p.Paced Access.reads 10 n looked Q

attribute [local simp] access Program.perform state.load state.store state.swap
  state.compare_exchange fence Channel.take_message Channel.drop_message Channel.write_waker
  Channel.drop_waker dealloc thread.park thread.park_timeout Instant.now hint.spin_loop Waker.clone
  Waker.wake_by_ref ReceiverWaker.task_waker Access.reads

theorem try_recv_brisk : Brisk (Receiver.try_recv : Code T _) 10 true fun _ _ _ => True := by
  simp [Receiver.try_recv]
  intro v
  cases State.of v <;> simp

theorem recv_loop_brisk {current : Thread} {n : Nat} :
    Brisk (Receiver.recv_loop current : Code T _) n true fun _ _ _ => True := by
  refine Program.paced_loop ?_
  simp
  intro _ v
  cases State.of v <;> simp

theorem recv_brisk {current : Thread} :
    Brisk (Receiver.recv current : Code T _) 10 true fun _ _ _ => True := by
  simp [Receiver.recv]
  intro v
  cases State.of v <;> simp
  intro v'
  cases State.of v' <;> simp
  exact recv_loop_brisk

theorem start_recv_ref_brisk {E : Type} {current : Thread} {error : E}
    {finish : Code T (Except E T)} {n : Nat} (hn : 8 ≤ n)
    (hfinish : ∀ n, Brisk finish n true fun _ _ _ => True) :
    Brisk (Receiver.start_recv_ref current error finish) n true fun _ _ _ => True := by
  obtain ⟨m, rfl⟩ := Nat.exists_eq_add_of_le' hn
  simp [Receiver.start_recv_ref]
  intro v
  cases State.of v <;> simp
  intro v'
  cases State.of v' <;> simp
  exact hfinish _

theorem recv_ref_brisk {current : Thread} {n : Nat} (hn : 8 ≤ n) :
    Brisk (Receiver.recv_ref current : Code T _) n true fun _ _ _ => True := by
  refine start_recv_ref_brisk hn fun n => Program.paced_loop ?_
  simp
  intro _ v
  cases State.of v <;> simp

theorem wait_for_unpark_brisk {current : Thread} {n : Nat} :
    Brisk (Receiver.wait_for_unpark current : Code T _) n true fun _ _ _ => True := by
  refine Program.paced_loop ?_
  simp
  intro _ v
  cases State.of v <;> simp

theorem recv_deadline_brisk {current : Thread} {deadline : Instant} {n : Nat} (hn : 8 ≤ n) :
    Brisk (Receiver.recv_deadline current deadline : Code T _) n true fun _ _ _ => True := by
  refine start_recv_ref_brisk hn fun n => Program.paced_loop ?_
  simp
  intro now
  cases deadline.checked_duration_since now with
  | some timeout =>
    simp
    intro _ v
    cases State.of v <;> simp
  | none =>
    simp
    intro v
    cases State.of v <;> simp
    exact wait_for_unpark_brisk

theorem recv_timeout_brisk {current : Thread} {timeout : Duration} :
    Brisk (Receiver.recv_timeout current timeout : Code T _) 10 true fun _ _ _ => True := by
  simp [Receiver.recv_timeout]
  intro now
  cases now.checked_add timeout with
  | some deadline => exact recv_deadline_brisk (by decide)
  | none =>
    simp
    exact recv_ref_brisk (by decide)

theorem drop_brisk : Brisk (Receiver.drop : Code T _) 10 true fun _ _ _ => True := by
  simp [Receiver.drop]
  intro v
  cases State.of v <;> simp

theorem write_async_waker_brisk {cx : Waker} {n : Nat} (hn : 7 ≤ n) :
    Brisk (Channel.write_async_waker cx : Code T _) n true fun _ _ _ => True := by
  obtain ⟨m, rfl⟩ := Nat.exists_eq_add_of_le' hn
  refine Program.paced_access.mpr ⟨Nat.succ_pos _, fun clone => ?_⟩
  refine Program.paced_access.mpr ⟨Nat.succ_pos _, fun _ => ?_⟩
  refine Program.paced_access.mpr ⟨Nat.succ_pos _, fun v => ?_⟩
  rw [Program.ret_bind]
  generalize v.mapError State.of = result
  obtain s | v := result
  · cases s <;> simp
  · trivial

theorem poll_brisk {cx : Waker} :
    Brisk (AsyncReceiver.poll cx : Code T _) 10 true fun _ _ _ => True := by
  have hspin {n : Nat} : Brisk (AsyncReceiver.poll_loop : Code T _) n true fun _ _ _ => True := by
    refine Program.paced_loop ?_
    simp
    intro v
    cases State.of v <;> simp
  refine Program.paced_access.mpr ⟨Nat.succ_pos _, fun v => ?_⟩
  rw [Program.ret_bind]
  generalize State.of v = s
  cases s with
  | RECEIVING =>
    refine Program.paced_access.mpr ⟨Nat.succ_pos _, fun v => ?_⟩
    rw [Program.ret_bind]
    generalize v.mapError State.of = result
    obtain s | v := result
    · cases s <;> simp
    · refine Program.paced_access.mpr ⟨Nat.succ_pos _, fun _ => ?_⟩
      exact write_async_waker_brisk (by decide)
  | EMPTY => exact write_async_waker_brisk (by decide)
  | UNPARKING => exact hspin
  | _ => simp

theorem async_drop_brisk : Brisk (AsyncReceiver.drop : Code T _) 10 true fun _ _ _ => True := by
  have hspin {n : Nat} :
      Brisk (AsyncReceiver.drop_loop : Code T _) n true fun _ m _ => 2 ≤ m := by
    refine Program.paced_loop ?_
    simp
    intro v
    cases State.of v <;> simp
  have hstop : Brisk (AsyncReceiver.stop_receiving : Code T _) 10 true fun _ m looked =>
      7 ≤ m ∧ looked = true := by
    simp [AsyncReceiver.stop_receiving]
    intro v
    split
    · simp
      intro v'
      cases v' <;> simp
    · simp
  simp only [AsyncReceiver.drop, Program.bind_eq, Brisk, Program.paced_bind]
  refine hstop.mono ?_
  rintro _ m _ ⟨hm, rfl⟩
  obtain ⟨m, rfl⟩ := Nat.exists_eq_add_of_le' hm
  simp
  intro v
  cases State.of v <;> simp
  refine hspin.mono ?_
  intro _ m' _ hm'
  omega

theorem code_brisk (c : Call) : Brisk ((receiver T).code c) 10 true fun _ _ _ => True := by
  cases c with
  | try_recv => exact Program.paced_bind.mpr (try_recv_brisk.mono fun _ _ _ _ => trivial)
  | recv current => exact Program.paced_bind.mpr (recv_brisk.mono fun _ _ _ _ => trivial)
  | recv_ref current =>
    exact Program.paced_bind.mpr ((recv_ref_brisk (by decide)).mono fun _ _ _ _ => trivial)
  | recv_timeout current timeout =>
    exact Program.paced_bind.mpr (recv_timeout_brisk.mono fun _ _ _ _ => trivial)
  | recv_deadline current deadline =>
    exact Program.paced_bind.mpr ((recv_deadline_brisk (by decide)).mono fun _ _ _ _ => trivial)
  | is_closed | async_is_closed => simp [receiver, Receiver.is_closed, AsyncReceiver.is_closed]
  | has_message | async_has_message => simp [receiver, Receiver.has_message, AsyncReceiver.has_message]
  | drop => exact Program.paced_bind.mpr (drop_brisk.mono fun _ _ _ _ => trivial)
  | into_future => simp [receiver]
  | poll cx => exact Program.paced_bind.mpr (poll_brisk.mono fun _ _ _ _ => trivial)
  | async_drop => exact Program.paced_bind.mpr (async_drop_brisk.mono fun _ _ _ _ => trivial)

end

/-- The receiver empties only cells that hold a value. -/
theorem provides {s : Sender.Role T} {r : Role T} {x : Channel T} {a : Access T}
    {f : a.Resp → Role T → Prop} (hagree : r.Agree s x) (hon : r.on a = some f) : x.Provides a := by
  have hallows := Role.on_waker hagree hon
  cases a with
  | take_message | drop_message =>
    obtain ⟨y, rfl, hfull⟩ := Role.on_consumes hon rfl
    obtain ⟨_, _, sent, _, hmatches⟩ := hagree
    obtain ⟨message, _, hcell⟩ := hmatches.full hfull
    rw [Channel.Provides, hcell]
    rfl
  | take_waker | drop_waker => exact hallows
  | _ => trivial

/-- A receiver that reads the state once the sender has written its final state waits
    for nothing any more. -/
theorem Role.Move.ended_of_reads {r r' : Role T} {s : Sender.Role T} {x : Channel T}
    {α : (interface T).Action} {o : Option T} (hmove : r.Move α r') (hagree : r.Agree s x)
    (hanswers : x.Answers α.access α.resp) (hs : s.published = some o)
    (hα : α.access.reads = true) : r'.ended = true := by
  have hfinal (hr : r.apart = true) : x.state = MESSAGE ∨ x.state = DISCONNECTED := by
    rw [hagree.final hr hs]
    cases o with
    | none => exact .inr rfl
    | some message => exact .inl rfl
  cases hmove with
  | look_empty | publish | expire | expire_unparking | poll_receiving | poll_unparking
  | caught_again | expired_again =>
    have hstate : x.state = _ := Eq.symm hanswers
    simpa [hstate] using hfinal rfl
  | woken_again waker order hv =>
    have hstate : x.state = _ := Eq.symm hanswers
    obtain rfl | rfl := hv <;> simpa [hstate] using hfinal rfl
  | exchange | retract =>
    have hstate := Channel.answers_ok hanswers
    simpa [hstate] using hfinal rfl
  | retract_unparking =>
    have hstate := Channel.answers_error hanswers
    simpa [hstate] using hfinal rfl
  | depart =>
    have hstate : x.state = _ := Eq.symm hanswers
    simpa [hstate] using hfinal rfl
  | _ => first | rfl | cases hα

theorem Role.not_ended_of_waits {r : Role T} (hr : r.waits) : r.ended = false := by
  cases r <;> first | rfl | exact hr.elim

/-- How many steps are left of a call that has `n` accesses to make before it returns or
    begins a round, once the sender has written its final state. It may begin one more
    round if it has looked at the state, but not after it has seen that one. -/
def budget (n : Nat) (looked ended : Bool) : Nat := n + 1 + if looked && !ended then 11 else 0

theorem budget_ended (n : Nat) (looked : Bool) : budget n looked true = n + 1 := by
  simp [budget]

theorem le_budget (n : Nat) (looked ended : Bool) : n + 1 ≤ budget n looked ended :=
  Nat.le_add_right _ _

/-- The receiver has at most `k` steps to make before it returns from a call. -/
inductive Left : (receiver T).State → Role T → Nat → Prop where
  | idle (h : Handle) (r : Role T) : Left (.idle h) r 23
  | busy {c : Call} {q : Code T (Ret T)} {n : Nat} {looked : Bool} (r : Role T) (hn : n ≤ 10)
      (hq : Brisk q n looked fun _ _ _ => True) : Left (.busy c q) r (budget n looked r.ended)

theorem Left.le {st : (receiver T).State} {r : Role T} {k : Nat} (hleft : Left st r k) :
    k ≤ 23 := by
  cases hleft with
  | idle => exact Nat.le_refl 23
  | busy r hn =>
    unfold budget
    split <;> omega

/-- A receiver whose code is brisk has few steps left. -/
theorem left_of_paced {st : (receiver T).State} {n : Nat} {looked : Bool} (r : Role T)
    (hn : n ≤ 10) (hst : st.Paced Access.reads 10 n looked) : ∃ k, Left st r k := by
  cases st with
  | idle h => exact ⟨23, .idle h r⟩
  | busy c q => exact ⟨_, .busy r hn (hst c q rfl)⟩

end Receiver

namespace Proto

/-- What the sender has published stays so. -/
theorem Step.published {p p' : Proto T} {l : Label T} (hstep : Step p l p') {o : Option T}
    (hs : p.s.published = some o) : p'.s.published = some o := by
  cases hstep.moves with
  | still _ hs' => rw [hs']; exact hs
  | sender hmove => exact published_move hmove hs
  | receiver _ hs' => rw [hs']; exact hs

/-- Only a step of the receiver changes its role. -/
theorem Step.role_of_other {p p' : Proto T} {l : Label T} (hstep : Step p l p')
    (hl : l.ofReceiver = false) : p'.r = p.r := by
  cases hstep with
  | sender _ _ hreceiver | stray _ _ _ hreceiver => rw [Proto.r, hreceiver]; rfl
  | receiver => cases hl

/-- A loop is begun only by a receiver that waits for the sender. -/
theorem Step.waits_of_enter {p p' : Proto T} (hstep : Step p (.receiver .enter) p') :
    p.r.waits ∧ p'.r = p.r := by
  obtain ⟨μ, ss, rs, hagree⟩ := p
  obtain ⟨μ', ss', rs', hagree'⟩ := p'
  cases hstep with
  | receiver hsession =>
    cases hsession with
    | enter hwaits => exact ⟨hwaits, rfl⟩

/-- Every step of the receiver uses up one of those it has left. -/
theorem left_step {st st' : (oneshot.receiver T).State} {μ μ' : Memory T} {p p' : Proto T}
    {e : (oneshot.receiver T).Event} {o : Option T} {k : Nat} (hleft : Receiver.Left st p.r k)
    (hstep : (oneshot.receiver T).Step Memory.Acts st μ e st' μ') (hp : Step p (.receiver e) p')
    (hs : p.s.published = some o) (he : (Label.receiver e : Label T).returns = false) :
    ∃ k', k' + 1 ≤ k ∧ Receiver.Left st' p'.r k' := by
  have hagree : Receiver.Role.Agree p.r p.s p.memory.channel := p.agree
  cases hstep with
  | @call h c _ haccepts =>
    cases hleft with
    | idle =>
      refine ⟨_, ?_, .busy p'.r (Nat.le_refl 10) (Receiver.code_brisk c)⟩
      unfold Receiver.budget
      split <;> omega
  | @act c a q v _ _ hexec =>
    cases hleft with
    | @busy _ _ n looked _ hn hq =>
      obtain ⟨hpos, hrest⟩ := Program.paced_access.mp hq
      refine ⟨_, ?_, .busy p'.r (Nat.le_trans (Nat.sub_le n 1) hn) (hrest v)⟩
      cases hp.moves with
      | still hl => cases hl
      | receiver hmove _ hacts =>
        obtain ⟨env, hacts⟩ := hacts
        have hanswers := (Memory.exec_channel hacts).1
        have hle := Receiver.le_budget n looked p.r.ended
        by_cases hread : a.reads = true
        · rw [hmove.ended_of_reads hagree hanswers hs hread, Receiver.budget_ended]
          omega
        · rw [Bool.not_eq_true] at hread
          rw [hread, Bool.or_false]
          cases hended : p.r.ended with
          | true =>
            rw [(hmove.ended hended).1, Receiver.budget_ended, Receiver.budget_ended]
            omega
          | false =>
            unfold Receiver.budget
            cases looked <;> cases p'.r.ended <;> simp <;> omega
  | enter =>
    cases hleft with
    | @busy _ _ n looked _ hn hq =>
      obtain ⟨rfl, hround⟩ := Program.Paced.round hq
      obtain ⟨hwaits, hr⟩ := hp.waits_of_enter
      refine ⟨_, ?_, .busy p'.r (Nat.le_refl 10) hround⟩
      rw [hr, Receiver.Role.not_ended_of_waits hwaits]
      simp [Receiver.budget]
  | ret => cases he

theorem left_run {σ σ' : System T} {p : Proto T} {τ : List (Label T)} {o : Option T} {k : Nat}
    (hsim : Simulates σ p) (hs : p.s.published = some o) (hleft : Receiver.Left σ.receiver p.r k)
    (hrun : Run System.Step σ τ σ') (hτ : ∀ l ∈ τ, l.returns = false) :
    ∃ p' k', Simulates σ' p' ∧ p'.s.published = some o ∧ Receiver.Left σ'.receiver p'.r k' ∧
      τ.countP Label.ofReceiver + k' ≤ k := by
  induction hrun with
  | nil => exact ⟨p, k, hsim, hs, hleft, by simp⟩
  | @snoc τ σ₁ σ₂ l _ hstep ih =>
    obtain ⟨p₁, k₁, hsim₁, hs₁, hleft₁, hk₁⟩ := ih fun l hl => hτ l (List.mem_append_left _ hl)
    obtain ⟨p₂, hp, hsim₂⟩ := hsim₁.step hstep
    have hl : l.returns = false := hτ l (List.mem_append_right _ (List.mem_singleton_self l))
    cases hstep with
    | sender hstep | stray thread =>
      refine ⟨p₂, k₁, hsim₂, hp.published hs₁, ?_, ?_⟩
      · rw [hp.role_of_other rfl]
        exact hleft₁
      · simpa [List.countP_append, Label.ofReceiver] using hk₁
    | @receiver e r' μ' hstep =>
      obtain ⟨k₂, hk₂, hleft₂⟩ := left_step hleft₁ hstep hp hs₁ hl
      refine ⟨p₂, k₂, hsim₂, hp.published hs₁, hleft₂, ?_⟩
      have hcount : (τ ++ [Label.receiver e]).countP Label.ofReceiver = τ.countP Label.ofReceiver + 1 := by
        rw [List.countP_append]
        rfl
      omega

end Proto

namespace Receiver

/-- The receiver will not come to wait for a sender that has written its final state: it
    has seen that state, or looks at the state before it waits. -/
def Swift (st : (receiver T).State) (r : Role T) : Prop :=
  r.ended = true ∨ (r = .idle ∨ ∃ waker, r = .armed waker) ∨ (∃ h, st = .idle h) ∨
    ∃ order, st.next = some (.load order)

/-- A receiver that is not waiting does not begin to. -/
theorem Role.Move.swift {r r' : Role T} {s : Sender.Role T} {x : Channel T}
    {α : (interface T).Action} {o : Option T} (hmove : r.Move α r') (hagree : r.Agree s x)
    (hanswers : x.Answers α.access α.resp) (hs : s.published = some o)
    (hr : r = .idle ∨ ∃ waker, r = .armed waker) :
    (r'.ended = true ∨ r' = .idle ∨ ∃ waker, r' = .armed waker) ∧ α.access.waits = false := by
  have hended (hα : α.access.reads = true) : r'.ended = true :=
    hmove.ended_of_reads hagree hanswers hs hα
  cases hmove with
  | look_empty | look | leave | close | publish | publish_late | exchange | exchange_late =>
    exact ⟨.inl (hended rfl), rfl⟩
  | clock | clone | disarm => exact ⟨.inr (.inl rfl), rfl⟩
  | store_waker waker => exact ⟨.inr (.inr ⟨waker, rfl⟩), rfl⟩
  | _ => obtain h | ⟨waker, h⟩ := hr <;> cases h

/-- A call made by a receiver that waits for the sender begins with a look at the
    state. -/
theorem swift_call {h : Handle} {c : Call} {r : Role T} (haccepts : (receiver T).accepts h c = true)
    (hready : Ready h r) : Swift (.busy c ((receiver T).code c)) r := by
  cases h with
  | receiver =>
    cases r with
    | idle => exact .inr (.inl (.inl rfl))
    | own x => exact .inl rfl
    | _ => exact hready.elim
  | async_receiver => cases c <;> first | exact .inr (.inr (.inr ⟨_, rfl⟩)) | cases haccepts
  | gone => cases c <;> cases haccepts

end Receiver

namespace Proto

theorem swift_step {st st' : (oneshot.receiver T).State} {μ μ' : Memory T} {p p' : Proto T}
    {e : (oneshot.receiver T).Event} {o : Option T} (hswift : Receiver.Swift st p.r)
    (hstep : (oneshot.receiver T).Step Memory.Acts st μ e st' μ') (hp : Step p (.receiver e) p')
    (hs : p.s.published = some o) :
    Receiver.Swift st' p'.r ∧ (Label.receiver e : Label T).waits = false := by
  have hagree : Receiver.Role.Agree p.r p.s p.memory.channel := p.agree
  obtain hended | hr | ⟨h, rfl⟩ | ⟨order, hnext⟩ := hswift
  · obtain ⟨hended', hl⟩ := hp.receiver_ended hended
    exact ⟨.inl hended', hl⟩
  · cases e with
    | act α =>
      cases hp.moves with
      | still hl => cases hl
      | receiver hmove _ hacts =>
        obtain ⟨env, hexec⟩ := hacts
        obtain ⟨hr', hα⟩ := hmove.swift hagree (Memory.exec_channel hexec).1 hs hr
        exact ⟨hr'.imp id .inl, hα⟩
    | enter =>
      have hwaits := hp.waits_of_enter.1
      obtain h | ⟨waker, h⟩ := hr <;> rw [h] at hwaits <;> exact hwaits.elim
    | call | ret =>
      cases hp.moves with
      | still _ _ hr' =>
        rw [hr']
        exact ⟨.inr (.inl hr), rfl⟩
  · cases hstep with
    | call haccepts =>
      refine ⟨?_, rfl⟩
      obtain ⟨_, ss, rs, _⟩ := p
      obtain ⟨_, ss', rs', _⟩ := p'
      cases hp with
      | receiver hsession =>
        cases hsession with
        | call haccepts hready => exact Receiver.swift_call haccepts hready
  · cases hstep with
    | @act c a k v _ _ hexec =>
      cases hnext
      cases hp.moves with
      | still hl => cases hl
      | receiver hmove _ hacts =>
        obtain ⟨env, hexec⟩ := hacts
        exact ⟨.inl (hmove.ended_of_reads hagree (Memory.exec_channel hexec).1 hs rfl), rfl⟩
    | _ => cases hnext

/-- A receiver that is swift when the sender has written its final state never waits
    again. -/
theorem swift_run {σ σ' : System T} {p : Proto T} {τ : List (Label T)} {o : Option T}
    (hsim : Simulates σ p) (hs : p.s.published = some o)
    (hswift : Receiver.Swift σ.receiver p.r) (hrun : Run System.Step σ τ σ') :
    ∀ l ∈ τ, l.waits = false := by
  have hstep (σ : System T) (l : Label T) (σ' : System T)
      (h : ∃ p, Simulates σ p ∧ p.s.published = some o ∧ Receiver.Swift σ.receiver p.r)
      (hstep : System.Step σ l σ') :
      (∃ p, Simulates σ' p ∧ p.s.published = some o ∧ Receiver.Swift σ'.receiver p.r) ∧
        l.waits = false := by
    obtain ⟨p, hsim, hs, hswift⟩ := h
    obtain ⟨p', hp, hsim'⟩ := hsim.step hstep
    have hs' := hp.published hs
    cases hstep with
    | sender | stray =>
      refine ⟨⟨p', hsim', hs', ?_⟩, rfl⟩
      rw [hp.role_of_other rfl]
      exact hswift
    | receiver hstep =>
      obtain ⟨hswift', hl⟩ := swift_step hswift hstep hp hs
      exact ⟨⟨p', hsim', hs', hswift'⟩, hl⟩
  exact (hrun.always hstep ⟨p, hsim, hs, hswift⟩).2

/-- The receiver's next step can be made. -/
theorem Simulates.receiver_step {σ : System T} {p : Proto T} (hsim : Simulates σ p)
    {c : Receiver.Call} {q : Code T (Receiver.Ret T)} (hbusy : σ.receiver = .busy c q) :
    ∃ e σ', System.Step σ (.receiver e) σ' := by
  obtain ⟨memory, sender, receiver⟩ := σ
  obtain ⟨μ, ss, rs, hagree⟩ := p
  obtain ⟨rfl, _, hr⟩ := hsim
  obtain rfl : receiver = .busy c q := hbusy
  cases hr with
  | busy hfollows =>
    cases q with
    | ret v => exact ⟨_, _, .receiver .ret⟩
    | access a k =>
      obtain ⟨f, hon, _⟩ := hfollows
      obtain ⟨v, μ', hacts⟩ := Memory.exists_acts (Receiver.provides hagree hon)
      exact ⟨_, _, .receiver (.act hacts)⟩
    | iterate body k => exact ⟨_, _, .receiver .enter⟩
    | unreachable => exact hfollows.elim

/-- The code of the receiver is paced wherever it is. -/
theorem paced_run {σ₀ σ : System T} {τ : List (Label T)} (hrun : Run System.Step σ₀ τ σ)
    (hinit : σ₀.receiver.Paced Access.reads 10 10 true) :
    ∃ n looked, n ≤ 10 ∧ σ.receiver.Paced Access.reads 10 n looked := by
  induction hrun with
  | nil => exact ⟨10, true, Nat.le_refl 10, hinit⟩
  | snoc _ hstep ih =>
    obtain ⟨n, looked, hn, hpaced⟩ := ih
    cases hstep with
    | sender | stray => exact ⟨n, looked, hn, hpaced⟩
    | @receiver e _ _ hstep =>
      have hstep' := Endpoint.Step.paced Receiver.code_brisk hstep hpaced
      cases e with
      | call c => exact ⟨10, true, Nat.le_refl 10, hstep'⟩
      | act α =>
        obtain ⟨m, rfl, hm⟩ := hstep'
        exact ⟨m, _, Nat.le_trans (Nat.le_succ m) hn, hm⟩
      | enter => exact ⟨10, false, Nat.le_refl 10, hstep'.2⟩
      | ret c v =>
        obtain ⟨h, hidle⟩ := hstep'
        refine ⟨10, true, Nat.le_refl 10, fun c q hbusy => ?_⟩
        rw [hidle] at hbusy
        cases hbusy

/-- Once the sender has written its final state, the receiver returns soon. -/
theorem Simulates.prompt {σ : System T} {p : Proto T} (hsim : Simulates σ p) {n : Nat}
    {looked : Bool} (hn : n ≤ 10) (hpaced : σ.receiver.Paced Access.reads 10 n looked)
    {o : Option T} (hs : p.s.published = some o) : Prompt σ := by
  refine ⟨?_, ?_⟩
  · intro τ σ' hrun c q hbusy
    obtain ⟨p', _, hsim'⟩ := hsim.run hrun
    exact hsim'.receiver_step hbusy
  · intro τ σ' hrun hτ
    obtain ⟨k, hleft⟩ := Receiver.left_of_paced p.r hn hpaced
    obtain ⟨_, k', _, _, _, hk⟩ := left_run hsim hs hleft hrun hτ
    exact Nat.le_trans (Nat.le_of_add_right_le hk) hleft.le

end Proto

end oneshot
