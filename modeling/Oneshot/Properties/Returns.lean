import Oneshot.Conc.Fair
import Oneshot.Conc.Settle
import Oneshot.Properties.Promptness

open conc

namespace oneshot

variable {T : Type}

/-! Every call returns, if no thread that can go on is left out for ever. -/

/-- What the code of the receiving side can count on as long as the sender has done nothing:
    the state is `EMPTY` or `RECEIVING`. It may do anything but park without a time-out, and
    go round again while the clock has not passed the deadline, if the call has one. -/
def Receiver.terms (T : Type) (deadline : Option Instant) : Terms (interface T) where
  may a := ∀ thread, a ≠ .park thread
  gets α := ∃ x : Channel T, (x.state = EMPTY ∨ x.state = RECEIVING) ∧ x.Answers α.access α.resp
  again
    | ⟨.now, now⟩ => deadline.any fun d => decide ((now : Instant).nanos ≤ d.nanos)
    | _ => false

namespace Receiver

section

variable {o : Option Instant} {d : Instant} {n : Nat}

theorem may_iff {a : Access T} : (terms T o).may a ↔ ∀ thread, a ≠ .park thread := Iff.rfl

theorem gets_load {order : MemOrder} {v : UInt8} :
    (terms T o).gets ⟨.load order, v⟩ ↔ v = EMPTY ∨ v = RECEIVING := by
  constructor
  · rintro ⟨x, hx, rfl⟩
    exact hx
  · exact fun hv => ⟨⟨v, none, none⟩, hv, rfl⟩

theorem gets_swap {val v : UInt8} {order : MemOrder} :
    (terms T o).gets ⟨.swap val order, v⟩ ↔ v = EMPTY ∨ v = RECEIVING := by
  constructor
  · rintro ⟨x, hx, rfl⟩
    exact hx
  · exact fun hv => ⟨⟨v, none, none⟩, hv, rfl⟩

theorem gets_compare_exchange {current new : UInt8} {success failure : MemOrder}
    {v : Except UInt8 UInt8} :
    (terms T o).gets ⟨.compare_exchange current new success failure, v⟩ ↔
      v = (if EMPTY = current then .ok current else .error EMPTY) ∨
        v = if RECEIVING = current then .ok current else .error RECEIVING := by
  constructor
  · rintro ⟨x, hx | hx, rfl⟩
    · exact .inl (by rw [hx])
    · exact .inr (by rw [hx])
  · rintro (rfl | rfl)
    · exact ⟨⟨EMPTY, none, none⟩, .inl rfl, rfl⟩
    · exact ⟨⟨RECEIVING, none, none⟩, .inr rfl, rfl⟩

theorem again_now {now : Instant} :
    (terms T o).again ⟨.now, now⟩ = o.any fun d => decide (now.nanos ≤ d.nanos) := rfl

attribute [local simp] access Program.perform state.load state.store state.swap
  state.compare_exchange fence Channel.take_message Channel.drop_message Channel.write_waker
  Channel.drop_waker dealloc thread.park_timeout Instant.now hint.spin_loop may_iff gets_load
  gets_swap gets_compare_exchange again_now

/-- On these terms, with at most ten accesses up to the first loop or the return. -/
abbrev Ends {α : Type} (o : Option Instant) (p : Code T α) (n : Nat) (seen : Bool) : Prop :=
  p.Settles (terms T o) 10 n seen fun _ _ _ => True

theorem try_recv_ends : Ends o (Receiver.try_recv : Code T _) 10 true := by
  simp [Receiver.try_recv]

theorem start_recv_ref_ends {E : Type} {current : Thread} {error : E} {finish : Code T (Except E T)}
    {n : Nat} (hn : 3 ≤ n) (hfinish : ∀ n, Ends o finish n true) :
    Ends o (Receiver.start_recv_ref current error finish) n true := by
  obtain ⟨m, rfl⟩ := Nat.exists_eq_add_of_le' hn
  simp [Receiver.start_recv_ref]
  exact fun _ _ => hfinish _

theorem recv_deadline_ends {current : Thread} {n : Nat} (hn : 3 ≤ n) :
    Ends (some d) (Receiver.recv_deadline current d : Code T _) n true := by
  refine start_recv_ref_ends hn fun n => Program.settles_loop ?_
  simp
  intro now
  by_cases hnow : now.nanos ≤ d.nanos
  · simp [Instant.checked_duration_since, hnow]
  · simp [Instant.checked_duration_since, hnow]

theorem write_async_waker_ends {cx : Waker} {n : Nat} (hn : 4 ≤ n) :
    Ends o (Channel.write_async_waker cx : Code T _) n true := by
  obtain ⟨m, rfl⟩ := Nat.exists_eq_add_of_le' hn
  refine Program.settles_access.mpr ⟨by simp, Nat.succ_pos _, fun clone _ => ?_⟩
  refine Program.settles_access.mpr ⟨by simp, Nat.succ_pos _, fun _ _ => ?_⟩
  refine Program.settles_access.mpr ⟨by simp, Nat.succ_pos _, fun v hv => ?_⟩
  obtain rfl | rfl := gets_compare_exchange.mp hv <;> trivial

theorem poll_ends {cx : Waker} : Ends o (AsyncReceiver.poll cx : Code T _) 10 true := by
  refine Program.settles_access.mpr ⟨by simp, Nat.succ_pos _, fun v hv => ?_⟩
  obtain rfl | rfl := gets_load.mp hv
  · exact write_async_waker_ends (by decide)
  · refine Program.settles_access.mpr ⟨by simp, Nat.succ_pos _, fun v hv => ?_⟩
    obtain rfl | rfl := gets_compare_exchange.mp hv
    · trivial
    · refine Program.settles_access.mpr ⟨by simp, Nat.succ_pos _, fun _ _ => ?_⟩
      exact write_async_waker_ends (by decide)

theorem drop_ends : Ends o (Receiver.drop : Code T _) 10 true := by
  simp [Receiver.drop]

theorem async_drop_ends : Ends o (AsyncReceiver.drop : Code T _) 10 true := by
  simp [AsyncReceiver.drop, AsyncReceiver.stop_receiving]

/-- The calls that may wait for ever. -/
def Call.endless : Call → Bool
  | .recv _ | .recv_ref _ | .recv_timeout _ _ => true
  | _ => false

/-- The deadline that a call is given. -/
def Call.deadline : Call → Option Instant
  | .recv_deadline _ deadline => some deadline
  | _ => none

theorem code_ends {c : Call} (hc : c.endless = false) :
    Ends c.deadline ((receiver T).code c) 10 true := by
  cases c with
  | recv | recv_ref | recv_timeout => cases hc
  | try_recv => exact Program.settles_bind.mpr (try_recv_ends.mono fun _ _ _ _ => trivial)
  | recv_deadline current deadline =>
    exact Program.settles_bind.mpr ((recv_deadline_ends (by decide)).mono fun _ _ _ _ => trivial)
  | is_closed | async_is_closed => simp [receiver, Receiver.is_closed, AsyncReceiver.is_closed]
  | has_message | async_has_message =>
    simp [receiver, Receiver.has_message, AsyncReceiver.has_message]
  | drop => exact Program.settles_bind.mpr (drop_ends.mono fun _ _ _ _ => trivial)
  | into_future => trivial
  | poll cx => exact Program.settles_bind.mpr (poll_ends.mono fun _ _ _ _ => trivial)
  | async_drop => exact Program.settles_bind.mpr (async_drop_ends.mono fun _ _ _ _ => trivial)

/-- The code of `recv_timeout` reads the clock, and has a deadline from then on. -/
theorem recv_timeout_begins {current : Thread} {timeout : Duration} :
    ∃ k : Instant → Code T (Ret T), (receiver T).code (.recv_timeout current timeout) =
        .access (I := interface T) .now k ∧
      ∀ now deadline : Instant, now.checked_add timeout = some deadline →
        Ends (some deadline) (k now) 9 true := by
  refine ⟨_, rfl, fun now deadline hdeadline => Program.settles_bind.mpr ?_⟩
  simp only [Program.ret_bind, hdeadline]
  exact (recv_deadline_ends (by decide)).mono fun _ _ _ _ => trivial

end

end Receiver

namespace System

/-- The thread of a side can go on: it is in a call, and does not park without its token. -/
def Runnable (side : Side) (σ : System T) : Prop :=
  match side with
  | .sender => ∃ c q, σ.sender = .busy c q
  | .receiver => (∃ c q, σ.receiver = .busy c q) ∧
      ∀ thread, σ.receiver.next = some (.park thread) → σ.memory.token thread = true

/-- No thread that can go on is left out for ever. -/
structure Fair (b : Behaviour (System.Step (T := T))) : Prop where
  sender : b.Fair (Runnable .sender) fun l => l.ofSender = true
  receiver : b.Fair (Runnable .receiver) fun l => l.ofReceiver = true

/-- The receiver reads `now` off the clock at the moment `m`. -/
def Reads (b : Behaviour (System.Step (T := T))) (m : Nat) (now : Instant) : Prop :=
  b.label m = some (.receiver (.act ⟨.now, now⟩))

/-- It does so for the first time in the call that it begins at the moment `n`. -/
def FirstReads (b : Behaviour (System.Step (T := T))) (n m : Nat) (now : Instant) : Prop :=
  n < m ∧ Reads b m now ∧ ∀ i now', n < i → i < m → ¬ Reads b i now'

/-- The clock that it reads comes to pass the deadline. -/
def ClockPasses (b : Behaviour (System.Step (T := T))) (deadline : Instant) : Prop :=
  ∃ n, ∀ m now, n ≤ m → Reads b m now → deadline.nanos < now.nanos

/-- The sender is sent with, or dropped, at some time. -/
def SenderActs (b : Behaviour (System.Step (T := T))) : Prop :=
  ∃ m c, b.label m = some (.sender (.call c)) ∧ (c = .drop ∨ ∃ message, c = .send message)

/-- A call, begun at the moment `n`, that ends by itself: it does not block, or it has a
    deadline, which the clock comes to pass. That of a `recv_timeout` is counted from its own
    first reading of the clock. -/
def Limited (b : Behaviour (System.Step (T := T))) (n : Nat) : Receiver.Call → Prop
  | .recv _ | .recv_ref _ => False
  | .recv_timeout _ timeout => ∀ m now, FirstReads b n m now →
      ∃ deadline, now.checked_add timeout = some deadline ∧ ClockPasses b deadline
  | .recv_deadline _ deadline => ClockPasses b deadline
  | _ => True

variable {σ σ' : System T} {l : Label T}

/-- The call `c` of the sender has at most `k` accesses left. -/
def Sending (c : Sender.Call T) (k : Nat) (σ : System T) : Prop :=
  ∃ q, σ.sender = .busy c q ∧ q.Ends k

theorem Sending.runnable {c : Sender.Call T} {k : Nat} (h : Sending c k σ) :
    σ.Runnable .sender := by
  obtain ⟨q, hbusy, _⟩ := h
  exact ⟨c, q, hbusy⟩

theorem Sending.step {c : Sender.Call T} {k : Nat} (h : Sending c k σ) (hstep : Step σ l σ') :
    (∃ v, l = .sender (.ret c v)) ∨ (¬ l.ofSender = true ∧ Sending c k σ') ∨
      ∃ k' < k, Sending c k' σ' := by
  obtain ⟨q, hbusy, hends⟩ := h
  obtain ⟨μ, s, r⟩ := σ
  obtain rfl : s = .busy c q := hbusy
  cases hstep with
  | receiver | stray => exact .inr (.inl ⟨by rintro ⟨⟩, q, rfl, hends⟩)
  | sender hstep =>
    cases hstep with
    | act =>
      cases k with
      | zero => exact hends.elim
      | succ k => exact .inr (.inr ⟨k, Nat.lt_succ_self k, _, rfl, hends _⟩)
    | enter => cases k <;> exact hends.elim
    | ret => exact .inl ⟨_, rfl⟩

end System

variable {b : Behaviour (System.Step (T := T))} {n : Nat}

/-- Every call of the sender returns, whatever the receiver does. -/
theorem sender_returns (hfair : b.Fair (System.Runnable .sender) fun l => l.ofSender = true)
    {c : Sender.Call T} (hcall : b.label n = some (.sender (.call c))) :
    ∃ m v, n < m ∧ b.label m = some (.sender (.ret c v)) := by
  have hbegun : System.Sending c 5 (b.state (n + 1)) :=
    ⟨_, System.sender_of_call (b.step n _ hcall), Sender.code_ends c⟩
  obtain ⟨m, hm, v, hl⟩ := hfair.reaches (G := fun m => ∃ v, b.label m = some (.sender (.ret c v)))
    hbegun (fun _ _ _ h => h.runnable) fun m k l _ h hl => by
      simpa [hl] using h.step (b.step m l hl)
  exact ⟨m, v, hm, hl⟩

section

variable {σ₀ σ σ' : System T}

/-- A state that a run of a channel comes to, as the protocol sees it. -/
structure Proto.Reaches (σ : System T) (p : Proto T) : Prop where
  simulates : Simulates σ p
  rung : p.Rung
  ended : Sender.Ended p.sender

theorem Proto.reaches_of_run {τ : List (Label T)} (hinitial : σ₀.Initial)
    (hrun : Run System.Step σ₀ τ σ) : ∃ p, Proto.Reaches σ p := by
  obtain ⟨h, token, hsim⟩ := Proto.simulates_initial hinitial
  obtain ⟨p, hp, hsim'⟩ := hsim.run hrun
  obtain ⟨hrung, hended⟩ := Proto.rung_run hp
  exact ⟨p, hsim', hrung, hended⟩

end

/-! The sender has returned. -/

namespace Proto

/-- A receiver that is still waiting for a sender that is done will find its final state. -/
theorem published_of_ended {p : Proto T} (hs : p.s.ended = true) (hr : p.r.ended = false) :
    ∃ o, p.s.published = some o := by
  have hagree : Receiver.Role.Agree p.r p.s p.memory.channel := p.agree
  generalize p.s = s at hs hagree
  generalize p.r = r at hr hagree
  cases s with
  | finished message => exact ⟨message, rfl⟩
  | failed | last | freed =>
    rw [hagree.left_of_lost rfl] at hr
    cases hr
  | _ => cases hs

/-- A call has ever fewer steps left once the sender is done. -/
theorem left_step_of_ended {st st' : (oneshot.receiver T).State} {μ μ' : Memory T} {p p' : Proto T}
    {e : (oneshot.receiver T).Event} {k : Nat} (hleft : Receiver.Left st p.r k)
    (hstep : (oneshot.receiver T).Step Memory.Acts st μ e st' μ') (hp : Step p (.receiver e) p')
    (hs : p.s.ended = true) (he : (Label.receiver e : Label T).returns = false) :
    ∃ k', k' + 1 ≤ k ∧ Receiver.Left st' p'.r k' := by
  cases hr : p.r.ended with
  | false =>
    obtain ⟨o, ho⟩ := published_of_ended hs hr
    exact left_step hleft hstep hp ho he
  | true =>
    have hr' := (hp.receiver_ended hr).1
    cases hleft with
    | idle =>
      cases hstep with
      | @call _ c =>
        refine ⟨_, ?_, .busy p'.r (Nat.le_refl 10) (Receiver.code_brisk c)⟩
        rw [hr', Receiver.budget_ended]
        decide
    | @busy c q n looked _ hn hq =>
      rw [hr, Receiver.budget_ended]
      cases hstep with
      | @act _ a k v =>
        obtain ⟨hpos, hrest⟩ := Program.paced_access.mp hq
        refine ⟨_, ?_, .busy p'.r (Nat.le_trans (Nat.sub_le n 1) hn) (hrest v)⟩
        rw [hr', Receiver.budget_ended]
        omega
      | enter =>
        have hwaits := Receiver.Role.not_ended_of_waits hp.waits_of_enter.1
        rw [hr] at hwaits
        cases hwaits
      | ret => cases he

/-- The sender is done, and the receiver has at most `k` steps left of the call `c`. -/
def Finishing (c : Receiver.Call) (k : Nat) (σ : System T) : Prop :=
  ∃ p, Reaches σ p ∧ p.s.ended = true ∧ Receiver.Left σ.receiver p.r k ∧ ∃ q, σ.receiver = .busy c q

theorem Reaches.step {σ σ' : System T} {p : Proto T} {l : Label T} (h : Reaches σ p)
    (hstep : System.Step σ l σ') : ∃ p', Step p l p' ∧ Reaches σ' p' := by
  obtain ⟨p', hp, hsim⟩ := h.simulates.step hstep
  refine ⟨p', hp, hsim, h.rung.step hp, ?_⟩
  cases hp with
  | sender hsession => exact Sender.ended_step hsession h.ended
  | receiver _ _ hs | stray _ _ hs =>
    rw [hs]
    exact h.ended

theorem Finishing.step {c : Receiver.Call} {k : Nat} {σ σ' : System T} {l : Label T}
    (h : Finishing c k σ) (hstep : System.Step σ l σ') :
    (∃ v, l = .receiver (.ret c v)) ∨ (¬ l.ofReceiver = true ∧ Finishing c k σ') ∨
      ∃ k' < k, Finishing c k' σ' := by
  obtain ⟨p, hp, hs, hleft, q, hbusy⟩ := h
  obtain ⟨p', hstep', hp'⟩ := hp.step hstep
  have hs' := hstep'.sender_ended hs
  cases hl : l.ofReceiver with
  | false =>
    have hkept := System.receiver_of_other hstep hl
    refine .inr (.inl ⟨by simp, p', hp', hs', ?_, q, hkept.trans hbusy⟩)
    rw [hkept, hstep'.role_of_other hl]
    exact hleft
  | true =>
    obtain ⟨μ, s, r⟩ := σ
    obtain rfl : r = .busy c q := hbusy
    cases hstep with
    | @receiver e r' μ' hstep =>
      by_cases he : (Label.receiver e : Label T).returns = true
      · left
        cases hstep with
        | ret => exact ⟨_, rfl⟩
        | _ => cases he
      · obtain ⟨k', hk', hleft'⟩ := left_step_of_ended hleft hstep hstep' hs (by simpa using he)
        refine .inr (.inr ⟨k', hk', p', hp', hs', hleft', ?_⟩)
        cases hstep with
        | ret => exact (he rfl).elim
        | _ => exact ⟨_, rfl⟩
    | _ => cases hl

/-- A thread that is about to park then finds its token. -/
theorem Finishing.runnable {c : Receiver.Call} {k : Nat} {σ : System T} (h : Finishing c k σ) :
    σ.Runnable .receiver := by
  obtain ⟨p, hp, hs, _, q, hbusy⟩ := h
  exact ⟨⟨c, q, hbusy⟩, fun thread hnext =>
    (hp.simulates.released hp.rung hs).token _ thread hnext rfl⟩

end Proto

section

variable {c : Receiver.Call}

/-- A call of the receiver goes on until it returns. -/
theorem busy_of_call (hcall : b.label n = some (.receiver (.call c)))
    (hno : ∀ m v, n < m → b.label m ≠ some (.receiver (.ret c v))) {m : Nat} (hm : n + 1 ≤ m) :
    ∃ q, (b.state m).receiver = .busy c q := by
  refine Behaviour.keeps (P := fun σ : System T => ∃ q, σ.receiver = .busy c q) hm
    ⟨_, System.receiver_of_call (b.step n _ hcall)⟩ fun i l hi hq hl => ?_
  obtain ⟨q, hbusy⟩ := hq
  have hstep := b.step i l hl
  cases hown : l.ofReceiver with
  | false => exact ⟨q, (System.receiver_of_other hstep hown).trans hbusy⟩
  | true =>
    generalize b.state i = σ at hstep hbusy
    obtain ⟨μ, s, r⟩ := σ
    obtain rfl : r = .busy c q := hbusy
    generalize b.state (i + 1) = σ' at hstep
    cases hstep with
    | receiver hstep =>
      cases hstep with
      | ret => exact (hno i _ hi hl).elim
      | _ => exact ⟨_, rfl⟩
    | _ => cases hown

/-- Once the sender has returned, every call of the receiver does. -/
theorem returns_of_sender (hinitial : (b.state 0).Initial)
    (hfair : b.Fair (System.Runnable .receiver) fun l => l.ofReceiver = true)
    (hcall : b.label n = some (.receiver (.call c))) {n₁ : Nat}
    (hreturned : (b.state n₁).returned = true) :
    ∃ m v, n < m ∧ b.label m = some (.receiver (.ret c v)) := by
  by_contra hno
  simp only [not_exists, not_and] at hno
  -- From the later of the two moments on the sender is done, and the call goes on.
  have hn : n + 1 ≤ max (n + 1) n₁ := Nat.le_max_left _ _
  obtain ⟨q, hbusy⟩ := busy_of_call hcall hno hn
  obtain ⟨p₁, hp₁⟩ := Proto.reaches_of_run hinitial (b.run n₁)
  have hended : ∃ p, Proto.Reaches (b.state (max (n + 1) n₁)) p ∧ p.s.ended = true := by
    refine Behaviour.keeps (P := fun σ => ∃ p, Proto.Reaches σ p ∧ p.s.ended = true)
      (Nat.le_max_right _ _) ⟨p₁, hp₁, hp₁.simulates.ended hp₁.ended hreturned⟩ ?_
    rintro i l _ ⟨p, hp, hs⟩ hl
    obtain ⟨p', hstep, hp'⟩ := hp.step (b.step i l hl)
    exact ⟨p', hp', hstep.sender_ended hs⟩
  obtain ⟨p, hp, hs⟩ := hended
  have hidle : (b.state 0).receiver.Paced Access.reads 10 10 true := by
    obtain ⟨token, h | h⟩ := hinitial <;> rw [h] <;> rintro _ _ ⟨⟩
  obtain ⟨_, _, hten, hpaced⟩ := Proto.paced_run (b.run (max (n + 1) n₁)) hidle
  obtain ⟨k, hleft⟩ := Receiver.left_of_paced p.r hten hpaced
  have hfinishing : Proto.Finishing c k (b.state (max (n + 1) n₁)) := ⟨p, hp, hs, hleft, q, hbusy⟩
  obtain ⟨m, hm, v, hl⟩ := hfair.reaches
    (G := fun m => ∃ v, b.label m = some (.receiver (.ret c v))) hfinishing
    (fun _ _ _ h => h.runnable) fun m k l _ h hl => by simpa [hl] using h.step (b.step m l hl)
  exact hno m v (Nat.le_trans hn hm) hl

end

/-! The sender does nothing. -/

namespace System

variable {σ σ' : System T} {l : Label T}

/-- The sender has not been called, unless to look. -/
def Lingers (σ : System T) : Prop :=
  σ.sender = .idle .sender ∨ σ.sender = .busy .is_closed ((oneshot.sender T).code .is_closed) ∨
    ∃ v, σ.sender = .busy .is_closed (.ret (.is_closed v))

theorem Lingers.step (h : Lingers σ) (hstep : Step σ l σ')
    (hl : ∀ c, l = .sender (.call c) → c ≠ .drop ∧ ∀ message, c ≠ .send message) : Lingers σ' := by
  obtain ⟨μ, s, r⟩ := σ
  cases hstep with
  | receiver | stray => exact h
  | sender hstep =>
    obtain h | h | ⟨v, h⟩ := h
    · obtain rfl : s = .idle .sender := h
      cases hstep with
      | @call _ c _ haccepts =>
        obtain ⟨hdrop, hsend⟩ := hl _ rfl
        cases c with
        | is_closed => exact .inr (.inl rfl)
        | send message => exact (hsend message rfl).elim
        | drop => exact (hdrop rfl).elim
        | into_inner | drop_error => cases haccepts
    · obtain rfl : s = .busy .is_closed ((oneshot.sender T).code .is_closed) := h
      cases hstep with
      | act => exact .inr (.inr ⟨_, rfl⟩)
    · obtain rfl : s = .busy .is_closed (.ret (.is_closed v)) := h
      cases hstep with
      | ret => exact .inl rfl

/-- Then it has written nothing. -/
theorem Lingers.fresh {p : Proto T} (h : Lingers σ) (hsim : Proto.Simulates σ p) :
    p.s = .fresh := by
  obtain ⟨μ, s, r⟩ := σ
  obtain ⟨_, ss, rs, _⟩ := p
  obtain ⟨_, hs, _⟩ := hsim
  have hready {ρ : Sender.Role T} (hρ : Sender.Ready .sender ρ) : ρ = .fresh := by
    cases ρ <;> first | rfl | exact hρ.elim
  obtain h | h | ⟨v, h⟩ := h
  · obtain rfl : s = .idle .sender := h
    cases hs with
    | idle hρ => exact hready hρ
  · obtain rfl : s = .busy .is_closed ((oneshot.sender T).code .is_closed) := h
    cases hs with
    | @busy _ _ ρ _ hfollows =>
      obtain ⟨f, hon, _⟩ := hfollows
      replace hon : ρ.on (.load .Relaxed) = some f := hon
      cases ρ <;> first | rfl | cases hon
  · obtain rfl : s = .busy .is_closed (.ret (.is_closed v)) := h
    cases hs with
    | busy hfollows => exact hready ((Sender.contract T).post_ready hfollows)

/-- The receiver finds the state `EMPTY` or `RECEIVING`. -/
theorem Lingers.gets {p : Proto T} {α : (interface T).Action} (h : Lingers σ)
    (hsim : Proto.Simulates σ p) (hstep : Step σ (.receiver (.act α)) σ')
    (o : Option Instant) : (Receiver.terms T o).gets α := by
  obtain ⟨p', hstep', _⟩ := hsim.step hstep
  have hagree : Receiver.Role.Agree p.r p.s p.memory.channel := p.agree
  rw [h.fresh hsim] at hagree
  cases hstep'.moves with
  | still hnone => cases hnone
  | receiver hmove _ hacts =>
    obtain ⟨env, hexec⟩ := hacts
    refine ⟨p.memory.channel, ?_, (Memory.exec_channel hexec).1⟩
    generalize p.r = r at hmove hagree
    generalize p'.r = r' at hmove
    cases r with
    | idle | armed => exact .inl (hagree.resolve_right id).holds.1
    | waiting | woken =>
      obtain h | h | h := hagree
      · exact .inr h.holds.1
      · exact h.elim
      · exact h.elim
    | caught | expired | expired_woken | leaving | quitting | abandoned =>
      obtain h | h := hagree <;> exact h.elim
    | own =>
      obtain ⟨_, _, _, hpublished, _⟩ := hagree
      cases hpublished
    | left | released => cases hmove

end System

section

variable {c : Receiver.Call} {σ σ' : System T} {l : Label T} {o : Option Instant} {k : Nat}

theorem within_step (h : σ.receiver.Within (Receiver.terms T o) 10 c k) (hstep : System.Step σ l σ')
    (hgets : ∀ α, l = .receiver (.act α) → (Receiver.terms T o).gets α) :
    (∃ v, l = .receiver (.ret c v)) ∨
      (¬ l.ofReceiver = true ∧ σ'.receiver.Within (Receiver.terms T o) 10 c k) ∨
      ∃ k', σ'.receiver.Within (Receiver.terms T o) 10 c k' ∧
        ((∀ now d : Instant, l = .receiver (.act ⟨.now, now⟩) → o = some d → d.nanos < now.nanos) →
          k' < k) := by
  cases hstep with
  | sender | stray => exact .inr (.inl ⟨by rintro ⟨⟩, h⟩)
  | receiver hstep =>
    obtain ⟨v, rfl⟩ | ⟨k', h', hfewer⟩ := hstep.within h fun α he => hgets α (by rw [he])
    · exact .inl ⟨v, rfl⟩
    · refine .inr (.inr ⟨k', h', fun hlate => hfewer ?_⟩)
      rintro ⟨a, v⟩ rfl
      cases a with
      | now =>
        rw [Receiver.again_now]
        cases o with
        | none => rfl
        | some d => exact decide_eq_false (Nat.not_le_of_lt (hlate v d rfl rfl))
      | _ => rfl

/-- Such a call never parks without a time-out. -/
theorem within_runnable (h : σ.receiver.Within (Receiver.terms T o) 10 c k) :
    σ.Runnable .receiver := by
  have hmay (thread : Thread) (hnext : σ.receiver.next = some (.park thread)) : False :=
    h.may hnext thread rfl
  obtain ⟨q, n, seen, hbusy, _⟩ := h
  exact ⟨⟨c, q, hbusy⟩, fun thread hnext => (hmay thread hnext).elim⟩

/-- A receiver that is about to read the clock does so in its next step. -/
theorem now_step {f : Instant → Code T (Receiver.Ret T)}
    (h : σ.receiver = .busy c (.access (I := interface T) .now f)) (hstep : System.Step σ l σ') :
    (∃ now, l = .receiver (.act ⟨.now, now⟩) ∧ σ'.receiver = .busy c (f now)) ∨
      (¬ l.ofReceiver = true ∧
        σ'.receiver = .busy c (.access (I := interface T) .now f)) := by
  obtain ⟨μ, s, r⟩ := σ
  obtain rfl : r = .busy c (.access .now f) := h
  cases hstep with
  | sender | stray => exact .inr ⟨by rintro ⟨⟩, rfl⟩
  | receiver hstep =>
    cases hstep with
    | act => exact .inl ⟨_, rfl, rfl⟩

/-- A call that begins by reading the clock comes to do so. -/
theorem first_reads (hfair : b.Fair (System.Runnable .receiver) fun l => l.ofReceiver = true)
    {f : Instant → Code T (Receiver.Ret T)}
    (hbusy : (b.state (n + 1)).receiver = .busy c (.access (I := interface T) .now f)) :
    ∃ m now, System.FirstReads b n m now ∧ (b.state (m + 1)).receiver = .busy c (f now) := by
  have hsome : ∃ m, n + 1 ≤ m ∧ ∃ now, System.Reads b m now := by
    refine hfair.reaches (k := 0)
      (P := fun _ σ => σ.receiver = .busy c (.access (I := interface T) .now f)) hbusy
      (fun m _ _ h => ⟨⟨_, _, h⟩, fun thread hnext => ?_⟩) fun m _ l _ h hl => ?_
    · rw [h] at hnext
      cases hnext
    · obtain ⟨now, rfl, _⟩ | hother := now_step h (b.step m l hl)
      · exact .inl ⟨now, hl⟩
      · exact .inr (.inl hother)
  obtain ⟨m, ⟨hm, now, hnow⟩, hleast⟩ := Behaviour.exists_first hsome
  have hbegun : (b.state m).receiver = .busy c (.access (I := interface T) .now f) := by
    refine Behaviour.keeps_until
      (P := fun σ : System T => σ.receiver = .busy c (.access (I := interface T) .now f)) hm hbusy
      fun i l hi hlt h hl => ?_
    obtain ⟨now', rfl, _⟩ | ⟨_, hkept⟩ := now_step h (b.step i l hl)
    · exact (hleast i hlt ⟨hi, now', hl⟩).elim
    · exact hkept
  refine ⟨m, now, ⟨hm, hnow, fun i now' hi hlt hreads => hleast i hlt ⟨hi, now', hreads⟩⟩, ?_⟩
  obtain ⟨now', hl, hnext⟩ | ⟨hother, _⟩ := now_step hbegun (b.step m _ hnow)
  · cases hl
    exact hnext
  · exact (hother rfl).elim

/-- A call with a deadline has begun, or one that does not wait. -/
theorem within_of_call (hfair : b.Fair (System.Runnable .receiver) fun l => l.ofReceiver = true)
    (hcall : b.label n = some (.receiver (.call c))) (hlimited : System.Limited b n c) :
    ∃ m o k, n + 1 ≤ m ∧ (b.state m).receiver.Within (Receiver.terms T o) 10 c k ∧
      ∀ d, o = some d → System.ClockPasses b d := by
  have hbusy := System.receiver_of_call (b.step n _ hcall)
  have hplain (hc : c.endless = false) (hpasses : ∀ d, c.deadline = some d → System.ClockPasses b d) :
      ∃ m o k, n + 1 ≤ m ∧ (b.state m).receiver.Within (Receiver.terms T o) 10 c k ∧
        ∀ d, o = some d → System.ClockPasses b d :=
    ⟨n + 1, c.deadline, _, Nat.le_refl _, ⟨_, _, _, hbusy, Receiver.code_ends hc, rfl⟩, hpasses⟩
  cases c with
  | recv | recv_ref => exact hlimited.elim
  | recv_timeout current timeout =>
    obtain ⟨f, hcode, hends⟩ := @Receiver.recv_timeout_begins T current timeout
    rw [hcode] at hbusy
    obtain ⟨m, now, hfirst, hnext⟩ := first_reads hfair hbusy
    obtain ⟨deadline, hdeadline, hpasses⟩ := hlimited m now hfirst
    refine ⟨m + 1, some deadline, _, Nat.succ_le_succ (Nat.le_of_lt hfirst.1),
      ⟨_, _, _, hnext, hends now deadline hdeadline, rfl⟩, ?_⟩
    rintro d ⟨⟩
    exact hpasses
  | recv_deadline current deadline =>
    refine hplain rfl ?_
    rintro d ⟨⟩
    exact hlimited
  | _ => exact hplain rfl (by rintro d ⟨⟩)

/-- Such a call returns even if the sender never does anything. -/
theorem returns_of_lingers (hinitial : (b.state 0).Initial)
    (hfair : b.Fair (System.Runnable .receiver) fun l => l.ofReceiver = true)
    (hlingers : ∀ m, (b.state m).Lingers) (hcall : b.label n = some (.receiver (.call c)))
    (hlimited : System.Limited b n c) :
    ∃ m v, n < m ∧ b.label m = some (.receiver (.ret c v)) := by
  by_contra hno
  simp only [not_exists, not_and] at hno
  obtain ⟨m₀, o, k₀, hm₀, hwithin, hpasses⟩ := within_of_call hfair hcall hlimited
  have hgets (m : Nat) (l : Label T) (hl : b.label m = some l) (α : (interface T).Action)
      (hα : l = .receiver (.act α)) : (Receiver.terms T o).gets α := by
    subst hα
    obtain ⟨p, hp⟩ := Proto.reaches_of_run hinitial (b.run m)
    exact (hlingers m).gets hp.simulates (b.step m _ hl) o
  have hclock : ∃ n₁, ∀ m (now d : Instant), n₁ ≤ m → System.Reads b m now → o = some d →
      d.nanos < now.nanos := by
    cases o with
    | none => exact ⟨0, fun _ _ _ _ _ ho => by cases ho⟩
    | some d =>
      obtain ⟨n₁, hlate⟩ := hpasses d rfl
      refine ⟨n₁, fun m now d' hm hreads ho => ?_⟩
      cases ho
      exact hlate m now hm hreads
  obtain ⟨n₁, hlate⟩ := hclock
  -- The call is still going on when the clock has passed the deadline.
  have hlast : ∃ k, (b.state (max m₀ n₁)).receiver.Within (Receiver.terms T o) 10 c k := by
    refine Behaviour.keeps
      (P := fun σ : System T => ∃ k, σ.receiver.Within (Receiver.terms T o) 10 c k)
      (Nat.le_max_left m₀ n₁) ⟨k₀, hwithin⟩ fun i l hi h hl => ?_
    obtain ⟨k, h⟩ := h
    obtain ⟨v, rfl⟩ | ⟨_, h'⟩ | ⟨k', h', _⟩ := within_step h (b.step i l hl) (hgets i l hl)
    · exact (hno i v (Nat.lt_of_lt_of_le (Nat.lt_of_succ_le hm₀) hi) hl).elim
    · exact ⟨k, h'⟩
    · exact ⟨k', h'⟩
  obtain ⟨k, hlast⟩ := hlast
  obtain ⟨m, hm, v, hl⟩ := hfair.reaches
    (P := fun k (σ : System T) => σ.receiver.Within (Receiver.terms T o) 10 c k)
    (G := fun m => ∃ v, b.label m = some (.receiver (.ret c v))) hlast
    (fun _ _ _ h => within_runnable h) fun m k l hm h hl => by
      have hpassed : n₁ ≤ m := Nat.le_trans (Nat.le_max_right m₀ n₁) hm
      obtain hret | hother | ⟨k', h', hfewer⟩ := within_step h (b.step m l hl) (hgets m l hl)
      · exact .inl (by simpa [hl] using hret)
      · exact .inr (.inl hother)
      · exact .inr (.inr ⟨k', hfewer fun now d hnow => hlate m now d hpassed (by rw [System.Reads, hl, hnow]), h'⟩)
  exact hno m v (Nat.lt_of_lt_of_le (Nat.lt_of_succ_le hm₀)
    (Nat.le_trans (Nat.le_max_left m₀ n₁) hm)) hl

end

/-- Once `send` has been called, or the sender dropped, the sender comes to return from it. -/
theorem returned_of_acts (hfair : b.Fair (System.Runnable .sender) fun l => l.ofSender = true)
    (hacts : System.SenderActs b) : ∃ n, (b.state n).returned = true := by
  obtain ⟨n, c, hcall, hc⟩ := hacts
  obtain ⟨m, v, _, hret⟩ := sender_returns hfair hcall
  refine ⟨m + 1, ?_⟩
  have hstep := b.step m _ hret
  generalize b.state (m + 1) = σ' at hstep ⊢
  generalize b.state m = σ at hstep
  obtain ⟨μ, s, r⟩ := σ
  cases hstep with
  | sender hstep =>
    cases hstep with
    | ret =>
      obtain rfl | ⟨message, rfl⟩ := hc
      · rfl
      · cases v with
        | send result => cases result <;> rfl
        | _ => rfl

/-- A receive call returns if it ends by itself, or if the sender is sent with or dropped at
    some time. -/
theorem receiver_returns (hinitial : (b.state 0).Initial) (hfair : System.Fair b)
    {c : Receiver.Call} (hcall : b.label n = some (.receiver (.call c)))
    (hends : System.SenderActs b ∨ System.Limited b n c) :
    ∃ m v, n < m ∧ b.label m = some (.receiver (.ret c v)) := by
  by_cases hacts : System.SenderActs b
  · obtain ⟨n₁, hreturned⟩ := returned_of_acts hfair.sender hacts
    exact returns_of_sender hinitial hfair.receiver hcall hreturned
  · have hlimited := hends.resolve_left hacts
    refine returns_of_lingers hinitial hfair.receiver (fun m => ?_) hcall hlimited
    refine Behaviour.keeps (P := System.Lingers) (Nat.zero_le m) ?_ fun i l _ h hl => ?_
    · obtain ⟨token, h | h⟩ := hinitial <;> rw [h] <;> exact .inl rfl
    · refine h.step (b.step i l hl) fun c hc => ⟨?_, fun message => ?_⟩ <;> rintro rfl
      · exact hacts ⟨i, _, by rw [hl, hc], .inl rfl⟩
      · exact hacts ⟨i, _, by rw [hl, hc], .inr ⟨message, rfl⟩⟩

/-- What fairness is good for: no thread that can go on is stuck, and every call returns, if
    it ends by itself or the sender does something at some time. -/
structure Returning (b : Behaviour (System.Step (T := T))) : Prop where
  sender_step : ∀ n, (b.state n).Runnable .sender → ∃ e σ', System.Step (b.state n) (.sender e) σ'
  receiver_step : ∀ n, (b.state n).Runnable .receiver →
    ∃ e σ', System.Step (b.state n) (.receiver e) σ'
  sender : ∀ n c, b.label n = some (.sender (.call c)) →
    ∃ m v, n < m ∧ b.label m = some (.sender (.ret c v))
  receiver : ∀ n c, b.label n = some (.receiver (.call c)) →
    System.SenderActs b ∨ System.Limited b n c →
    ∃ m v, n < m ∧ b.label m = some (.receiver (.ret c v))

/-- In every fair behaviour of a channel every call returns. Only a receive call without a
    deadline that comes to pass needs a sender that does something. -/
theorem calls_return (hinitial : (b.state 0).Initial) (hfair : System.Fair b) : Returning b where
  sender_step n h := by
    obtain ⟨p, hp⟩ := Proto.reaches_of_run hinitial (b.run n)
    obtain ⟨c, q, hbusy⟩ := h
    exact hp.simulates.sender_step hbusy
  receiver_step n h := by
    obtain ⟨p, hp⟩ := Proto.reaches_of_run hinitial (b.run n)
    obtain ⟨⟨c, q, hbusy⟩, _⟩ := h
    exact hp.simulates.receiver_step hbusy
  sender _ _ hcall := sender_returns hfair.sender hcall
  receiver _ _ hcall hends := receiver_returns hinitial hfair hcall hends

/-- A receiver that blocks before the sender is dropped. -/
def System.dropped_on : List (Choice Nat) :=
  receives (.recv ⟨1⟩) 4 0 ++ sends .drop 5 ++ receiving 4 0

/-- A behaviour that comes to rest between the calls of both sides is fair. -/
theorem System.fair_of_rest {σ : System T} {h : Sender.Handle} {h' : Receiver.Handle} {m : Nat}
    (hend : ∀ n, m ≤ n → b.state n = σ) (hsender : σ.sender = .idle h)
    (hreceiver : σ.receiver = .idle h') : System.Fair b := by
  refine ⟨fun n hready => ?_, fun n hready => ?_⟩
  · obtain ⟨c, q, hbusy⟩ := hready (max n m) (Nat.le_max_left n m)
    rw [hend _ (Nat.le_max_right n m), hsender] at hbusy
    cases hbusy
  · obtain ⟨⟨c, q, hbusy⟩, _⟩ := hready (max n m) (Nat.le_max_left n m)
    rw [hend _ (Nat.le_max_right n m), hreceiver] at hbusy
    cases hbusy

/-- A `recv_timeout` that the sender lets run out. The clock stands still while the thread
    waits for the first time, and then passes the deadline. -/
def System.run_out : List (Choice Nat) :=
  receives (.recv_timeout ⟨1⟩ ⟨3⟩) 7 1 ++ receiving 6 9

/-- The receiver reads the clock. -/
def Label.clocks : Label T → Bool
  | .receiver (.act ⟨.now, _⟩) => true
  | _ => false

/-- The clock is read three times in it, and the last time it has passed the deadline that
    is counted from the first. -/
theorem System.limited_run_out {b : Behaviour (System.Step (T := Nat))}
    (hlabel : ∀ n, b.label n = ((System.channel Nat fun _ => false).labels System.run_out)[n]?) :
    System.Limited b 0 (.recv_timeout ⟨1⟩ ⟨3⟩) := by
  have hreads {m : Nat} {now : Instant} (h : System.Reads b m now) : m = 1 ∨ m = 6 ∨ m = 10 := by
    have hall : ∀ m < 14, ((System.channel Nat fun _ => false).labels System.run_out)[m]?.any
        Label.clocks = true → m = 1 ∨ m = 6 ∨ m = 10 := by decide
    have hbound : m < 14 := by
      rw [System.Reads, hlabel] at h
      exact (List.getElem?_eq_some_iff.mp h).1
    exact hall m hbound (by rw [← hlabel, h]; rfl)
  have hfirst : System.Reads b 1 ⟨1⟩ := by rw [System.Reads, hlabel]; rfl
  have hlast : System.Reads b 10 ⟨9⟩ := by rw [System.Reads, hlabel]; rfl
  have hsame {m : Nat} {now now' : Instant} (h : System.Reads b m now)
      (h' : System.Reads b m now') : now = now' := by
    rw [System.Reads, h] at h'
    cases h'
    rfl
  rintro m now ⟨hm, hnow, hno⟩
  have hone : m = 1 := by
    by_contra hne
    exact hno 1 ⟨1⟩ (by decide) (by omega) hfirst
  subst hone
  refine ⟨⟨4⟩, by rw [hsame hnow hfirst]; rfl, 7, fun m now hm h => ?_⟩
  obtain rfl | rfl | rfl := hreads h
  · exact absurd hm (by decide)
  · exact absurd hm (by decide)
  · rw [hsame h hlast]
    decide

/-- The receiver returns because the sender was dropped, or its `recv_timeout` runs out while
    the sender does nothing. -/
theorem calls_return_run_out :
    (∃ b : Behaviour (System.Step (T := Nat)), b.state 0 = System.channel Nat (fun _ => false) ∧
      b.label 0 = some (.receiver (.call (.recv ⟨1⟩))) ∧ Returning b ∧
      ∃ m v, 0 < m ∧ b.label m = some (.receiver (.ret (.recv ⟨1⟩) v))) ∧
    ∃ b : Behaviour (System.Step (T := Nat)), b.state 0 = System.channel Nat (fun _ => false) ∧
      b.label 0 = some (.receiver (.call (.recv_timeout ⟨1⟩ ⟨3⟩))) ∧ Returning b ∧
      (∀ n l, b.label n = some l → l.ofSender = false) ∧
      b.label 13 = some (.receiver (.ret (.recv_timeout ⟨1⟩ ⟨3⟩) (.recv_timeout (.error .Timeout)))) ∧
      ∃ m v, 0 < m ∧ b.label m = some (.receiver (.ret (.recv_timeout ⟨1⟩ ⟨3⟩) v)) := by
  constructor
  · obtain ⟨b, hstart, hlabel, hend⟩ := Run.exists_behaviour
      (@System.run_of_play Nat (System.channel Nat fun _ => false) System.dropped_on (by decide))
    have hcall : b.label 0 = some (.receiver (.call (.recv ⟨1⟩))) := by rw [hlabel]; rfl
    have hreturning : Returning b :=
      calls_return ⟨_, .inl hstart⟩ (System.fair_of_rest hend rfl rfl)
    have hacts : System.SenderActs b := ⟨5, .drop, by rw [hlabel]; rfl, .inl rfl⟩
    exact ⟨b, hstart, hcall, hreturning, hreturning.receiver 0 _ hcall (.inl hacts)⟩
  · obtain ⟨b, hstart, hlabel, hend⟩ := Run.exists_behaviour
      (@System.run_of_play Nat (System.channel Nat fun _ => false) System.run_out (by decide))
    have hcall : b.label 0 = some (.receiver (.call (.recv_timeout ⟨1⟩ ⟨3⟩))) := by rw [hlabel]; rfl
    have hreturning : Returning b :=
      calls_return ⟨_, .inl hstart⟩ (System.fair_of_rest hend rfl rfl)
    have hidle (n : Nat) (l : Label Nat) (hl : b.label n = some l) : l.ofSender = false := by
      rw [hlabel] at hl
      have hall : ∀ l ∈ (System.channel Nat fun _ => false).labels System.run_out,
          l.ofSender = false := by decide
      exact hall l (List.mem_of_getElem? hl)
    have hlimited : System.Limited b 0 (.recv_timeout ⟨1⟩ ⟨3⟩) := System.limited_run_out hlabel
    refine ⟨b, hstart, hcall, hreturning, hidle, by rw [hlabel]; rfl, ?_⟩
    exact hreturning.receiver 0 _ hcall (.inr hlimited)

end oneshot
