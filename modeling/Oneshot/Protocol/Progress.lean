import Oneshot.Protocol.Roles
import Oneshot.Receiver

open conc

namespace oneshot.Receiver

variable {T : Type}

/-- What a call of the receiving side comes to, whichever method it is: the
    channel was still open, the message, the end of the channel, or the
    receiver's own departure. -/
inductive Outcome (T : Type) where
  | open
  | message (message : T)
  | disconnected
  | dropped

def tryRecvOutcome : Except TryRecvError T → Outcome T
  | .ok message => .message message
  | .error .Empty => .open
  | .error .Disconnected => .disconnected

def recvOutcome : Except RecvError T → Outcome T
  | .ok message => .message message
  | .error _ => .disconnected

def timeoutOutcome : Except RecvTimeoutError T → Outcome T
  | .ok message => .message message
  | .error .Timeout => .open
  | .error .Disconnected => .disconnected

def pollOutcome : Poll (Except RecvError T) → Outcome T
  | .Pending => .open
  | .Ready (.ok message) => .message message
  | .Ready (.error _) => .disconnected

/-- The outcome a returned value reports. The observers and `into_future` report
    none. -/
def outcome : Call → Ret T → Option (Outcome T)
  | .try_recv, .try_recv result => some (tryRecvOutcome result)
  | .recv _, .recv result => some (recvOutcome result)
  | .recv_ref _, .recv result => some (recvOutcome result)
  | .recv_timeout _ _, .recv_timeout result => some (timeoutOutcome result)
  | .recv_deadline _ _, .recv_timeout result => some (timeoutOutcome result)
  | .poll _, .poll result => some (pollOutcome result)
  | .drop, .done => some .dropped
  | .async_drop, .done => some .dropped
  | _, _ => none

/-- The calls that only look at the channel. -/
def Call.observes : Call → Bool
  | .is_closed | .has_message | .async_is_closed | .async_has_message => true
  | _ => false

/-- A call that reads `v` from the state takes effect there if `v` ends the
    channel. Reading `EMPTY` settles a `try_recv` only: every other method goes on
    to store its waker. -/
def loadPoint (c : Call) (v : UInt8) : Option (Outcome T) :=
  if c = .async_drop ∨ c.observes then none
  else if v = DISCONNECTED then some .disconnected
  else if v = EMPTY ∧ c = .try_recv then some .open
  else none

/-- A destructor takes effect at its swap to `DISCONNECTED`, and a time-out at the
    one that takes back `RECEIVING`. -/
def swapPoint (val v : UInt8) : Option (Outcome T) :=
  if val = DISCONNECTED then some .dropped
  else if v = DISCONNECTED then some .disconnected
  else if val = EMPTY ∧ v = RECEIVING then some .open
  else none

/-- A poll takes effect where it enters `RECEIVING`, or where it finds the sender
    at work. -/
def exchangePoint (c : Call) (new : UInt8) : Except UInt8 UInt8 → Option (Outcome T)
  | .ok _ => if new = RECEIVING then some .open else none
  | .error v =>
    if c = .async_drop then none
    else if v = DISCONNECTED then some .disconnected
    else if v = UNPARKING then some .open
    else none

/-- The access at which a call takes effect. -/
def point (c : Call) : (interface T).Action → Option (Outcome T)
  | ⟨.take_message, message⟩ => some (.message message)
  | ⟨.load _, v⟩ => loadPoint c v
  | ⟨.swap val _, v⟩ => swapPoint val v
  | ⟨.compare_exchange _ new _ _, v⟩ => exchangePoint c new v
  | _ => none

/-- How far the call in progress is: the outcome it has settled on, and the
    waker it has woken itself. -/
structure Progress (T : Type) where
  settled : Option (Outcome T)
  woke : Option Waker

/-- The waker a call stores: its thread's handle, or the waker of its context. -/
def Call.waker : Call → Option ReceiverWaker
  | .recv current | .recv_ref current => some (.Thread current)
  | .recv_timeout current _ | .recv_deadline current _ => some (.Thread current)
  | .poll cx => some (.Task cx)
  | _ => none

/-- The outcomes a call may have. -/
def Call.allows : Call → Outcome T → Bool
  | .drop, .dropped | .async_drop, .dropped => true
  | .drop, _ | .async_drop, _ => false
  | .is_closed, _ | .has_message, _ | .async_is_closed, _ | .async_has_message, _ => false
  | .into_future, _ => false
  | .recv _, .open | .recv_ref _, .open => false
  | _, .dropped => false
  | _, _ => true

/-- The calls that only enter and leave `RECEIVING` by comparing. -/
def Call.polls : Call → Bool
  | .poll _ => true
  | _ => false

/-- An observer makes no access but a look at the state. The state is overwritten
    only with `DISCONNECTED`, and a `poll` makes no swap and wakes no waker but its
    own. -/
def Call.makes (c : Call) : Access T → Bool
  | .load _ => true
  | .store val _ => val = DISCONNECTED && !c.observes
  | .swap _ _ => !c.observes && !c.polls
  | .wake_by_ref cx => c = .poll cx
  | _ => !c.observes

/-- A call settles at most once, and on an outcome it may have. It stores no waker
    but its own, and drops the message only in a destructor. -/
def Progress.follow (c : Call) (g : Progress T) : (interface T).Action → Option (Progress T)
  | ⟨.write_waker waker, _⟩ => if c.waker = some waker then some g else none
  | ⟨.wake_by_ref waker, _⟩ => some { g with woke := some waker }
  | ⟨.drop_message, _⟩ => match g.settled with
    | some .dropped => some g
    | _ => none
  | α => match point c α, g.settled with
    | none, _ => some g
    | some o, none => if c.allows o then some { g with settled := some o } else none
    | some _, some _ => none

def Progress.advance (c : Call) (g : Progress T) (α : (interface T).Action) :
    Option (Progress T) :=
  if c.makes α.access then g.follow c α else none

theorem Progress.follow_of_advance {c : Call} {g g' : Progress T} {α : (interface T).Action}
    (htrack : Progress.advance c g α = some g') :
    c.makes α.access = true ∧ g.follow c α = some g' := by
  simpa only [Progress.advance, Option.ite_none_right_eq_some] using htrack

/-- An access settles a call at its point, and leaves it as far as it is
    elsewhere. -/
theorem Progress.advance_settled {c : Call} {g g' : Progress T} {α : (interface T).Action}
    (htrack : Progress.advance c g α = some g') :
    (point c α = none ∧ g'.settled = g.settled) ∨
      ∃ o, point c α = some o ∧ c.allows o = true ∧ g.settled = none ∧ g'.settled = some o := by
  obtain ⟨_, htrack⟩ := Progress.follow_of_advance htrack
  unfold Progress.follow at htrack
  split at htrack
  · obtain ⟨_, ⟨⟩⟩ := Option.ite_none_right_eq_some.mp htrack
    exact .inl ⟨rfl, rfl⟩
  · cases htrack
    exact .inl ⟨rfl, rfl⟩
  · split at htrack <;> cases htrack
    exact .inl ⟨rfl, rfl⟩
  · split at htrack
    case h_1 hpoint =>
      cases htrack
      exact .inl ⟨hpoint, rfl⟩
    case h_2 o hpoint hsettled =>
      obtain ⟨hallows, ⟨⟩⟩ := Option.ite_none_right_eq_some.mp htrack
      exact .inr ⟨o, hpoint, hallows, hsettled, rfl⟩
    case h_3 => cases htrack

/-- An access by which a call wakes a waker is remembered. -/
theorem Progress.advance_woke {c : Call} {g g' : Progress T} {α : (interface T).Action}
    (htrack : Progress.advance c g α = some g') :
    g'.woke = g.woke ∨ ∃ waker, α = ⟨.wake_by_ref waker, ()⟩ ∧ g'.woke = some waker := by
  obtain ⟨_, htrack⟩ := Progress.follow_of_advance htrack
  unfold Progress.follow at htrack
  split at htrack
  · obtain ⟨_, ⟨⟩⟩ := Option.ite_none_right_eq_some.mp htrack
    exact .inl rfl
  · cases htrack
    exact .inr ⟨_, rfl, rfl⟩
  · split at htrack <;> cases htrack
    exact .inl rfl
  · split at htrack
    · cases htrack
      exact .inl rfl
    · obtain ⟨_, ⟨⟩⟩ := Option.ite_none_right_eq_some.mp htrack
      exact .inl rfl
    · cases htrack

/-- A call stores its own waker only. -/
theorem Progress.waker_of_write {c : Call} {g g' : Progress T} {waker : ReceiverWaker}
    (htrack : Progress.advance c g ⟨.write_waker waker, ()⟩ = some g') : c.waker = some waker := by
  obtain ⟨_, htrack⟩ := Progress.follow_of_advance htrack
  exact (Option.ite_none_right_eq_some.mp htrack).1

/-- Only a destructor that has taken effect drops the message. -/
theorem Progress.dropped_of_drop {c : Call} {g g' : Progress T}
    (htrack : Progress.advance c g ⟨.drop_message, ()⟩ = some g') : g.settled = some .dropped := by
  obtain ⟨_, htrack⟩ := Progress.follow_of_advance htrack
  simp only [Progress.follow] at htrack
  split at htrack
  case h_1 hsettled => exact hsettled
  case h_2 => cases htrack

/-- An observer only looks at the state. -/
theorem Call.makes_of_observes {c : Call} (hc : c.observes = true) {a : Access T}
    (hmakes : c.makes a = true) : ∃ order, a = .load order := by
  cases a with
  | load order => exact ⟨order, rfl⟩
  | wake_by_ref cx =>
    obtain rfl : c = .poll cx := by simpa [Call.makes] using hmakes
    cases hc
  | _ => simp [Call.makes, hc] at hmakes

/-- The channel is left as a later call may find it: with its message and what the
    sender released still in it, or with nothing left to synchronise with but what
    the state byte carries. -/
def Owned.AtRest (x : Owned T) : Prop :=
  x.waker = none ∧ ((x.state = MESSAGE ∧ x.message.isFull = true ∧ x.intact = true) ∨
    (x.state = DISCONNECTED ∧ x.message.isFull = false ∧ (x.intact = true ∨ x.seen ≠ .relaxed)))

/-- A look at the state leaves the channel at rest. -/
theorem Owned.AtRest.read {x : Owned T} (hx : x.AtRest) (order : MemOrder) :
    (x.read order).AtRest := by
  obtain ⟨hwaker, hmessage | ⟨hstate, hfull, hseen⟩⟩ := hx
  · exact ⟨hwaker, .inl hmessage⟩
  · refine ⟨hwaker, .inr ⟨hstate, hfull, hseen.imp id fun hseen => ?_⟩⟩
    simp only [Owned.read]
    split
    · exact Seen.noConfusion
    · exact hseen

/-- The roles in which each handle is held between calls. -/
def Ready : Handle → Role T → Prop
  | .receiver, .idle | .async_receiver, .idle => True
  | .receiver, .own x | .async_receiver, .own x => x.AtRest
  | .async_receiver, .waiting (.Task _) | .async_receiver, .caught (.Task _) => True
  | .gone, .left | .gone, .abandoned _ | .gone, .released _ _ => True
  | _, _ => False

@[simp] theorem ready_receiver_idle : Ready .receiver (.idle : Role T) := trivial
@[simp] theorem ready_receiver_own {x : Owned T} : Ready .receiver (.own x) ↔ x.AtRest := Iff.rfl
@[simp] theorem ready_async_own {x : Owned T} : Ready .async_receiver (.own x) ↔ x.AtRest := Iff.rfl
@[simp] theorem ready_async_caught {waker : Waker} :
    Ready .async_receiver (.caught (.Task waker) : Role T) := trivial
@[simp] theorem ready_gone_left : Ready .gone (.left : Role T) := trivial
@[simp] theorem ready_gone_abandoned {waker : ReceiverWaker} :
    Ready .gone (.abandoned waker : Role T) := trivial
@[simp] theorem ready_gone_released {message : Content T} {seen : Seen} :
    Ready .gone (.released message seen) := trivial

/-- A call returns with the outcome it has settled on, and leaves handle `h`. -/
def Settles {α : Type} (out : α → Outcome T) (h : Handle) (v : α) (r : Role T) (g : Progress T) :
    Prop :=
  Ready h r ∧ g.settled = some (out v)

@[simp] theorem settles_iff {α : Type} {out : α → Outcome T} {h : Handle} {v : α} {r : Role T}
    {g : Progress T} : Settles out h v r g ↔ Ready h r ∧ g.settled = some (out v) := Iff.rfl

/-- What the answer of an observer says about the channel. -/
def Observed (answer : Bool) (state : UInt8) (r : Role T) : Prop :=
  answer = true → ∃ x, r = .own x ∧ x.state = state

/-- A `poll` that is pending has stored its waker, or has woken it because the
    sender holds an older one. -/
def Registered (cx : Waker) (r : Role T) (g : Progress T) : Prop :=
  r = .waiting (.Task cx) ∨ ∃ waker, r = .caught (.Task waker) ∧ g.woke = some cx

/-- What a call that returns `v` has done. -/
def Post (c : Call) (v : Ret T) (r : Role T) (g : Progress T) : Prop :=
  Ready ((receiver T).after c v) r ∧
  match c, v with
  | .is_closed, .observed answer | .async_is_closed, .observed answer =>
    g.settled = none ∧ Observed answer DISCONNECTED r
  | .has_message, .observed answer | .async_has_message, .observed answer =>
    g.settled = none ∧ Observed answer MESSAGE r
  | .into_future, .done => g.settled = none
  | .recv _, .recv result =>
    (∃ content, r = .released content .final) ∧ g.settled = some (recvOutcome result)
  | .poll cx, .poll .Pending => g.settled = some .open ∧ Registered cx r g
  | _, _ => ∃ o, outcome c v = some o ∧ g.settled = some o

/-- A call settles on the outcome it returns, and an observer on none. -/
theorem Post.settled {c : Call} {v : Ret T} {r : Role T} {g : Progress T} (hpost : Post c v r g) :
    g.settled = outcome c v := by
  obtain ⟨_, hpost⟩ := hpost
  split at hpost
  case h_6 => exact hpost.2
  case h_8 =>
    obtain ⟨o, houtcome, hsettled⟩ := hpost
    rw [houtcome, hsettled]
  all_goals first | exact hpost.1 | exact hpost

end oneshot.Receiver
