import Oneshot.Protocol.Keeps
import Oneshot.Protocol.Roles
import Oneshot.Sender

open conc

namespace oneshot.Sender

variable {T : Type}

/-- What the call in progress has read: the message it took back, and the state
    it looked at. -/
structure Progress (T : Type) where
  message : Option T
  state : Option UInt8

open Classical in
/-- A call writes no message but its own, and the accesses that take the sender or
    its error out of the channel belong to one call each. -/
noncomputable def Progress.advance (c : Call T) (g : Progress T) :
    (interface T).Action → Option (Progress T)
  | ⟨.write_message message, _⟩ => if c = .send message then some g else none
  | ⟨.fetch_xor _ _, _⟩ => if c = .drop then some g else none
  | ⟨.take_message, message⟩ => if c = .into_inner then some { g with message } else none
  | ⟨.drop_message, _⟩ => if c = .drop_error then some g else none
  | ⟨.load _, v⟩ => some { g with state := some v }
  | _ => some g

/-- The roles in which each handle is held between calls. -/
def Ready : Handle → Role T → Prop
  | .sender, .fresh => True
  | .send_error, .failed _ => True
  | .gone, .finished _ | .gone, .freed _ => True
  | _, _ => False

/-- What a call that returns `v` has done. -/
def Post : Call T → Ret T → Role T → Progress T → Prop
  | .send message, .send (.ok ()), s, _ => s = .finished (some message)
  | .send message, .send (.error _), s, _ => s = .failed message
  | .is_closed, .is_closed closed, s, g =>
    s = .fresh ∧ (closed = true → g.state = some DISCONNECTED)
  | .drop, .drop, s, _ => s = .finished none ∨ s = .freed .absent
  | .into_inner, .into_inner message, s, g => s = .freed (.taken message) ∧ g.message = some message
  | .drop_error, .drop_error, s, g => s = .freed .dropped ∧ g.message = none
  | _, _, _, _ => False

/-- The code of a call plays the sender's part of the protocol. -/
abbrev Plays {α : Type} (c : Call T) (p : Code T α) (s : Role T) (g : Progress T)
    (Q : α → Role T → Progress T → Prop) : Prop :=
  Keeps Role.on Role.waits (Progress.advance c) p s g Q

attribute [local simp] Makes Role.on announces final Progress.advance or_imp forall_and

theorem unpark_plays {c : Call T} {message : Option T} {waker : ReceiverWaker} {g : Progress T} :
    Plays c waker.unpark (.notify message waker) g fun _ s' _ => s' = .finished message := by
  cases waker with
  | Thread thread => simp [ReceiverWaker.unpark]
  | Task task => simp [ReceiverWaker.unpark]

theorem send_plays {message : T} {g : Progress T} :
    Plays (.send message) (Sender.send message) .fresh g fun result s' _ =>
      match result with
      | .ok _ => s' = .finished (some message)
      | .error _ => s' = .failed message := by
  simp [Sender.send]
  exact fun waker => unpark_plays

theorem is_closed_plays {g : Progress T} :
    Plays .is_closed Sender.is_closed .fresh g fun closed s' g' =>
      s' = .fresh ∧ (closed = true → g'.state = some DISCONNECTED) := by
  simp [Sender.is_closed]

theorem drop_plays {g : Progress T} :
    Plays .drop Sender.drop .fresh g fun _ s' _ =>
      s' = .finished none ∨ s' = .freed .absent := by
  simp [Sender.drop]
  exact fun waker => unpark_plays.mono fun _ _ _ h => .inl h

theorem into_inner_plays {message : T} {g : Progress T} :
    Plays .into_inner SendError.into_inner (.failed message) g fun message s' g' =>
      s' = .freed (.taken message) ∧ g'.message = some message := by
  simp [SendError.into_inner]

theorem drop_error_plays {message : T} {g : Progress T} (hg : g.message = none) :
    Plays .drop_error SendError.drop (.failed message) g fun _ s' g' =>
      s' = .freed .dropped ∧ g'.message = none := by
  simp [SendError.drop, hg]

end oneshot.Sender
