import Oneshot.Conc.Linearize
import Oneshot.Protocol.Progress
import Oneshot.System

open conc

namespace oneshot

variable {T : Type}

/-! What the channel is for: one message, handed over at one instant. -/

/-- The atomic oneshot. `Closed` is a channel whose sender is gone or whose
    message was taken. -/
inductive Oneshot (T : Type) where
  | Open
  | Full (message : T)
  | Closed
  | ReceiverGone

/-- The operations of the two sides. A receive call is one of the methods that
    may return the message. -/
inductive Oneshot.Op (T : Type) where
  | send (message : T)
  | drop_sender
  | receive (c : Receiver.Call)
  | drop_receiver

/-- The results. `open` is the answer of a receive call that found nothing yet:
    `Empty`, `Timeout` or `Pending`. -/
inductive Oneshot.Res (T : Type) where
  | sent
  | send_error (message : T)
  | message (message : T)
  | disconnected
  | open
  | dropped

/-- The receive calls that have no result while the channel is open. -/
def Receiver.Call.blocks : Receiver.Call → Bool
  | .recv _ | .recv_ref _ => true
  | _ => false

inductive Oneshot.Step : Oneshot T → Op T → Res T → Oneshot T → Prop where
  | send (message : T) : Step .Open (.send message) .sent (.Full message)
  | send_error (message : T) : Step .ReceiverGone (.send message) (.send_error message) .ReceiverGone
  | drop_sender : Step .Open .drop_sender .dropped .Closed
  | drop_sender_last : Step .ReceiverGone .drop_sender .dropped .ReceiverGone
  | receive (c : Receiver.Call) (message : T) :
      Step (.Full message) (.receive c) (.message message) .Closed
  | disconnected (c : Receiver.Call) : Step .Closed (.receive c) .disconnected .Closed
  | open (c : Receiver.Call) (hc : c.blocks = false) : Step .Open (.receive c) .open .Open
  | drop_receiver : Step .Open .drop_receiver .dropped .ReceiverGone
  | drop_receiver_full (message : T) : Step (.Full message) .drop_receiver .dropped .Closed
  | drop_receiver_closed : Step .Closed .drop_receiver .dropped .Closed

/-- The atomic oneshot as an object. -/
abbrev atomic (T : Type) : Atomic where
  State := Oneshot T
  Op := Oneshot.Op T
  Res := Oneshot.Res T
  init := .Open
  step := Oneshot.Step

/-- The operation a call of the sending side is. -/
def Sender.Call.op : Sender.Call T → Option (Oneshot.Op T)
  | .send message => some (.send message)
  | .drop => some .drop_sender
  | _ => none

/-- The operation a call of the receiving side is. An observer is none. -/
def Receiver.Call.op : Receiver.Call → Option (Oneshot.Op T)
  | .drop | .async_drop => some .drop_receiver
  | .is_closed | .has_message | .async_is_closed | .async_has_message | .into_future => none
  | c => some (.receive c)

/-- The result that a returned value of the sending side is. The error of a `send`
    stands for the message, which is still in its cell. -/
def Sender.res : Sender.Call T → Sender.Ret T → Option (Oneshot.Res T)
  | .send _, .send (.ok _) => some .sent
  | .send message, .send (.error _) => some (.send_error message)
  | .drop, .drop => some .dropped
  | _, _ => none

/-- The result that an outcome of the receiving side is. -/
def Receiver.res : Receiver.Outcome T → Oneshot.Res T
  | .open => .open
  | .message message => .message message
  | .disconnected => .disconnected
  | .dropped => .dropped

/-- What a step of the system shows to the users of the channel. -/
def Label.event : Label T → Option ((atomic T).Event Side)
  | .sender (.call c) => c.op.map (.call .sender)
  | .sender (.ret c v) => match c.op, Sender.res c v with
    | some op, some res => some (.ret .sender op res)
    | _, _ => none
  | .receiver (.call c) => c.op.map (.call .receiver)
  | .receiver (.ret c v) => match c.op, Receiver.outcome c v with
    | some op, some o => some (.ret .receiver op (Receiver.res o))
    | _, _ => none
  | _ => none

/-- The calls and returns of a run. -/
def history (τ : List (Label T)) : List ((atomic T).Event Side) := τ.filterMap Label.event

end oneshot
