import Oneshot.Conc.Endpoint
import Oneshot.Errors

open conc

namespace oneshot

variable {T : Type}

def Sender.send (message : T) : Code T (Except SendError Unit) := do
  Channel.write_message message
  match State.of (← state.fetch_add 1 .AcqRel) with
  -- The receiver is alive and has not started waiting.
  | .EMPTY => return .ok ()
  -- The receiver is waiting. It is woken only after the final state is written.
  | .RECEIVING =>
    let waker ← Channel.take_waker
    let _ ← state.swap MESSAGE .AcqRel
    waker.unpark
    return .ok ()
  -- The receiver was already dropped. The error is responsible for freeing.
  | .DISCONNECTED => return .error {}
  | _ => .unreachable

def Sender.is_closed : Code T Bool := do
  return (← state.load .Relaxed) == DISCONNECTED

def Sender.drop : Code T Unit := do
  match State.of (← state.fetch_xor 0b001 .AcqRel) with
  -- The receiver is not waiting, and is now responsible for freeing.
  | .EMPTY => return ()
  | .RECEIVING =>
    let waker ← Channel.take_waker
    let _ ← state.swap DISCONNECTED .AcqRel
    waker.unpark
  -- The receiver was already dropped.
  | .DISCONNECTED => dealloc
  | _ => .unreachable

/-- What the sending side holds: the `Sender`, the `SendError` a failed send
    left it, or nothing any more. -/
inductive Sender.Handle where
  | sender
  | send_error
  | gone
  deriving DecidableEq

inductive Sender.Call (T : Type) where
  | send (message : T)
  | is_closed
  | drop
  | into_inner
  | drop_error

inductive Sender.Ret (T : Type) where
  | send (result : Except SendError Unit)
  | is_closed (closed : Bool)
  | drop
  | into_inner (message : T)
  | drop_error

/-- The sending side as an endpoint. -/
def sender (T : Type) : Endpoint (interface T) where
  Handle := Sender.Handle
  Call := Sender.Call T
  Ret := Sender.Ret T
  accepts
    | .sender, .send _ | .sender, .is_closed | .sender, .drop => true
    | .send_error, .into_inner | .send_error, .drop_error => true
    | _, _ => false
  code
    | .send message => do return .send (← Sender.send message)
    | .is_closed => do return .is_closed (← Sender.is_closed)
    | .drop => do
      Sender.drop
      return .drop
    | .into_inner => do return .into_inner (← SendError.into_inner)
    | .drop_error => do
      SendError.drop
      return .drop_error
  after
    | .is_closed, _ => .sender
    | .send _, .send (.error _) => .send_error
    | _, _ => .gone

end oneshot
