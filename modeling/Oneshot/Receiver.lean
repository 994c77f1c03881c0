import Oneshot.Conc.Endpoint
import Oneshot.Errors

open conc

namespace oneshot

variable {T : Type}

def Receiver.try_recv : Code T (Except TryRecvError T) := do
  match State.of (← state.load .Relaxed) with
  | .MESSAGE =>
    state.store DISCONNECTED .Relaxed
    fence .Acquire
    return .ok (← Channel.take_message)
  | .EMPTY => return .error .Empty
  | .DISCONNECTED => return .error .Disconnected
  | _ => .unreachable

/-- `recv` with its waker stored: park until the sender has changed the state. -/
def Receiver.recv_loop (current : Thread) : Code T (Except RecvError T) := .loop do
  thread.park current
  match State.of (← state.load .Acquire) with
  | .MESSAGE =>
    let message ← Channel.take_message
    dealloc
    return some (.ok message)
  | .DISCONNECTED =>
    dealloc
    return some (.error {})
  -- State did not change, spurious wakeup, park again.
  | .RECEIVING | .UNPARKING => return none
  | _ => .unreachable

/-- `recv`, called on thread `current`. It consumes the receiver, so every exit
    frees the channel. -/
def Receiver.recv (current : Thread) : Code T (Except RecvError T) := do
  match State.of (← state.load .Relaxed) with
  -- The sender is alive but has not sent anything yet. We prepare to park.
  | .EMPTY =>
    Channel.write_waker (.current_thread current)
    match State.of (← state.swap RECEIVING .Release) with
    | .EMPTY => recv_loop current
    -- The sender sent the message while we prepared to park.
    | .MESSAGE =>
      Channel.drop_waker
      fence .Acquire
      let message ← Channel.take_message
      dealloc
      return .ok message
    | .DISCONNECTED =>
      Channel.drop_waker
      fence .Acquire
      dealloc
      return .error {}
    | _ => .unreachable
  -- The sender already sent the message.
  | .MESSAGE =>
    fence .Acquire
    let message ← Channel.take_message
    dealloc
    return .ok message
  -- The sender was dropped, or we already received the message.
  | .DISCONNECTED =>
    fence .Acquire
    dealloc
    return .error {}
  | _ => .unreachable

/-- Begins to receive by reference, and hands over to `finish` once the waker is
    stored and the state is `RECEIVING`. -/
def Receiver.start_recv_ref {E : Type} (current : Thread) (disconnected_error : E)
    (finish : Code T (Except E T)) : Code T (Except E T) := do
  match State.of (← state.load .Acquire) with
  | .EMPTY =>
    Channel.write_waker (.current_thread current)
    match State.of (← state.swap RECEIVING .Release) with
    | .EMPTY => finish
    -- The sender sent the message while we prepared to finish.
    | .MESSAGE =>
      Channel.drop_waker
      state.store DISCONNECTED .Relaxed
      fence .Acquire
      return .ok (← Channel.take_message)
    | .DISCONNECTED =>
      Channel.drop_waker
      state.store DISCONNECTED .Relaxed
      fence .Acquire
      return .error disconnected_error
    | _ => .unreachable
  | .MESSAGE =>
    state.store DISCONNECTED .Relaxed
    return .ok (← Channel.take_message)
  | .DISCONNECTED => return .error disconnected_error
  | _ => .unreachable

def Receiver.recv_ref_loop (current : Thread) : Code T (Except RecvError T) := .loop do
  thread.park current
  match State.of (← state.load .Acquire) with
  | .MESSAGE =>
    state.store DISCONNECTED .Relaxed
    return some (.ok (← Channel.take_message))
  | .DISCONNECTED => return some (.error {})
  | .RECEIVING | .UNPARKING => return none
  | _ => .unreachable

def Receiver.recv_ref (current : Thread) : Code T (Except RecvError T) :=
  start_recv_ref current {} (recv_ref_loop current)

/-- Waits for the sender's final state after a time-out inside its `UNPARKING`
    window. -/
def Receiver.wait_for_unpark (current : Thread) : Code T (Except RecvTimeoutError T) := .loop do
  thread.park current
  match State.of (← state.load .Relaxed) with
  | .MESSAGE =>
    state.store DISCONNECTED .Relaxed
    return some (.ok (← Channel.take_message))
  | .DISCONNECTED => return some (.error .Disconnected)
  -- The sender is still unparking us. The time-out eagerly stored `EMPTY`.
  | .EMPTY => return none
  | _ => .unreachable

def Receiver.recv_deadline_loop (current : Thread) (deadline : Instant) :
    Code T (Except RecvTimeoutError T) := .loop do
  match deadline.checked_duration_since (← Instant.now) with
  | some timeout =>
    thread.park_timeout current timeout
    match State.of (← state.load .Acquire) with
    | .MESSAGE =>
      state.store DISCONNECTED .Relaxed
      return some (.ok (← Channel.take_message))
    | .DISCONNECTED => return some (.error .Disconnected)
    | .RECEIVING | .UNPARKING => return none
    | _ => .unreachable
  | none =>
    match State.of (← state.swap EMPTY .Acquire) with
    -- We reached the end of the timeout without receiving a message.
    | .RECEIVING =>
      Channel.drop_waker
      return some (.error .Timeout)
    | .MESSAGE =>
      state.store DISCONNECTED .Relaxed
      return some (.ok (← Channel.take_message))
    | .DISCONNECTED =>
      state.store DISCONNECTED .Relaxed
      return some (.error .Disconnected)
    -- The sender sent the message and started unparking us.
    | .UNPARKING => return some (← wait_for_unpark current)
    | _ => .unreachable

def Receiver.recv_deadline (current : Thread) (deadline : Instant) :
    Code T (Except RecvTimeoutError T) :=
  start_recv_ref current .Disconnected (recv_deadline_loop current deadline)

def Receiver.recv_timeout (current : Thread) (timeout : Duration) :
    Code T (Except RecvTimeoutError T) := do
  match (← Instant.now).checked_add timeout with
  | some deadline => recv_deadline current deadline
  | none => return (← recv_ref current).mapError fun _ => .Disconnected

def Receiver.is_closed : Code T Bool := do
  return (← state.load .Relaxed) == DISCONNECTED

def Receiver.has_message : Code T Bool := do
  return (← state.load .Acquire) == MESSAGE

def Receiver.drop : Code T Unit := do
  match State.of (← state.swap DISCONNECTED .AcqRel) with
  -- The sender is responsible for deallocating the channel.
  | .EMPTY => return ()
  | .MESSAGE =>
    Channel.drop_message
    dealloc
  | .DISCONNECTED => dealloc
  | _ => .unreachable

inductive Poll (α : Type) where
  | Ready (value : α)
  | Pending

/-- The channel must hold no waker, and its state must be neither `RECEIVING`
    nor `UNPARKING`. -/
def Channel.write_async_waker (cx : Waker) : Code T (Poll (Except RecvError T)) := do
  Channel.write_waker (← ReceiverWaker.task_waker cx)
  match (← state.compare_exchange EMPTY RECEIVING .Release .Relaxed).mapError State.of with
  -- We stored our waker, now we return and let the sender wake us up.
  | .ok _ => return .Pending
  | .error .MESSAGE =>
    Channel.drop_waker
    state.store DISCONNECTED .Relaxed
    fence .Acquire
    return .Ready (.ok (← Channel.take_message))
  | .error .DISCONNECTED =>
    Channel.drop_waker
    return .Ready (.error {})
  | _ => .unreachable

/-- The sender is reading the waker of a previous poll. We spin until it is
    done. -/
def AsyncReceiver.poll_loop : Code T (Poll (Except RecvError T)) := .loop do
  hint.spin_loop
  match State.of (← state.load .Relaxed) with
  | .MESSAGE =>
    state.store DISCONNECTED .Relaxed
    fence .Acquire
    return some (.Ready (.ok (← Channel.take_message)))
  | .DISCONNECTED => return some (.Ready (.error {}))
  | .UNPARKING => return none
  | _ => .unreachable

/-- `poll`, with the waker of its context. -/
def AsyncReceiver.poll (cx : Waker) : Code T (Poll (Except RecvError T)) := do
  match State.of (← state.load .Relaxed) with
  | .EMPTY => Channel.write_async_waker cx
  -- We were polled again while waiting for the sender. Replace the waker.
  | .RECEIVING =>
    match (← state.compare_exchange RECEIVING EMPTY .Relaxed .Relaxed).mapError State.of with
    | .ok _ =>
      Channel.drop_waker
      Channel.write_async_waker cx
    -- The sender has sent the message, and has already taken the waker.
    | .error .MESSAGE =>
      state.store DISCONNECTED .Relaxed
      fence .Acquire
      return .Ready (.ok (← Channel.take_message))
    | .error .DISCONNECTED => return .Ready (.error {})
    -- The sender has the old waker. We wake ourselves to be polled again.
    | .error .UNPARKING =>
      cx.wake_by_ref
      return .Pending
    | _ => .unreachable
  | .MESSAGE =>
    state.store DISCONNECTED .Relaxed
    fence .Acquire
    return .Ready (.ok (← Channel.take_message))
  | .DISCONNECTED => return .Ready (.error {})
  | .UNPARKING => poll_loop
  | _ => .unreachable

def AsyncReceiver.is_closed : Code T Bool := do
  return (← state.load .Relaxed) == DISCONNECTED

def AsyncReceiver.has_message : Code T Bool := do
  return (← state.load .Acquire) == MESSAGE

/-- The first step of the destructor: if the channel is `RECEIVING`, leave that
    state and drop the waker a previous poll stored. -/
def AsyncReceiver.stop_receiving : Code T Unit := do
  if (← state.load .Relaxed) = RECEIVING then
    match ← state.compare_exchange RECEIVING EMPTY .Relaxed .Relaxed with
    | .ok _ => Channel.drop_waker
    | .error _ => return ()

/-- The sender is reading the waker. We spin until we see its final state. -/
def AsyncReceiver.drop_loop : Code T Unit := .loop do
  hint.spin_loop
  match State.of (← state.load .Relaxed) with
  | .MESSAGE =>
    Channel.drop_message
    return some ()
  | .DISCONNECTED => return some ()
  | .UNPARKING => return none
  | _ => .unreachable

def AsyncReceiver.drop : Code T Unit := do
  stop_receiving
  match State.of (← state.swap DISCONNECTED .AcqRel) with
  -- The sender is responsible for deallocating the channel.
  | .EMPTY => return ()
  | .MESSAGE =>
    Channel.drop_message
    dealloc
  | .DISCONNECTED => dealloc
  | .UNPARKING =>
    drop_loop
    fence .Acquire
    dealloc
  | _ => .unreachable

/-- What the receiving side holds: a `Receiver`, the `AsyncReceiver` it was
    turned into, or nothing any more. -/
inductive Receiver.Handle where
  | receiver
  | async_receiver
  | gone
  deriving DecidableEq

/-- The calls of the receiving side. The blocking ones say which thread makes
    them. -/
inductive Receiver.Call where
  | try_recv
  | recv (current : Thread)
  | recv_ref (current : Thread)
  | recv_timeout (current : Thread) (timeout : Duration)
  | recv_deadline (current : Thread) (deadline : Instant)
  | is_closed
  | has_message
  | drop
  | into_future
  | poll (cx : Waker)
  | async_is_closed
  | async_has_message
  | async_drop
  deriving DecidableEq

inductive Receiver.Ret (T : Type) where
  | try_recv (result : Except TryRecvError T)
  | recv (result : Except RecvError T)
  | recv_timeout (result : Except RecvTimeoutError T)
  | poll (result : Poll (Except RecvError T))
  | observed (answer : Bool)
  | done

/-- The receiving side as an endpoint. `into_future` makes no access: it only
    moves the channel pointer from one handle to the other. -/
def receiver (T : Type) : Endpoint (interface T) where
  Handle := Receiver.Handle
  Call := Receiver.Call
  Ret := Receiver.Ret T
  accepts
    | .receiver, .try_recv | .receiver, .recv _ | .receiver, .recv_ref _ => true
    | .receiver, .recv_timeout _ _ | .receiver, .recv_deadline _ _ => true
    | .receiver, .is_closed | .receiver, .has_message | .receiver, .drop => true
    | .receiver, .into_future => true
    | .async_receiver, .poll _ | .async_receiver, .async_is_closed => true
    | .async_receiver, .async_has_message | .async_receiver, .async_drop => true
    | _, _ => false
  code
    | .try_recv => do return .try_recv (← Receiver.try_recv)
    | .recv current => do return .recv (← Receiver.recv current)
    | .recv_ref current => do return .recv (← Receiver.recv_ref current)
    | .recv_timeout current timeout => do
      return .recv_timeout (← Receiver.recv_timeout current timeout)
    | .recv_deadline current deadline => do
      return .recv_timeout (← Receiver.recv_deadline current deadline)
    | .is_closed => do return .observed (← Receiver.is_closed)
    | .has_message => do return .observed (← Receiver.has_message)
    | .drop => do
      Receiver.drop
      return .done
    | .into_future => return .done
    | .poll cx => do return .poll (← AsyncReceiver.poll cx)
    | .async_is_closed => do return .observed (← AsyncReceiver.is_closed)
    | .async_has_message => do return .observed (← AsyncReceiver.has_message)
    | .async_drop => do
      AsyncReceiver.drop
      return .done
  after
    | .recv _, _ | .drop, _ | .async_drop, _ => .gone
    | .into_future, _ | .poll _, _ => .async_receiver
    | .async_is_closed, _ | .async_has_message, _ => .async_receiver
    | _, _ => .receiver

end oneshot
