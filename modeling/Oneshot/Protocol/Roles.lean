import Oneshot.Conc.Outline
import Oneshot.Channel

open conc

namespace oneshot

variable {T : Type}

/-- What became of the message, as far as the side knows that has the channel to
    itself. -/
inductive Content (T : Type) where
  /-- The sender was dropped without sending. -/
  | absent
  | full
  | taken (message : T)
  | dropped

def Content.isFull : Content T → Bool
  | .full => true
  | _ => false

@[simp] theorem Content.isFull_full : (full : Content T).isFull = true := rfl
@[simp] theorem Content.isFull_absent : (absent : Content T).isFull = false := rfl
@[simp] theorem Content.isFull_taken (message : T) : (taken message).isFull = false := rfl
@[simp] theorem Content.isFull_dropped : (dropped : Content T).isFull = false := rfl

namespace Sender

/-- How far the sending side has come. The option is the message a `send` has
    written, and `none` for the drop of the sender. -/
inductive Role (T : Type) where
  /-- Nothing was written yet. -/
  | fresh
  | wrote (message : T)
  /-- The state was `RECEIVING`: the waker cell is ours. -/
  | unparking (message : Option T)
  | taken (message : Option T) (waker : ReceiverWaker)
  /-- The final state is written, and the waker is still to be woken. -/
  | notify (message : Option T) (waker : ReceiverWaker)
  /-- The channel is left to the receiver. -/
  | finished (message : Option T)
  /-- The receiver was gone: the channel is ours, with the message in it. -/
  | failed (message : T)
  | last (content : Content T)
  | freed (content : Content T)

/-- The state that tells the receiver the outcome. -/
def final : Option T → UInt8
  | some _ => MESSAGE
  | none => DISCONNECTED

@[simp] theorem final_some (message : T) : final (some message) = MESSAGE := rfl
@[simp] theorem final_none : final (none : Option T) = DISCONNECTED := rfl

/-- The read-modify-write with which a sender announces itself: the receiver is
    not waiting, is waiting, or is gone. -/
def announces (message : Option T) (gone : Role T) (v : UInt8) (s' : Role T) : Prop :=
  (v = EMPTY ∧ s' = .finished message) ∨ (v = RECEIVING ∧ s' = .unparking message) ∨
    (v = DISCONNECTED ∧ s' = gone)

/-- What the sender's accesses may be, what they may answer, and where they
    lead. -/
def Role.on : Role T → (a : Access T) → Option (a.Resp → Role T → Prop)
  | .fresh, .load _ => some fun _ s' => s' = .fresh
  | .fresh, .write_message message => some fun _ s' => s' = .wrote message
  | .fresh, .fetch_xor val order =>
    if val = 1 ∧ order = .AcqRel then some (announces none (.last .absent)) else none
  | .wrote message, .fetch_add val order =>
    if val = 1 ∧ order = .AcqRel then some (announces (some message) (.failed message)) else none
  | .unparking message, .take_waker => some fun waker s' => s' = .taken message waker
  | .taken message waker, .swap val order =>
    if val = final message ∧ order = .AcqRel then some fun _ s' => s' = .notify message waker
    else none
  | .notify message waker, .unpark thread =>
    if waker = .Thread thread then some fun _ s' => s' = .finished message else none
  | .notify message waker, .wake task =>
    if waker = .Task task then some fun _ s' => s' = .finished message else none
  | .failed message, .take_message =>
    some fun v s' => v = message ∧ s' = .last (.taken message)
  | .failed _, .drop_message => some fun _ s' => s' = .last .dropped
  | .last content, .dealloc => some fun _ s' => s' = .freed content
  | _, _ => none

/-- The sender never loops. -/
def Role.waits (_ : Role T) : Prop := False

def protocol (T : Type) : Automaton (interface T) := ⟨Role T, Role.on, Role.waits⟩

end Sender

namespace Receiver

/-- How much of the sender's past a receiver has synchronised with: nothing yet,
    its write of the message, or all of it. -/
inductive Seen where
  | relaxed
  | message
  | final
  deriving DecidableEq

/-- The channel of a receiver that has seen the sender's final state, and so has
    the channel to itself. `intact` says that the state byte still carries what
    the sender released. -/
structure Owned (T : Type) where
  state : UInt8
  message : Content T
  waker : Option ReceiverWaker
  seen : Seen
  intact : Bool

/-- A read with `order` synchronises with what the byte still carries. -/
def Owned.read (x : Owned T) (order : MemOrder) : Owned T :=
  { x with seen := if order.acquires && x.intact then .final else x.seen }

/-- What the receiving side knows about the channel. -/
inductive Role (T : Type) where
  /-- There is no waker in the channel. -/
  | idle
  /-- Our waker is in the channel, and the sender does not know. -/
  | armed (waker : ReceiverWaker)
  /-- The state was set to `RECEIVING`, and has to be looked at after a park. -/
  | waiting (waker : ReceiverWaker)
  | woken (waker : ReceiverWaker)
  /-- The state was seen to be `UNPARKING`: the sender has the waker. -/
  | caught (waker : ReceiverWaker)
  /-- A time-out stored `EMPTY` over `UNPARKING`. -/
  | expired (waker : ReceiverWaker)
  | expired_woken (waker : ReceiverWaker)
  /-- A destructor stored `DISCONNECTED` over `UNPARKING`. -/
  | leaving (waker : ReceiverWaker)
  /-- It has read `DISCONNECTED` since, its own or the sender's. -/
  | quitting (waker : ReceiverWaker)
  | abandoned (waker : ReceiverWaker)
  /-- The sender's final state has been seen. -/
  | own (x : Owned T)
  /-- Dropped before the sender was done. -/
  | left
  | released (message : Content T) (seen : Seen)

/-- The answer `v` is a final state of the sender, and the channel is then the
    receiver's. -/
def final (v : UInt8) (own : Content T → Owned T) (r' : Role T) : Prop :=
  (v = MESSAGE ∧ r' = .own (own .full)) ∨ (v = DISCONNECTED ∧ r' = .own (own .absent))

def sees (order : MemOrder) : Seen := if order.acquires then .final else .relaxed

/-! The accesses of each role, what they may answer, and where they lead. -/

def idleOn : (a : Access T) → Option (a.Resp → Role T → Prop)
  | .load order => some fun (v : UInt8) r' => (v = EMPTY ∧ r' = .idle) ∨
      final v (fun c => ⟨v, c, none, sees order, true⟩) r'
  | .now => some fun _ r' => r' = .idle
  | .clone_waker waker => some fun clone r' => clone = waker ∧ r' = .idle
  | .write_waker waker => some fun _ r' => r' = .armed waker
  | .swap val order =>
    if val = DISCONNECTED ∧ order = .AcqRel then
      some fun (v : UInt8) r' => (v = EMPTY ∧ r' = .left) ∨
        final v (fun c => ⟨DISCONNECTED, c, none, .final, true⟩) r'
    else none
  | _ => none

def armedOn (waker : ReceiverWaker) : (a : Access T) → Option (a.Resp → Role T → Prop)
  | .swap val order =>
    if val = RECEIVING ∧ order = .Release then
      some fun (v : UInt8) r' => (v = EMPTY ∧ r' = .waiting waker) ∨
        final v (fun c => ⟨RECEIVING, c, some waker, .relaxed, true⟩) r'
    else none
  | .compare_exchange current new success failure =>
    if current = EMPTY ∧ new = RECEIVING ∧ success = .Release ∧ failure = .Relaxed then
      some fun (v : Except UInt8 UInt8) r' => (v = .ok EMPTY ∧ r' = .waiting waker) ∨
        ∃ b, v = .error b ∧ final b (fun c => ⟨b, c, some waker, .relaxed, true⟩) r'
    else none
  | .drop_waker => some fun _ r' => r' = .idle
  | _ => none

/-- A blocked thread parks, and looks at the clock. A task looks at the state. -/
def waitingOn : ReceiverWaker → (a : Access T) → Option (a.Resp → Role T → Prop)
  | .Thread current, .now => some fun _ r' => r' = .waiting (.Thread current)
  | .Thread current, .park thread =>
    if thread = current then some fun _ r' => r' = .woken (.Thread current) else none
  | .Thread current, .park_timeout thread _ =>
    if thread = current then some fun _ r' => r' = .woken (.Thread current) else none
  | .Thread current, .swap val order =>
    if val = EMPTY ∧ order = .Acquire then
      some fun (v : UInt8) r' => (v = RECEIVING ∧ r' = .armed (.Thread current)) ∨
        (v = UNPARKING ∧ r' = .expired (.Thread current)) ∨
        final v (fun c => ⟨EMPTY, c, none, .final, true⟩) r'
    else none
  | .Task cx, .load order =>
    some fun (v : UInt8) r' => (v = RECEIVING ∧ r' = .waiting (.Task cx)) ∨
      (v = UNPARKING ∧ r' = .caught (.Task cx)) ∨
      final v (fun c => ⟨v, c, none, sees order, true⟩) r'
  | .Task cx, .compare_exchange current new success failure =>
    if current = RECEIVING ∧ new = EMPTY ∧ success = .Relaxed ∧ failure = .Relaxed then
      some fun (v : Except UInt8 UInt8) r' => (v = .ok RECEIVING ∧ r' = .armed (.Task cx)) ∨
        (v = .error UNPARKING ∧ r' = .caught (.Task cx)) ∨
        ∃ b, v = .error b ∧ final b (fun c => ⟨b, c, none, .relaxed, true⟩) r'
    else none
  | _, _ => none

def wokenOn (waker : ReceiverWaker) : (a : Access T) → Option (a.Resp → Role T → Prop)
  | .load order => some fun (v : UInt8) r' =>
      ((v = RECEIVING ∨ v = UNPARKING) ∧ r' = .waiting waker) ∨
      final v (fun c => ⟨v, c, none, sees order, true⟩) r'
  | _ => none

def caughtOn (waker : ReceiverWaker) : (a : Access T) → Option (a.Resp → Role T → Prop)
  | .load order => some fun (v : UInt8) r' => (v = UNPARKING ∧ r' = .caught waker) ∨
      final v (fun c => ⟨v, c, none, sees order, true⟩) r'
  | .spin_loop => some fun _ r' => r' = .caught waker
  | .wake_by_ref _ => some fun _ r' => r' = .caught waker
  | .swap val order =>
    if val = DISCONNECTED ∧ order = .AcqRel then
      some fun (v : UInt8) r' => (v = UNPARKING ∧ r' = .leaving waker) ∨
        final v (fun c => ⟨DISCONNECTED, c, none, .final, true⟩) r'
    else none
  | _ => none

def expiredOn (waker : ReceiverWaker) : (a : Access T) → Option (a.Resp → Role T → Prop)
  | .park thread =>
    if waker = .Thread thread then some fun _ r' => r' = .expired_woken waker else none
  | _ => none

def expiredWokenOn (waker : ReceiverWaker) : (a : Access T) → Option (a.Resp → Role T → Prop)
  | .load _ => some fun (v : UInt8) r' => (v = EMPTY ∧ r' = .expired waker) ∨
      final v (fun c => ⟨v, c, none, .message, true⟩) r'
  | _ => none

def leavingOn (waker : ReceiverWaker) : (a : Access T) → Option (a.Resp → Role T → Prop)
  | .spin_loop => some fun _ r' => r' = .leaving waker
  | .load _ => some fun (v : UInt8) r' => (v = DISCONNECTED ∧ r' = .quitting waker) ∨
      (v = MESSAGE ∧ r' = .own ⟨MESSAGE, .full, none, .message, true⟩)
  | _ => none

def quittingOn (waker : ReceiverWaker) : (a : Access T) → Option (a.Resp → Role T → Prop)
  | .fence _ => some fun _ r' => r' = .quitting waker
  | .dealloc => some fun _ r' => r' = .abandoned waker
  | _ => none

def Owned.on (x : Owned T) : (a : Access T) → Option (a.Resp → Role T → Prop)
  | .load order =>
    if x.state = MESSAGE ∨ x.state = DISCONNECTED ∧ x.message.isFull = false then
      some fun (v : UInt8) r' => v = x.state ∧ r' = .own (x.read order)
    else none
  | .store val order =>
    if order = .Relaxed ∧ x.state ≠ DISCONNECTED ∧ x.waker.isNone then
      some fun _ r' => r' = .own { x with state := val, intact := false }
    else none
  | .swap val order =>
    if val = DISCONNECTED ∧ order = .AcqRel then
      some fun (v : UInt8) r' => v = x.state ∧ r' = .own { x.read order with state := val }
    else none
  | .fence order =>
    if order = .Acquire then some fun _ r' => r' = .own { x with seen := .final } else none
  | .now => some fun _ r' => r' = .own x
  | .take_message =>
    if x.message.isFull ∧ x.seen ≠ .relaxed ∧ x.waker.isNone then
      some fun message r' => r' = .own { x with message := .taken message }
    else none
  | .drop_message =>
    if x.message.isFull ∧ x.seen ≠ .relaxed then
      some fun _ r' => r' = .own { x with message := .dropped }
    else none
  | .drop_waker =>
    if x.waker.isSome then some fun _ r' => r' = .own { x with waker := none } else none
  | .dealloc =>
    if x.waker.isNone ∧ ¬ x.message.isFull ∧ x.seen ≠ .relaxed ∧
        (x.intact = true → x.seen = .final) then
      some fun _ r' => r' = .released x.message x.seen
    else none
  | _ => none

def Role.on : Role T → (a : Access T) → Option (a.Resp → Role T → Prop)
  | .idle => idleOn
  | .armed waker => armedOn waker
  | .waiting waker => waitingOn waker
  | .woken waker => wokenOn waker
  | .caught waker => caughtOn waker
  | .expired waker => expiredOn waker
  | .expired_woken waker => expiredWokenOn waker
  | .leaving waker => leavingOn waker
  | .quitting waker => quittingOn waker
  | .own x => x.on
  | .abandoned _ | .left | .released _ _ => fun _ => none

/-- The receiver has not seen the sender's final state. -/
def Role.apart : Role T → Bool
  | .idle | .armed _ | .waiting _ | .woken _ | .caught _ | .expired _ | .expired_woken _ => true
  | _ => false

/-- The loops of the receiving side wait for the sender. -/
def Role.waits : Role T → Prop
  | .waiting _ | .caught _ | .expired _ | .leaving _ => True
  | _ => False

def protocol (T : Type) : Automaton (interface T) := ⟨Role T, Role.on, Role.waits⟩

end Receiver

end oneshot
