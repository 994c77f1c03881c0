import Mathlib.Algebra.Group.Nat.Defs
import Oneshot.Conc.Program
import Oneshot.Conc.Order
import Oneshot.States

open conc

namespace oneshot

/-- A `thread::Thread` handle, named by the thread it unparks. -/
structure Thread where
  id : Nat
  deriving DecidableEq

/-- A `task::Waker`, named by the task it wakes. A clone wakes the same task. -/
structure Waker where
  task : Nat
  deriving DecidableEq

inductive ReceiverWaker where
  | Thread (thread : oneshot.Thread)
  | Task (waker : Waker)
  deriving DecidableEq

structure Duration where
  nanos : Nat
  deriving DecidableEq

structure Instant where
  nanos : Nat
  deriving DecidableEq

/-- The last instant with a 64-bit signed count of seconds. -/
def Instant.MAX : Instant := ⟨(2 ^ 63 - 1) * 10 ^ 9 + 999999999⟩

def Instant.checked_add (self : Instant) (duration : Duration) : Option Instant :=
  if self.nanos + duration.nanos ≤ Instant.MAX.nanos then
    some ⟨self.nanos + duration.nanos⟩
  else
    none

def Instant.checked_duration_since (self earlier : Instant) : Option Duration :=
  if earlier.nanos ≤ self.nanos then some ⟨self.nanos - earlier.nanos⟩ else none

/-- The three fields of the heap allocation. A cell is `none` while it holds no
    initialised value: before it is written, and after its value was moved out
    or dropped. -/
structure Channel (T : Type) where
  state : UInt8
  message : Option T
  waker : Option ReceiverWaker

def Channel.new {T : Type} : Channel T := ⟨EMPTY, none, none⟩

/-- The single accesses that the methods of the two endpoints are made of. -/
inductive Access (T : Type) where
  | load (order : MemOrder)
  | store (val : UInt8) (order : MemOrder)
  | swap (val : UInt8) (order : MemOrder)
  | fetch_add (val : UInt8) (order : MemOrder)
  | fetch_xor (val : UInt8) (order : MemOrder)
  | compare_exchange (current new : UInt8) (success failure : MemOrder)
  | fence (order : MemOrder)
  | write_message (message : T)
  | take_message
  | drop_message
  | write_waker (waker : ReceiverWaker)
  | take_waker
  | drop_waker
  | dealloc
  | clone_waker (waker : Waker)
  | wake_by_ref (waker : Waker)
  | wake (waker : Waker)
  | unpark (thread : Thread)
  | park (thread : Thread)
  | park_timeout (thread : Thread) (timeout : Duration)
  | now
  | spin_loop

/-- Why `park` or `park_timeout` returned. The code is not told. -/
inductive Wakeup where
  | unparked
  | spurious
  | elapsed
  deriving DecidableEq

@[reducible] def Access.Resp {T : Type} : Access T → Type
  | .load _ | .swap .. | .fetch_add .. | .fetch_xor .. => UInt8
  | .compare_exchange .. => Except UInt8 UInt8
  | .take_message => T
  | .take_waker => ReceiverWaker
  | .clone_waker _ => Waker
  | .park _ | .park_timeout .. => Wakeup
  | .now => Instant
  | _ => Unit

abbrev interface (T : Type) : Interface := ⟨Access T, Access.Resp⟩

abbrev Code (T α : Type) := Program (interface T) α

variable {T : Type}

/-- One access as code. -/
def access (a : Access T) : Code T a.Resp := .perform (I := interface T) a

def state.load (order : MemOrder) : Code T UInt8 := access (.load order)

def state.store (val : UInt8) (order : MemOrder) : Code T Unit := access (.store val order)

def state.swap (val : UInt8) (order : MemOrder) : Code T UInt8 := access (.swap val order)

def state.fetch_add (val : UInt8) (order : MemOrder) : Code T UInt8 := access (.fetch_add val order)

def state.fetch_xor (val : UInt8) (order : MemOrder) : Code T UInt8 := access (.fetch_xor val order)

def state.compare_exchange (current new : UInt8) (success failure : MemOrder) :
    Code T (Except UInt8 UInt8) := access (.compare_exchange current new success failure)

def fence (order : MemOrder) : Code T Unit := access (.fence order)

def Channel.write_message (message : T) : Code T Unit := access (.write_message message)

def Channel.take_message : Code T T := access .take_message

def Channel.drop_message : Code T Unit := access .drop_message

def Channel.write_waker (waker : ReceiverWaker) : Code T Unit := access (.write_waker waker)

def Channel.take_waker : Code T ReceiverWaker := access .take_waker

def Channel.drop_waker : Code T Unit := access .drop_waker

def dealloc : Code T Unit := access .dealloc

def thread.park (current : Thread) : Code T Unit := do
  let _ ← access (.park current)

def thread.park_timeout (current : Thread) (timeout : Duration) : Code T Unit := do
  let _ ← access (.park_timeout current timeout)

def Instant.now : Code T Instant := access .now

def hint.spin_loop : Code T Unit := access .spin_loop

def Waker.clone (self : Waker) : Code T Waker := access (.clone_waker self)

def Waker.wake_by_ref (self : Waker) : Code T Unit := access (.wake_by_ref self)

def Waker.wake (self : Waker) : Code T Unit := access (.wake self)

def Thread.unpark (self : Thread) : Code T Unit := access (.unpark self)

def ReceiverWaker.current_thread (current : oneshot.Thread) : ReceiverWaker := .Thread current

def ReceiverWaker.task_waker (cx : Waker) : Code T ReceiverWaker := do
  return .Task (← cx.clone)

def ReceiverWaker.unpark : ReceiverWaker → Code T Unit
  | .Thread thread => thread.unpark
  | .Task waker => waker.wake

end oneshot
