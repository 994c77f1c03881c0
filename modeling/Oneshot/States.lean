import Mathlib.Init

namespace oneshot

/-- The initial channel state. Both endpoints are alive, no message has been
    sent and the receiver is not receiving. -/
def EMPTY : UInt8 := 0b011

/-- A message has been sent, but the receiver has not yet read it. -/
def MESSAGE : UInt8 := 0b100

/-- No message has been sent yet, but the receiver is currently receiving. -/
def RECEIVING : UInt8 := 0b000

/-- The sender has observed `RECEIVING`, and has the waker to itself until it
    moves the state away from here. -/
def UNPARKING : UInt8 := 0b001

/-- One of the endpoints is gone, or the message has been received. -/
def DISCONNECTED : UInt8 := 0b010

/-- The arms of a `match` on the state byte: the five constants, and `other` for
    the wildcard. -/
inductive State where
  | EMPTY
  | MESSAGE
  | RECEIVING
  | UNPARKING
  | DISCONNECTED
  | other
  deriving DecidableEq

def State.of (byte : UInt8) : State :=
  if byte = oneshot.EMPTY then .EMPTY
  else if byte = oneshot.MESSAGE then .MESSAGE
  else if byte = oneshot.RECEIVING then .RECEIVING
  else if byte = oneshot.UNPARKING then .UNPARKING
  else if byte = oneshot.DISCONNECTED then .DISCONNECTED
  else .other

@[simp] theorem State.of_EMPTY : State.of oneshot.EMPTY = .EMPTY := rfl
@[simp] theorem State.of_MESSAGE : State.of oneshot.MESSAGE = .MESSAGE := rfl
@[simp] theorem State.of_RECEIVING : State.of oneshot.RECEIVING = .RECEIVING := rfl
@[simp] theorem State.of_UNPARKING : State.of oneshot.UNPARKING = .UNPARKING := rfl
@[simp] theorem State.of_DISCONNECTED : State.of oneshot.DISCONNECTED = .DISCONNECTED := rfl

@[simp] theorem states_distinct :
    (EMPTY ≠ MESSAGE ∧ EMPTY ≠ RECEIVING ∧ EMPTY ≠ UNPARKING ∧ EMPTY ≠ DISCONNECTED) ∧
    (MESSAGE ≠ EMPTY ∧ MESSAGE ≠ RECEIVING ∧ MESSAGE ≠ UNPARKING ∧ MESSAGE ≠ DISCONNECTED) ∧
    (RECEIVING ≠ EMPTY ∧ RECEIVING ≠ MESSAGE ∧ RECEIVING ≠ UNPARKING ∧ RECEIVING ≠ DISCONNECTED) ∧
    (UNPARKING ≠ EMPTY ∧ UNPARKING ≠ MESSAGE ∧ UNPARKING ≠ RECEIVING ∧ UNPARKING ≠ DISCONNECTED) ∧
    (DISCONNECTED ≠ EMPTY ∧ DISCONNECTED ≠ MESSAGE ∧ DISCONNECTED ≠ RECEIVING ∧
      DISCONNECTED ≠ UNPARKING) := by decide

/-- The values are chosen so that `fetch_add(1)` is the transition of a send.
    The last one is the invalid value a send leaves on a closed channel. -/
@[simp] theorem fetch_add_transitions :
    EMPTY + 1 = MESSAGE ∧ RECEIVING + 1 = UNPARKING ∧ DISCONNECTED + 1 = EMPTY := by decide

/-- The same for `fetch_xor(0b001)` and the drop of the sender. -/
@[simp] theorem fetch_xor_transitions :
    EMPTY ^^^ 0b001 = DISCONNECTED ∧ RECEIVING ^^^ 0b001 = UNPARKING ∧
      DISCONNECTED ^^^ 0b001 = EMPTY := by decide

end oneshot
