import Oneshot.Channel

open conc

namespace oneshot

/-- An error of a receiving method that waits until a message is available. -/
structure RecvError where
  deriving DecidableEq

/-- An error of the non-blocking `try_recv`. -/
inductive TryRecvError where
  | Empty
  | Disconnected
  deriving DecidableEq

/-- An error of a receiving method that gives up after a while. -/
inductive RecvTimeoutError where
  | Timeout
  | Disconnected
  deriving DecidableEq

/-- The error of a send on a closed channel. It owns the channel, with the
    message in it. -/
structure SendError where
  deriving DecidableEq

variable {T : Type}

/-- Consumes the error and returns the message that failed to be sent. -/
def SendError.into_inner : Code T T := do
  let message ← Channel.take_message
  dealloc
  return message

def SendError.drop : Code T Unit := do
  Channel.drop_message
  dealloc

end oneshot
