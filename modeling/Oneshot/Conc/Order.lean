import Mathlib.Init

namespace conc

/-- The memory orderings an access or a fence may ask for. -/
inductive MemOrder where
  | Relaxed
  | Acquire
  | Release
  | AcqRel
  deriving DecidableEq

def MemOrder.acquires : MemOrder → Bool
  | .Acquire | .AcqRel => true
  | _ => false

def MemOrder.releases : MemOrder → Bool
  | .Release | .AcqRel => true
  | _ => false

end conc
