import Mathlib.Data.List.Basic

namespace conc

variable {V : Type*}

/-! A cell with room for one value, and nothing that says whether there is one. -/

inductive CellOp (V : Type*) where
  | put (v : V)
  | take (v : V)
  | drop

/-- What was done with a cell that is filled only while it is empty and emptied
    only while it is full, and what the cell holds after it. -/
inductive CellLog : List (CellOp V) → Option V → Prop where
  | nil : CellLog [] none
  | put {log : List (CellOp V)} (v : V) (hlog : CellLog log none) :
      CellLog (log ++ [.put v]) (some v)
  | take {log : List (CellOp V)} {v : V} (hlog : CellLog log (some v)) :
      CellLog (log ++ [.take v]) none
  | drop {log : List (CellOp V)} {v : V} (hlog : CellLog log (some v)) :
      CellLog (log ++ [.drop]) none

/-- Each value ever put into the cell was consumed exactly once, before the next one
    was put there. -/
inductive Consumed : List (CellOp V) → Prop where
  | nil : Consumed []
  | taken {log : List (CellOp V)} (v : V) (hlog : Consumed log) :
      Consumed (log ++ [.put v, .take v])
  | dropped {log : List (CellOp V)} (v : V) (hlog : Consumed log) :
      Consumed (log ++ [.put v, .drop])

/-- A cell that is full was filled last, and all other values are consumed. -/
theorem CellLog.consumed_or {log : List (CellOp V)} {o : Option V} (hlog : CellLog log o) :
    (o = none ∧ Consumed log) ∨
      ∃ v log', o = some v ∧ log = log' ++ [.put v] ∧ Consumed log' := by
  induction hlog with
  | nil => exact .inl ⟨rfl, .nil⟩
  | @put log v hlog ih =>
    obtain ⟨_, hconsumed⟩ | ⟨_, _, h, _⟩ := ih
    · exact .inr ⟨v, log, rfl, rfl, hconsumed⟩
    · cases h
  | @take log v hlog ih =>
    obtain ⟨h, _⟩ | ⟨_, log', h, rfl, hconsumed⟩ := ih
    · cases h
    · cases h
      rw [List.append_assoc]
      exact .inl ⟨rfl, .taken v hconsumed⟩
  | @drop log v hlog ih =>
    obtain ⟨h, _⟩ | ⟨_, log', h, rfl, hconsumed⟩ := ih
    · cases h
    · cases h
      rw [List.append_assoc]
      exact .inl ⟨rfl, .dropped v hconsumed⟩

theorem CellLog.consumed {log : List (CellOp V)} (hlog : CellLog log none) : Consumed log := by
  obtain ⟨_, hconsumed⟩ | ⟨_, _, h, _⟩ := hlog.consumed_or
  · exact hconsumed
  · cases h

theorem CellLog.last {log : List (CellOp V)} {v : V} (hlog : CellLog log (some v)) :
    log.getLast? = some (.put v) := by
  obtain ⟨h, _⟩ | ⟨v', log', h, rfl, _⟩ := hlog.consumed_or
  · cases h
  · cases h
    exact List.getLast?_concat

end conc
