import Oneshot.Properties.Linear
import Oneshot.Properties.Sequential

open conc

namespace oneshot

variable {T : Type}

namespace Label

/-- What the users see of a step is an event of the side that makes it. -/
theorem party_of_event {l : Label T} {e : (atomic T).Event Side} (he : l.event = some e) :
    l.party = some e.client := by
  cases l with
  | sender e' =>
    cases e' with
    | call c =>
      obtain ⟨op, _, rfl⟩ := Option.map_eq_some_iff.mp he
      rfl
    | ret c v =>
      simp only [event] at he
      split at he
      · cases he
        rfl
      · cases he
    | _ => cases he
  | receiver e' =>
    cases e' with
    | call c =>
      obtain ⟨op, _, rfl⟩ := Option.map_eq_some_iff.mp he
      rfl
    | ret c v =>
      simp only [event] at he
      split at he
      · cases he
        rfl
      · cases he
    | _ => cases he
  | stray => cases he

end Label

section

variable {τ τ' : List (Label T)} {σ : System T}

/-- A side sees the same calls and returns in both runs. -/
theorem history_alike (halike : Alike Label.party τ τ') (i : Side) :
    (history τ).filter (fun e => e.client = i) = (history τ').filter fun e => e.client = i := by
  simp only [history, List.filter_filterMap]
  refine halike.filterMap_eq (i := some i) fun l hl => ?_
  cases he : l.event with
  | none => rfl
  | some e =>
    have hne : e.client ≠ i := fun h => hl (h ▸ Label.party_of_event he)
    simp [hne]

end

/-- The calls of both sides are those of an atomic oneshot that is used in some order, which
    each side could have seen. -/
theorem weak_sequentially_consistent {σ₀ σ : WeakSystem T} {τ : List (Label T)}
    (hinitial : σ₀.Initial) (hrun : Run WeakSystem.Step σ₀ τ σ) :
    (atomic T).SequentiallyConsistent (history τ) := by
  obtain ⟨q, hsequential⟩ := WeakProto.sequential_run hinitial hrun
  obtain ⟨τ', hstrong, halike⟩ := hsequential.mirrors
  refine ⟨history τ', ?_, history_alike halike⟩
  obtain ⟨_, hσ, rfl⟩ := hinitial
  obtain ⟨_, _, hsim⟩ := Proto.simulates_initial hσ
  exact (Proto.atomicRun hsim hstrong).linearizable

theorem weak_sequentially_consistent_passed_over :
    (atomic Nat).SequentiallyConsistent
      (history (WeakSystem.labels (.ofSystem (System.channel Nat fun _ => false))
        WeakSystem.passed_over)) :=
  weak_sequentially_consistent ⟨_, ⟨_, .inl rfl⟩, rfl⟩ (WeakSystem.run_of_play (by decide))

end oneshot
