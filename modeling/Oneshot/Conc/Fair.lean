import Mathlib.Data.Nat.Find
import Mathlib.Data.Nat.Init
import Oneshot.Conc.Run

namespace conc

variable {S L : Type*}

/-! Behaviours without an end, and what comes to pass in them when whoever can go on does so
at some time. -/

/-- An infinite behaviour: at every moment one step is made, or none. -/
structure Behaviour (Step : S → L → S → Prop) where
  state : ℕ → S
  label : ℕ → Option L
  step : ∀ n l, label n = some l → Step (state n) l (state (n + 1))
  rest : ∀ n, label n = none → state (n + 1) = state n

namespace Behaviour

variable {Step : S → L → S → Prop} {b : Behaviour Step}

/-- A behaviour of steps that all belong to another step relation is one of that. -/
def mono {Step' : S → L → S → Prop} (hsub : ∀ s l s', Step' s l s' → Step s l s')
    (b : Behaviour Step') : Behaviour Step where
  state := b.state
  label := b.label
  step n l hl := hsub _ _ _ (b.step n l hl)
  rest := b.rest

/-- The labels of the steps made before the moment `n`. -/
def labels (b : Behaviour Step) (n : ℕ) : List L := (List.range n).filterMap b.label

theorem labels_succ (n : ℕ) : b.labels (n + 1) = b.labels n ++ (b.label n).toList := by
  rw [labels, List.range_succ, filterMap_snoc]
  rfl

/-- The steps before a moment are a run, of any step relation that they belong to. -/
theorem run_of {Step' : S → L → S → Prop}
    (hstep : ∀ n l, b.label n = some l → Step' (b.state n) l (b.state (n + 1))) (n : ℕ) :
    Run Step' (b.state 0) (b.labels n) (b.state n) := by
  induction n with
  | zero => exact .nil
  | succ n ih =>
    rw [labels_succ]
    cases hl : b.label n with
    | none =>
      rw [b.rest n hl]
      simpa using ih
    | some l => exact ih.snoc (hstep n l hl)

theorem run (b : Behaviour Step) (n : ℕ) : Run Step (b.state 0) (b.labels n) (b.state n) :=
  run_of b.step n

theorem mem_labels {n : ℕ} {l : L} : l ∈ b.labels n ↔ ∃ m < n, b.label m = some l := by
  simp [labels]

/-- The steps before a moment, cut at one of them. -/
theorem labels_split {n m : ℕ} {l : L} (hnm : n < m) (hl : b.label n = some l) :
    ∃ τ, b.labels m = b.labels n ++ l :: τ ∧
      ∀ l', l' ∈ τ ↔ ∃ i, n < i ∧ i < m ∧ b.label i = some l' := by
  induction m, hnm using Nat.le_induction with
  | base =>
    refine ⟨[], by rw [labels_succ, hl]; rfl, fun l' => ?_⟩
    simp only [List.not_mem_nil, false_iff, not_exists, not_and]
    intro i hi hlt
    omega
  | succ m hm ih =>
    obtain ⟨τ, hτ, hmem⟩ := ih
    refine ⟨τ ++ (b.label m).toList, by simp [labels_succ, hτ], fun l' => ?_⟩
    rw [List.mem_append, hmem, Option.mem_toList]
    constructor
    · rintro (⟨i, hn, hi, hl'⟩ | hl')
      · exact ⟨i, hn, Nat.lt_succ_of_lt hi, hl'⟩
      · exact ⟨m, hm, Nat.lt_succ_self m, hl'⟩
    · rintro ⟨i, hn, hi, hl'⟩
      obtain hlt | rfl := Nat.lt_succ_iff_lt_or_eq.mp hi
      · exact .inl ⟨i, hn, hlt, hl'⟩
      · exact .inr hl'

/-- What every step up to a moment keeps holds at that moment. -/
theorem keeps_until {P : S → Prop} {n m : ℕ} (hnm : n ≤ m) (hn : P (b.state n))
    (hstep : ∀ i l, n ≤ i → i < m → P (b.state i) → b.label i = some l → P (b.state (i + 1))) :
    P (b.state m) := by
  induction m, hnm using Nat.le_induction with
  | base => exact hn
  | succ i hi ih =>
    have hP : P (b.state i) := ih fun j l hj hlt => hstep j l hj (Nat.lt_succ_of_lt hlt)
    cases hl : b.label i with
    | none =>
      rw [b.rest i hl]
      exact hP
    | some l => exact hstep i l hi (Nat.lt_succ_self i) hP hl

/-- What every step keeps is kept from then on. -/
theorem keeps {P : S → Prop} {n m : ℕ} (hnm : n ≤ m) (hn : P (b.state n))
    (hstep : ∀ i l, n ≤ i → P (b.state i) → b.label i = some l → P (b.state (i + 1))) :
    P (b.state m) := keeps_until hnm hn fun i l hi _ => hstep i l hi

/-- What is so at some moment is so for a first time. -/
theorem exists_first {Q : ℕ → Prop} (hQ : ∃ m, Q m) : ∃ m, Q m ∧ ∀ i, i < m → ¬ Q i := by
  classical exact ⟨Nat.find hQ, Nat.find_spec hQ, fun _ hi => Nat.find_min hQ hi⟩

/-- Weak fairness: who is ready from some time on makes a step. -/
def Fair (b : Behaviour Step) (ready : S → Prop) (mine : L → Prop) : Prop :=
  ∀ n, (∀ m, n ≤ m → ready (b.state m)) → ∃ m l, n ≤ m ∧ b.label m = some l ∧ mine l

/-- The rule for what comes to pass: `P k` says that there are at most `k` steps to make up
    to the goal. As long as it holds the one who makes them is ready, and a step of the others
    does not add to their number. -/
theorem Fair.reaches {ready : S → Prop} {mine : L → Prop} {P : ℕ → S → Prop} {G : ℕ → Prop}
    {n k : ℕ} (hfair : b.Fair ready mine) (hn : P k (b.state n))
    (hready : ∀ m k, n ≤ m → P k (b.state m) → ready (b.state m))
    (hstep : ∀ m k l, n ≤ m → P k (b.state m) → b.label m = some l →
      G m ∨ (¬ mine l ∧ P k (b.state (m + 1))) ∨ ∃ k' < k, P k' (b.state (m + 1))) :
    ∃ m, n ≤ m ∧ G m := by
  induction k using Nat.strong_induction_on generalizing n with
  | _ k ih =>
    by_contra hno
    have hfewer {m k' : ℕ} (hm : n ≤ m) (hk' : k' < k) : ¬ P k' (b.state (m + 1)) := by
      intro hP
      have hlater {i : ℕ} (hi : m + 1 ≤ i) : n ≤ i := Nat.le_trans hm (Nat.le_of_succ_le hi)
      obtain ⟨i, hi, hgoal⟩ := ih k' hk' hP (fun i j hi => hready i j (hlater hi))
        fun i j l hi => hstep i j l (hlater hi)
      exact hno ⟨i, hlater hi, hgoal⟩
    have hsame {m : ℕ} {l : L} (hm : n ≤ m) (hP : P k (b.state m)) (hl : b.label m = some l) :
        ¬ mine l ∧ P k (b.state (m + 1)) := by
      obtain hgoal | hother | ⟨k', hk', hP'⟩ := hstep m k l hm hP hl
      · exact (hno ⟨m, hm, hgoal⟩).elim
      · exact hother
      · exact (hfewer hm hk' hP').elim
    have hstays {m : ℕ} (hm : n ≤ m) : P k (b.state m) :=
      keeps hm hn fun i l hi hP hl => (hsame hi hP hl).2
    obtain ⟨m, l, hm, hl, hmine⟩ := hfair n fun m hm => hready m k hm (hstays hm)
    exact (hsame hm (hstays hm) hl).1 hmine

end Behaviour

/-- A finite run is a behaviour that comes to rest. -/
theorem Run.exists_behaviour {Step : S → L → S → Prop} {s₀ s : S} {τ : List L}
    (hrun : Run Step s₀ τ s) : ∃ b : Behaviour Step, b.state 0 = s₀ ∧
      (∀ n, b.label n = τ[n]?) ∧ ∀ n, τ.length ≤ n → b.state n = s := by
  induction hrun with
  | nil => exact ⟨⟨fun _ => s₀, fun _ => none, by simp, by simp⟩, rfl, by simp, by simp⟩
  | @snoc τ s s' l _ hstep ih =>
    obtain ⟨b, hstart, hlabel, hend⟩ := ih
    have hstate (n : ℕ) (hn : n ≤ τ.length) :
        (if n ≤ τ.length then b.state n else s') = b.state n := if_pos hn
    have hlast (n : ℕ) (hn : τ.length + 1 ≤ n) :
        (if n ≤ τ.length then b.state n else s') = s' := if_neg (by omega)
    refine ⟨⟨fun n => if n ≤ τ.length then b.state n else s', fun n => (τ ++ [l])[n]?, ?_, ?_⟩,
      (hstate 0 (Nat.zero_le _)).trans hstart, fun _ => rfl, fun n hn => hlast n (by simpa using hn)⟩
    · intro n l' hl'
      obtain hn | rfl | hn := Nat.lt_trichotomy n τ.length
      · rw [hstate n (Nat.le_of_lt hn), hstate (n + 1) hn]
        rw [List.getElem?_append_left hn, ← hlabel] at hl'
        exact b.step n l' hl'
      · rw [hstate _ (Nat.le_refl _), hlast _ (Nat.le_refl _), hend _ (Nat.le_refl _)]
        obtain rfl : l = l' := by simpa using hl'
        exact hstep
      · have hlength : (τ ++ [l]).length ≤ n := by
          rw [List.length_append]
          exact hn
        rw [List.getElem?_eq_none hlength] at hl'
        cases hl'
    · intro n hl'
      have hn : τ.length + 1 ≤ n := by
        rw [List.getElem?_eq_none_iff, List.length_append] at hl'
        exact hl'
      rw [hlast n hn, hlast (n + 1) (Nat.le_succ_of_le hn)]

end conc
