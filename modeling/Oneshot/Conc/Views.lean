import Mathlib.Data.Finset.Basic
import Mathlib.Data.Finset.Range
import Oneshot.Conc.Order

namespace conc

/-! Happens-before between threads that share one atomic location and park tokens.
An event is known by its position in the run. -/

/-- What an event does, as far as other threads can synchronise with it. -/
inductive SyncOp (K : Type*) where
  | plain
  | load (order : MemOrder)
  | store (order : MemOrder)
  /-- A read-modify-write. -/
  | update (order : MemOrder)
  | fence (order : MemOrder)
  /-- Makes the token `k` available. -/
  | give (k : K)
  /-- Consumes the token `k`. -/
  | take (k : K)

/-- For each thread the events that happen before its next one, and those that will
    once it makes an acquire fence; and the events that come with what the location
    and the tokens hold. -/
structure Views (ι K : Type*) where
  time : ℕ
  view : ι → Finset ℕ
  pending : ι → Finset ℕ
  attached : Finset ℕ
  given : K → Finset ℕ

namespace Views

variable {ι K L : Type*}

def start : Views ι K := ⟨0, fun _ => ∅, fun _ => ∅, ∅, fun _ => ∅⟩

/-- An event of no thread. -/
def tick (V : Views ι K) : Views ι K := { V with time := V.time + 1 }

section

variable [DecidableEq ι]

/-- The thread `i` also sees `events`. -/
def join (V : Views ι K) (i : ι) (events : Finset ℕ) : Views ι K :=
  { V with view := Function.update V.view i (V.view i ∪ events) }

/-- A read joins what is attached to the value, or keeps it for a fence. -/
def read (V : Views ι K) (i : ι) (order : MemOrder) : Views ι K :=
  { (if order.acquires then V.join i V.attached else V) with
    pending := Function.update V.pending i (V.pending i ∪ V.attached) }

/-- What is attached to the location after a write that keeps `kept`. -/
def write (V : Views ι K) (i : ι) (order : MemOrder) (kept : Finset ℕ) : Views ι K :=
  { V with attached := if order.releases then kept ∪ V.view i else kept }

variable [DecidableEq K]

/-- One event of thread `i`. A plain store clears what was attached to the location,
    and a read-modify-write keeps it. -/
def step (V : Views ι K) (i : ι) : SyncOp K → Views ι K
  | .plain => (V.tick).join i {V.time}
  | .load order => ((V.tick).join i {V.time}).read i order
  | .store order => ((V.tick).join i {V.time}).write i order ∅
  | .update order => (((V.tick).join i {V.time}).read i order).write i order V.attached
  | .fence order =>
    ((V.tick).join i {V.time}).join i (if order.acquires then V.pending i else ∅)
  | .give k =>
    { (V.tick).join i {V.time} with
      given := Function.update V.given k (V.given k ∪ insert V.time (V.view i)) }
  | .take k =>
    { ((V.tick).join i {V.time}).join i (V.given k) with given := Function.update V.given k ∅ }

/-- The views after a run, when `op` says what each label does. -/
def run (op : L → Option (ι × SyncOp K)) (τ : List L) : Views ι K :=
  τ.foldl (fun V l => match op l with
    | some (i, o) => V.step i o
    | none => V.tick) start

end

section

variable {V : Views ι K} {i j : ι} {m : MemOrder}

@[simp] theorem view_tick : V.tick.view = V.view := rfl
@[simp] theorem pending_tick : V.tick.pending = V.pending := rfl
@[simp] theorem attached_tick : V.tick.attached = V.attached := rfl
@[simp] theorem given_tick : V.tick.given = V.given := rfl

@[simp] theorem view_write (kept : Finset ℕ) : (V.write i m kept).view = V.view := rfl
@[simp] theorem pending_write (kept : Finset ℕ) : (V.write i m kept).pending = V.pending := rfl
@[simp] theorem given_write (kept : Finset ℕ) : (V.write i m kept).given = V.given := rfl

theorem subset_attached_write (kept : Finset ℕ) : kept ⊆ (V.write i m kept).attached := by
  unfold write
  split
  · exact Finset.subset_union_left
  · exact Finset.Subset.refl _

variable [DecidableEq ι]

@[simp] theorem view_join (events : Finset ℕ) :
    (V.join i events).view i = V.view i ∪ events := by
  simp [join]

theorem view_join_ne (events : Finset ℕ) (hne : j ≠ i) :
    (V.join i events).view j = V.view j := by
  simp [join, hne]

@[simp] theorem pending_join (events : Finset ℕ) : (V.join i events).pending = V.pending := rfl
@[simp] theorem attached_join (events : Finset ℕ) : (V.join i events).attached = V.attached := rfl
@[simp] theorem given_join (events : Finset ℕ) : (V.join i events).given = V.given := rfl

theorem view_read : (V.read i m).view =
    if m.acquires then (V.join i V.attached).view else V.view := by
  unfold read
  split <;> rfl

@[simp] theorem attached_read : (V.read i m).attached = V.attached := by
  unfold read
  split <;> rfl

@[simp] theorem given_read : (V.read i m).given = V.given := by
  unfold read
  split <;> rfl

variable [DecidableEq K] {k : K} {o : SyncOp K}

/-- An event is in the view of its own thread, with all that was there. -/
theorem view_step : insert V.time (V.view i) ⊆ (V.step i o).view i := by
  have hjoin : insert V.time (V.view i) = ((V.tick).join i {V.time}).view i := by
    rw [view_join, view_tick, Finset.union_comm]
    rfl
  rw [hjoin]
  cases o with
  | plain | store | give => exact Finset.Subset.refl _
  | load order | update order =>
    simp only [step, view_read, view_write]
    split
    · rw [view_join (V := (V.tick).join i {V.time})]
      exact Finset.subset_union_left
    · exact Finset.Subset.refl _
  | fence order | take k =>
    simp only [step, view_join]
    exact Finset.subset_union_left

theorem view_step_ne (hne : j ≠ i) : (V.step i o).view j = V.view j := by
  cases o with
  | plain | store | give => exact view_join_ne _ hne
  | load order | update order =>
    simp only [step, view_read, view_write]
    split
    · rw [view_join_ne _ hne, view_join_ne _ hne, view_tick]
    · exact view_join_ne _ hne
  | fence order | take k =>
    simp only [step]
    rw [view_join_ne _ hne, view_join_ne _ hne, view_tick]

/-- No thread loses sight of an event. -/
theorem view_mono : V.view j ⊆ (V.step i o).view j := by
  by_cases hj : j = i
  · subst hj
    exact (Finset.subset_insert _ _).trans view_step
  · rw [view_step_ne hj]

theorem pending_mono : V.pending j ⊆ (V.step i o).pending j := by
  cases o with
  | load order | update order =>
    by_cases hj : j = i
    · subst hj
      simp [step, read]
    · simp [step, read, hj]
  | _ => exact Finset.Subset.refl _

/-- What a read leaves for a fence to join. -/
theorem pending_read (ho : o = .load m ∨ o = .update m) :
    V.attached ⊆ (V.step i o).pending i := by
  obtain rfl | rfl := ho <;> simp [step, read]

/-- An acquiring read joins what is attached. -/
theorem view_acquire (ho : o = .load m ∨ o = .update m) (hacquires : m.acquires = true) :
    V.attached ⊆ (V.step i o).view i := by
  intro n hn
  obtain rfl | rfl := ho <;> simp [step, view_read, hacquires, hn]

theorem view_fence (hacquires : m.acquires = true) :
    V.pending i ⊆ (V.step i (.fence m)).view i := by
  intro n hn
  simp [step, hacquires, hn]

theorem view_take : V.given k ⊆ (V.step i (.take k)).view i := by
  intro n hn
  simp [step, hn]

/-- Only a plain store takes anything away from the location. -/
theorem attached_mono (ho : ∀ order, o ≠ .store order) : V.attached ⊆ (V.step i o).attached := by
  cases o with
  | store order => exact (ho order rfl).elim
  | update order => exact subset_attached_write _
  | load order => simp [step]
  | _ => exact Finset.Subset.refl _

/-- A releasing read-modify-write attaches all that its thread sees. -/
theorem attached_release (hreleases : m.releases = true) :
    (V.step i (.update m)).view i ⊆ (V.step i (.update m)).attached := by
  simp [step, write, hreleases]

theorem given_mono (ho : o ≠ .take k) : V.given k ⊆ (V.step i o).given k := by
  cases o with
  | give k' =>
    by_cases hk : k = k'
    · subst hk
      intro n hn
      simp [step, hn]
    · simp [step, hk]
  | take k' =>
    have hk : k ≠ k' := fun hk => ho (by rw [hk])
    simp [step, hk]
  | _ => simp [step]

theorem given_give : V.view i ⊆ (V.step i (.give k)).given k := by
  intro n hn
  simp [step, hn]

end

section

variable [DecidableEq ι] [DecidableEq K] (op : L → Option (ι × SyncOp K))

theorem run_snoc (τ : List L) (l : L) : run op (τ ++ [l]) = match op l with
    | some (i, o) => (run op τ).step i o
    | none => (run op τ).tick := by
  simp [run, List.foldl_append]

theorem run_snoc_some (τ : List L) {l : L} {i : ι} {o : SyncOp K} (hl : op l = some (i, o)) :
    run op (τ ++ [l]) = (run op τ).step i o := by
  rw [run_snoc, hl]

theorem run_snoc_none (τ : List L) {l : L} (hl : op l = none) :
    run op (τ ++ [l]) = (run op τ).tick := by
  rw [run_snoc, hl]

@[simp] theorem step_time (V : Views ι K) (i : ι) (o : SyncOp K) :
    (V.step i o).time = V.time + 1 := by
  cases o with
  | load order | update order =>
    simp only [step, read, write]
    split <;> rfl
  | _ => rfl

theorem run_time (τ : List L) : (run op τ).time = τ.length := by
  induction τ using List.reverseRecOn with
  | nil => rfl
  | append_singleton τ l ih =>
    rw [run_snoc]
    split
    · rw [step_time, ih, List.length_append, List.length_singleton]
    · rw [tick, ih, List.length_append, List.length_singleton]

end

end Views

section

variable {L : Type*} {P Q : L → Bool} {τ : List L} {l : L} {n : ℕ}

/-- The positions of the labels of a kind. -/
def positions (P : L → Bool) (τ : List L) : Finset ℕ :=
  (Finset.range τ.length).filter fun n => (τ[n]?).any P

theorem mem_positions : n ∈ positions P τ ↔ ∃ l, τ[n]? = some l ∧ P l = true := by
  simp only [positions, Finset.mem_filter, Finset.mem_range, Option.any_eq_true]
  constructor
  · exact fun h => h.2
  · rintro ⟨l, hl, hP⟩
    exact ⟨(List.getElem?_eq_some_iff.mp hl).1, l, hl, hP⟩

/-- The last label of a run is at its own position, and the others stay where they
    are. -/
theorem positions_snoc : positions P (τ ++ [l]) =
    if P l then insert τ.length (positions P τ) else positions P τ := by
  ext n
  have hlast : n ∈ positions P (τ ++ [l]) ↔ n ∈ positions P τ ∨ (n = τ.length ∧ P l = true) := by
    simp only [mem_positions]
    constructor
    · rintro ⟨l', hl', hP⟩
      by_cases hn : n < τ.length
      · rw [List.getElem?_append_left hn] at hl'
        exact .inl ⟨l', hl', hP⟩
      · obtain ⟨hbound, _⟩ := List.getElem?_eq_some_iff.mp hl'
        rw [List.length_append, List.length_singleton] at hbound
        obtain rfl : n = τ.length := by omega
        rw [List.getElem?_concat_length] at hl'
        cases hl'
        exact .inr ⟨rfl, hP⟩
    · rintro (⟨l', hl', hP⟩ | ⟨rfl, hP⟩)
      · have hn := (List.getElem?_eq_some_iff.mp hl').1
        exact ⟨l', by rw [List.getElem?_append_left hn, hl'], hP⟩
      · exact ⟨l, List.getElem?_concat_length, hP⟩
  rw [hlast]
  split <;> simp_all [or_comm]

/-- Labels of other kinds add no positions. -/
theorem positions_append {τ' : List L} (hτ' : ∀ l ∈ τ', P l = false) :
    positions P (τ ++ τ') = positions P τ := by
  induction τ' using List.reverseRecOn with
  | nil => rw [List.append_nil]
  | append_singleton τ' l ih =>
    have hl : P l = false := hτ' l (List.mem_append_right _ (List.mem_singleton_self l))
    rw [← List.append_assoc, positions_snoc, hl]
    exact ih fun l' hl' => hτ' l' (List.mem_append_left _ hl')

theorem positions_lt (hn : n ∈ positions P τ) : n < τ.length := by
  obtain ⟨_, hl, _⟩ := mem_positions.mp hn
  exact (List.getElem?_eq_some_iff.mp hl).1

/-- The positions of the labels of one kind that are followed by, or are, one of
    another. -/
def upTo (P Q : L → Bool) (τ : List L) : Finset ℕ :=
  (positions P τ).filter fun n => ∃ m ∈ positions Q τ, n ≤ m

theorem upTo_subset : upTo P Q τ ⊆ positions P τ := Finset.filter_subset _ _

theorem positions_subset_upTo (hPQ : ∀ l, Q l = true → P l = true) :
    positions Q τ ⊆ upTo P Q τ := by
  intro n hn
  obtain ⟨l, hl, hQ⟩ := mem_positions.mp hn
  exact Finset.mem_filter.mpr ⟨mem_positions.mpr ⟨l, hl, hPQ l hQ⟩, n, hn, le_rfl⟩

/-- A label of neither the one kind nor the other leaves these positions as they
    are. -/
theorem upTo_snoc (hl : Q l = false) : upTo P Q (τ ++ [l]) = upTo P Q τ := by
  have hQ : positions Q (τ ++ [l]) = positions Q τ := by simp [positions_snoc, hl]
  ext n
  simp only [upTo, Finset.mem_filter, hQ]
  constructor
  · rintro ⟨hn, m, hm, hle⟩
    rw [positions_snoc] at hn
    split at hn
    · obtain rfl | hn := Finset.mem_insert.mp hn
      · exact absurd (positions_lt hm) (by omega)
      · exact ⟨hn, m, hm, hle⟩
    · exact ⟨hn, m, hm, hle⟩
  · rintro ⟨hn, h⟩
    refine ⟨?_, h⟩
    rw [positions_snoc]
    split
    · exact Finset.mem_insert_of_mem hn
    · exact hn

/-- A thread sees all its own events. -/
theorem Views.own_positions {ι K : Type*} [DecidableEq ι] [DecidableEq K]
    (op : L → Option (ι × SyncOp K)) (τ : List L) (i : ι) :
    positions (fun l => (op l).any fun e => e.1 = i) τ ⊆ (Views.run op τ).view i := by
  induction τ using List.reverseRecOn with
  | nil => simp [positions]
  | append_singleton τ l ih =>
    rw [positions_snoc]
    cases hl : op l with
    | none =>
      rw [Views.run_snoc_none op τ hl]
      simpa using ih
    | some e =>
      obtain ⟨j, o⟩ := e
      rw [Views.run_snoc_some op τ hl]
      by_cases hj : j = i
      · subst hj
        have hself := Views.view_step (V := Views.run op τ) (i := j) (o := o)
        rw [Views.run_time] at hself
        simpa using (Finset.insert_subset_insert _ ih).trans hself
      · simpa [hj] using ih.trans Views.view_mono

end

end conc
