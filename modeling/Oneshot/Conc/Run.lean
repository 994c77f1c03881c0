import Mathlib.Data.List.Basic

namespace conc

variable {S L : Type*}

/-- A run of a labelled step relation from `s₀`: the labels made so far, oldest
    first, and the state they lead to. -/
inductive Run (Step : S → L → S → Prop) (s₀ : S) : List L → S → Prop where
  | nil : Run Step s₀ [] s₀
  | snoc {τ : List L} {s s' : S} {l : L} :
      Run Step s₀ τ s → Step s l s' → Run Step s₀ (τ ++ [l]) s'

/-- What holds of the empty run and is kept by every step taken at the end of a
    run holds of every run. -/
theorem Run.invariant {Step : S → L → S → Prop} {s₀ : S} {P : List L → S → Prop}
    (hnil : P [] s₀)
    (hsnoc : ∀ τ s l s', Run Step s₀ τ s → P τ s → Step s l s' → P (τ ++ [l]) s')
    {τ : List L} {s : S} (hrun : Run Step s₀ τ s) : P τ s := by
  induction hrun with
  | nil => exact hnil
  | snoc hrun hstep ih => exact hsnoc _ _ _ _ hrun ih hstep

theorem Run.mono {Step Step' : S → L → S → Prop} (hsub : ∀ s l s', Step s l s' → Step' s l s')
    {s₀ : S} {τ : List L} {s : S} (hrun : Run Step s₀ τ s) : Run Step' s₀ τ s := by
  induction hrun with
  | nil => exact .nil
  | snoc _ hstep ih => exact .snoc ih (hsub _ _ _ hstep)

/-- What every step keeps holds at the end of a run, and every label of the run is
    one of a step from where it held. -/
theorem Run.always {Step : S → L → S → Prop} {P : S → Prop} {Q : L → Prop}
    (hstep : ∀ s l s', P s → Step s l s' → P s' ∧ Q l) {s₀ : S} (hinit : P s₀) {τ : List L} {s : S}
    (hrun : Run Step s₀ τ s) : P s ∧ ∀ l ∈ τ, Q l := by
  induction hrun with
  | nil => exact ⟨hinit, by simp⟩
  | @snoc τ s s' l _ hlast ih =>
    obtain ⟨hs, hτ⟩ := ih
    obtain ⟨hs', hl⟩ := hstep s l s' hs hlast
    refine ⟨hs', fun l' hl' => ?_⟩
    obtain hmem | hmem := List.mem_append.mp hl'
    · exact hτ l' hmem
    · rw [List.mem_singleton.mp hmem]
      exact hl

theorem Run.keeps {Step : S → L → S → Prop} {P : S → Prop}
    (hstep : ∀ s l s', P s → Step s l s' → P s') {s₀ : S} (hinit : P s₀) {τ : List L} {s : S}
    (hrun : Run Step s₀ τ s) : P s :=
  hrun.invariant (P := fun _ s => P s) hinit fun _ s l s' _ hs hlast => hstep s l s' hs hlast

/-- A run can be cut at any of its labels. -/
theorem Run.split {Step : S → L → S → Prop} {s₀ s : S} {τ₁ τ₂ : List L}
    (hrun : Run Step s₀ (τ₁ ++ τ₂) s) : ∃ s₁, Run Step s₀ τ₁ s₁ ∧ Run Step s₁ τ₂ s := by
  generalize hτ : τ₁ ++ τ₂ = τ at hrun
  induction hrun generalizing τ₂ with
  | nil =>
    obtain ⟨rfl, rfl⟩ := List.append_eq_nil_iff.mp hτ
    exact ⟨s₀, .nil, .nil⟩
  | @snoc τ s s' l hrun hlast ih =>
    obtain rfl | ⟨τ', l', rfl⟩ := List.eq_nil_or_concat τ₂
    · rw [List.append_nil] at hτ
      exact ⟨s', hτ ▸ hrun.snoc hlast, .nil⟩
    · rw [List.concat_eq_append, ← List.append_assoc] at hτ
      obtain ⟨hinit, hl⟩ := List.append_inj' hτ rfl
      cases hl
      obtain ⟨s₁, h₁, h₂⟩ := ih hinit
      exact ⟨s₁, h₁, by simpa using h₂.snoc hlast⟩

theorem Run.cons_inv {Step : S → L → S → Prop} {s₀ s : S} {l : L} {τ : List L}
    (hrun : Run Step s₀ (l :: τ) s) : ∃ s₁, Step s₀ l s₁ ∧ Run Step s₁ τ s := by
  obtain ⟨s₁, hfirst, hrest⟩ := Run.split (show Run Step s₀ ([l] ++ τ) s from hrun)
  generalize hτ : [l] = τ' at hfirst
  cases hfirst with
  | nil => cases hτ
  | @snoc τ'' s' _ l' hnil hstep =>
    obtain ⟨hnone, hl⟩ := List.append_inj' (show [] ++ [l] = τ'' ++ [l'] from hτ) rfl
    cases hl
    subst hnone
    generalize hempty : ([] : List L) = empty at hnil
    cases hnil with
    | nil => exact ⟨s₁, hstep, hrest⟩
    | snoc => simp at hempty

theorem Run.snoc_inv {Step : S → L → S → Prop} {s₀ s : S} {l : L} {τ : List L}
    (hrun : Run Step s₀ (τ ++ [l]) s) : ∃ s₁, Run Step s₀ τ s₁ ∧ Step s₁ l s := by
  obtain ⟨s₁, hinit, hlast⟩ := hrun.split
  obtain ⟨s₂, hstep, hnil⟩ := hlast.cons_inv
  generalize hτ : ([] : List L) = τ' at hnil
  cases hnil with
  | nil => exact ⟨s₁, hinit, hstep⟩
  | snoc => simp at hτ

/-- A run is one of the steps whose labels it has. -/
theorem Run.attach {Step : S → L → S → Prop} {s₀ : S} {Q : L → Prop} {τ : List L} {s : S}
    (hrun : Run Step s₀ τ s) (hlabels : ∀ l ∈ τ, Q l) :
    Run (fun s l s' => Step s l s' ∧ Q l) s₀ τ s := by
  induction hrun with
  | nil => exact .nil
  | snoc _ hstep ih =>
    have hlast := hlabels _ (List.mem_append_right _ (List.mem_singleton_self _))
    exact .snoc (ih fun l hl => hlabels l (List.mem_append_left _ hl)) ⟨hstep, hlast⟩

/-- A relation that every step of one system carries over to a step of another
    with the same label carries every run over. -/
theorem Run.simulation {S' : Type*} {Step : S → L → S → Prop} {Step' : S' → L → S' → Prop}
    {R : S → S' → Prop} {s₀ : S} {t₀ : S'} (hinit : R s₀ t₀)
    (hstep : ∀ s t l s', R s t → Step s l s' → ∃ t', Step' t l t' ∧ R s' t')
    {τ : List L} {s : S} (hrun : Run Step s₀ τ s) : ∃ t, Run Step' t₀ τ t ∧ R s t := by
  induction hrun with
  | nil => exact ⟨t₀, .nil, hinit⟩
  | snoc _ hlast ih =>
    obtain ⟨t, ht, hrel⟩ := ih
    obtain ⟨t', hnext, hrel'⟩ := hstep _ t _ _ hrel hlast
    exact ⟨t', .snoc ht hnext, hrel'⟩

theorem Run.trans {Step : S → L → S → Prop} {s₀ s₁ s₂ : S} {τ τ' : List L}
    (h₁ : Run Step s₀ τ s₁) (h₂ : Run Step s₁ τ' s₂) : Run Step s₀ (τ ++ τ') s₂ := by
  induction h₂ with
  | nil => simpa using h₁
  | snoc _ hlast ih =>
    rw [← List.append_assoc]
    exact ih.snoc hlast

/-- What a schedule plays is a run, if each of its choices makes a step. `R` may say more of
    the choices that are left. -/
theorem Run.of_schedule {C : Type*} {Step : S → L → S → Prop} (choose : S → C → Option (L × S))
    (play : S → List C → Option (List L × S)) (R : S → List C → Prop)
    (hnil : ∀ s, play s [] = some ([], s))
    (hcons : ∀ s c cs, play s (c :: cs) = do
      let (l, s') ← choose s c
      let (τ, s'') ← play s' cs
      return (l :: τ, s''))
    (hchoose : ∀ s c cs l s', R s (c :: cs) → choose s c = some (l, s') → Step s l s' ∧ R s' cs)
    {cs : List C} {s s' : S} {τ : List L} (hR : R s cs) (hplay : play s cs = some (τ, s')) :
    Run Step s τ s' := by
  induction cs generalizing s τ with
  | nil =>
    rw [hnil] at hplay
    cases hplay
    exact .nil
  | cons c cs ih =>
    simp only [hcons, Option.bind_eq_bind, Option.bind_eq_some_iff, Option.pure_def,
      Option.some.injEq, Prod.mk.injEq] at hplay
    obtain ⟨⟨l, s₁⟩, hfirst, ⟨τ', s₂⟩, hrest, rfl, rfl⟩ := hplay
    obtain ⟨hstep, hR'⟩ := hchoose s c cs l s₁ hR hfirst
    exact (Run.nil.snoc hstep).trans (ih hR' hrest)

/-- What a function picks out of the labels of a run grows by what it picks out of
    the last one. -/
theorem filterMap_snoc {α : Type*} (f : L → Option α) (τ : List L) (l : L) :
    (τ ++ [l]).filterMap f = τ.filterMap f ++ (f l).toList := by
  cases hl : f l <;> simp [List.filterMap_append, hl]

/-- Where something is picked out of the labels of a run. -/
theorem filterMap_split {α : Type*} {f : L → Option α} {τ : List L} {a : α} {as bs : List α}
    (hτ : τ.filterMap f = as ++ a :: bs) :
    ∃ τ₁ l τ₂, τ = τ₁ ++ l :: τ₂ ∧ τ₁.filterMap f = as ∧ f l = some a ∧ τ₂.filterMap f = bs := by
  obtain ⟨τ₁, rest, rfl, has, hrest⟩ := List.filterMap_eq_append_iff.mp hτ
  obtain ⟨τ₂, l, τ₃, rfl, hnone, hl, hbs⟩ := List.filterMap_eq_cons_iff.mp hrest
  refine ⟨τ₁ ++ τ₂, l, τ₃, (List.append_assoc _ _ _).symm, ?_, hl, hbs⟩
  rw [List.filterMap_append, has, List.filterMap_eq_nil_iff.mpr hnone, List.append_nil]

end conc
