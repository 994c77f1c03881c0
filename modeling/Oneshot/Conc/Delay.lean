import Mathlib.Data.List.Count
import Mathlib.Data.List.Perm.Basic
import Oneshot.Conc.Run

namespace conc

/-! A party that has not caught up with the others: what they have done since can be put
behind the steps that it makes in the meantime. -/

variable {S L V ι : Type*} [DecidableEq ι]

/-- Every party has made the same steps, in the same order. -/
def Alike (party : L → ι) (τ τ' : List L) : Prop :=
  ∀ i, τ.filter (fun l => party l = i) = τ'.filter fun l => party l = i

section

variable {party : L → ι} {τ τ' D : List L} {l : L}

theorem Alike.refl (party : L → ι) (τ : List L) : Alike party τ τ := fun _ => rfl

theorem Alike.snoc (h : Alike party τ τ') (l : L) : Alike party (τ ++ [l]) (τ' ++ [l]) := by
  intro i
  rw [List.filter_append, List.filter_append, h i]

/-- A step can be put before what the others have done. -/
theorem Alike.early (h : Alike party τ (τ' ++ D)) (hD : ∀ d ∈ D, party d ≠ party l) :
    Alike party (τ ++ [l]) (τ' ++ l :: D) := by
  intro i
  have hi := h i
  rw [List.filter_append] at hi
  rw [List.filter_append, List.filter_append, hi, List.filter_cons]
  by_cases hl : party l = i
  · have hnone : D.filter (fun l => party l = i) = [] := by
      refine List.filter_eq_nil_iff.mpr fun d hd => ?_
      simpa using fun h => hD d hd (h.trans hl.symm)
    simp [hnone, hl]
  · simp [hl]

/-- The two runs are made of the same steps. -/
theorem Alike.perm (h : Alike party τ τ') : τ.Perm τ' := by
  classical
  refine List.perm_iff_count.mpr fun l => ?_
  have hown (τ : List L) : (τ.filter fun l' => party l' = party l).count l = τ.count l :=
    List.count_filter (by simp)
  rw [← hown τ, ← hown τ', h]

/-- What is only told of the steps of one party is told of both runs. -/
theorem Alike.filterMap_eq {γ : Type*} {f : L → Option γ} {i : ι} (h : Alike party τ τ')
    (hf : ∀ l, party l ≠ i → f l = none) : τ.filterMap f = τ'.filterMap f := by
  have hown (τ : List L) : (τ.filter fun l => party l = i).filterMap f = τ.filterMap f := by
    rw [List.filterMap_filter]
    refine List.filterMap_congr fun l _ => ?_
    by_cases hl : party l = i
    · simp [hl]
    · simp [hl, hf l hl]
  rw [← hown τ, ← hown τ', h i]

end

variable (Step : S → L → S → Prop) (obs : S → V) (late : L → Prop) (party : L → ι) (s₀ : S)

/-- A run of `late` steps, and some of what was to be seen on its way, from its first
    state on. -/
inductive Trail : S → List V → List L → S → Prop where
  | last {s s' : S} {D : List L} (hrun : Run Step s D s') (hlate : ∀ d ∈ D, late d) :
      Trail s [obs s] D s'
  | next {s s₁ s' : S} {D D' : List L} {vs : List V} (hrun : Run Step s D s₁)
      (hlate : ∀ d ∈ D, late d) (hrest : Trail s₁ vs D' s') : Trail s (obs s :: vs) (D ++ D') s'

/-- A run to `s` that looks like `τ`. -/
def Mirrors (τ : List L) (s : S) : Prop := ∃ τ', Run Step s₀ τ' s ∧ Alike party τ τ'

/-- Such a run that ends with late steps, on whose way `vs` are to be seen. -/
def Lags (τ : List L) (s : S) (vs : List V) : Prop :=
  ∃ τ₁ s₁ D, Run Step s₀ τ₁ s₁ ∧ Trail Step obs late s₁ vs D s ∧ Alike party τ (τ₁ ++ D)

variable {Step obs late party s₀} {s s' s'' : S} {τ D : List L} {l : L} {vs : List V}

theorem Trail.head (h : Trail Step obs late s vs D s') : vs.head? = some (obs s) := by
  cases h <;> rfl

theorem Trail.run (h : Trail Step obs late s vs D s') : Run Step s D s' ∧ ∀ d ∈ D, late d := by
  induction h with
  | last hrun hlate => exact ⟨hrun, hlate⟩
  | next hrun hlate _ ih =>
    refine ⟨hrun.trans ih.1, fun d hd => ?_⟩
    obtain hd | hd := List.mem_append.mp hd
    · exact hlate d hd
    · exact ih.2 d hd

theorem Trail.snoc (h : Trail Step obs late s vs D s') (hstep : Step s' l s'') (hl : late l) :
    Trail Step obs late s vs (D ++ [l]) s'' := by
  induction h with
  | last hrun hlate =>
    refine .last (hrun.snoc hstep) fun d hd => ?_
    obtain hd | hd := List.mem_append.mp hd
    · exact hlate d hd
    · rwa [List.mem_singleton.mp hd]
  | next hrun hlate _ ih =>
    rw [List.append_assoc]
    exact .next hrun hlate (ih hstep)

/-- A late step may add to what is seen. -/
theorem Trail.snoc_new (h : Trail Step obs late s vs D s') (hstep : Step s' l s'') (hl : late l) :
    Trail Step obs late s (vs ++ [obs s'']) (D ++ [l]) s'' := by
  induction h with
  | @last s s' D hrun hlate =>
    have hend : Trail Step obs late s'' [obs s''] [] s'' := .last .nil (by simp)
    have hall : ∀ d ∈ D ++ [l], late d := by
      intro d hd
      obtain hd | hd := List.mem_append.mp hd
      · exact hlate d hd
      · rwa [List.mem_singleton.mp hd]
    simpa using Trail.next (hrun.snoc hstep) hall hend
  | next hrun hlate _ ih =>
    rw [List.append_assoc]
    exact .next hrun hlate (ih hstep)

/-- What late steps do not touch can be changed before them. -/
theorem Trail.map (h : Trail Step obs late s vs D s') {f : S → S}
    (hcomm : ∀ d ∈ D, ∀ s s', Step s d s' → Step (f s) d (f s')) (hobs : ∀ s, obs (f s) = obs s) :
    Trail Step obs late (f s) vs D (f s') := by
  have hmap {s s' : S} {D : List L} (hrun : Run Step s D s')
      (hcomm : ∀ d ∈ D, ∀ s s', Step s d s' → Step (f s) d (f s')) : Run Step (f s) D (f s') := by
    induction hrun with
    | nil => exact .nil
    | snoc _ hstep ih =>
      refine (ih fun d hd => hcomm d (List.mem_append_left _ hd)).snoc ?_
      exact hcomm _ (List.mem_append_right _ (List.mem_singleton_self _)) _ _ hstep
  induction h with
  | @last s s' D hrun hlate =>
    rw [← hobs s]
    exact .last (hmap hrun hcomm) hlate
  | @next s s₁ s' D D' vs hrun hlate _ ih =>
    rw [← hobs s]
    exact .next (hmap hrun fun d hd => hcomm d (List.mem_append_left _ hd)) hlate
      (ih fun d hd => hcomm d (List.mem_append_right _ hd))

/-- The rest of a trail is one. -/
theorem Trail.drop {us : List V} (h : Trail Step obs late s (us ++ vs) D s') (hvs : vs ≠ []) :
    ∃ D₁ D₂ s₁, D = D₁ ++ D₂ ∧ Run Step s D₁ s₁ ∧ Trail Step obs late s₁ vs D₂ s' := by
  induction us generalizing s D with
  | nil => exact ⟨[], D, s, rfl, .nil, h⟩
  | cons u us ih =>
    generalize hws : u :: us ++ vs = ws at h
    cases h with
    | last hrun =>
      simp only [List.cons_append, List.cons.injEq, List.append_eq_nil_iff] at hws
      exact (hvs hws.2.2).elim
    | @next _ s₁ _ D D' ws hrun hlate hrest =>
      obtain ⟨_, rfl⟩ := List.cons.inj hws
      obtain ⟨D₁, D₂, s₂, rfl, hfirst, hlast⟩ := ih hrest
      exact ⟨D ++ D₁, D₂, s₂, by rw [List.append_assoc], hrun.trans hfirst, hlast⟩

theorem Mirrors.snoc (h : Mirrors Step party s₀ τ s) (hstep : Step s l s') :
    Mirrors Step party s₀ (τ ++ [l]) s' := by
  obtain ⟨τ', hrun, halike⟩ := h
  exact ⟨_, hrun.snoc hstep, halike.snoc l⟩

/-- Nobody has to be behind. -/
theorem Mirrors.lags (h : Mirrors Step party s₀ τ s) :
    Lags Step obs late party s₀ τ s [obs s] := by
  obtain ⟨τ', hrun, halike⟩ := h
  exact ⟨τ', s, [], hrun, .last .nil (by simp), by simpa using halike⟩

theorem Lags.late_step (h : Lags Step obs late party s₀ τ s vs) (hstep : Step s l s')
    (hl : late l) : Lags Step obs late party s₀ (τ ++ [l]) s' vs := by
  obtain ⟨τ₁, s₁, D, hrun, htrail, halike⟩ := h
  exact ⟨τ₁, s₁, D ++ [l], hrun, htrail.snoc hstep hl, by simpa using halike.snoc l⟩

theorem Lags.late_new (h : Lags Step obs late party s₀ τ s vs) (hstep : Step s l s')
    (hl : late l) : Lags Step obs late party s₀ (τ ++ [l]) s' (vs ++ [obs s']) := by
  obtain ⟨τ₁, s₁, D, hrun, htrail, halike⟩ := h
  exact ⟨τ₁, s₁, D ++ [l], hrun, htrail.snoc_new hstep hl, by simpa using halike.snoc l⟩

/-- A step that does not know of the late ones, and changes nothing they touch, can be
    made before them. -/
theorem Lags.early_step (h : Lags Step obs late party s₀ τ s vs) {f : S → S}
    (hobs : ∀ s, obs (f s) = obs s) (hparty : ∀ d, late d → party d ≠ party l)
    (hcomm : ∀ d ∈ τ, late d → ∀ s s', Step s d s' → Step (f s) d (f s'))
    (hstep : ∀ s₁ D, Run Step s₁ D s → (∀ d ∈ D, d ∈ τ ∧ late d) → vs.head? = some (obs s₁) →
      Step s₁ l (f s₁)) :
    Mirrors Step party s₀ (τ ++ [l]) (f s) ∧
      ∀ ws, ws ≠ [] → ws <:+ vs → Lags Step obs late party s₀ (τ ++ [l]) (f s) ws := by
  obtain ⟨τ₁, s₁, D, hrun, htrail, halike⟩ := h
  have hlate := htrail.run.2
  have hmem (d : L) (hd : d ∈ D) : d ∈ τ :=
    halike.perm.symm.subset (List.mem_append_right _ hd)
  have hfirst : Step s₁ l (f s₁) :=
    hstep s₁ D htrail.run.1 (fun d hd => ⟨hmem d hd, hlate d hd⟩) htrail.head
  have htrail' := htrail.map (fun d hd => hcomm d (hmem d hd) (hlate d hd)) hobs
  have halike' := halike.early fun d hd => hparty d (hlate d hd)
  refine ⟨⟨τ₁ ++ l :: D, ?_, halike'⟩, ?_⟩
  · simpa using (hrun.snoc hfirst).trans htrail'.run.1
  · rintro ws hws ⟨us, rfl⟩
    obtain ⟨D₁, D₂, s₂, rfl, hto, hrest⟩ := htrail'.drop hws
    exact ⟨τ₁ ++ [l] ++ D₁, s₂, D₂, (hrun.snoc hfirst).trans hto, hrest, by simpa using halike'⟩

end conc
