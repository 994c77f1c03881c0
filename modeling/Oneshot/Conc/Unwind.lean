import Oneshot.Conc.Outline

namespace conc

namespace Endpoint

variable {I : Interface} {E : Endpoint I}

/-- An access that unwinds out of the call it is made in: the thread is left with a handle
    and without a result. `unwinds` says which accesses of which calls may do so. The
    memory is what the access has made of it. -/
inductive Unwind {Mem : Type} (E : Endpoint I) (unwinds : E.Call → I.Access → Option E.Handle)
    (exec : Mem → I.Action → Mem → Prop) : E.State → Mem → I.Action → E.State → Mem → Prop where
  | act {c : E.Call} {a : I.Access} {k : I.Resp a → Program I E.Ret} {r : I.Resp a} {h : E.Handle}
      {μ μ' : Mem} (hunwinds : unwinds c a = some h) (hexec : exec μ ⟨a, r⟩ μ') :
      Unwind E unwinds exec (.busy c (.access a k)) μ ⟨a, r⟩ (.idle h) μ'

theorem Unwind.mono {Mem : Type} {unwinds : E.Call → I.Access → Option E.Handle}
    {exec exec' : Mem → I.Action → Mem → Prop} (hsub : ∀ μ α μ', exec μ α μ' → exec' μ α μ')
    {st st' : E.State} {μ μ' : Mem} {α : I.Action}
    (hunwind : E.Unwind unwinds exec st μ α st' μ') : E.Unwind unwinds exec' st μ α st' μ' := by
  cases hunwind with
  | act hunwinds hexec => exact .act hunwinds (hsub _ _ _ hexec)

/-- Such a step computed. -/
def State.unwind {Mem : Type} (unwinds : E.Call → I.Access → Option E.Handle)
    (exec : Mem → (a : I.Access) → Option (I.Resp a × Mem)) :
    E.State → Mem → Option (I.Action × E.State × Mem)
  | .busy c (.access a _), μ =>
    match unwinds c a with
    | some h => (exec μ a).map fun (r, μ') => (⟨a, r⟩, .idle h, μ')
    | none => none
  | _, _ => none

theorem State.unwind_sound {Mem : Type} {unwinds : E.Call → I.Access → Option E.Handle}
    {exec : Mem → (a : I.Access) → Option (I.Resp a × Mem)} {st st' : E.State} {μ μ' : Mem}
    {α : I.Action} (hunwind : st.unwind unwinds exec μ = some (α, st', μ')) :
    E.Unwind unwinds (fun μ α μ' => exec μ α.access = some (α.resp, μ')) st μ α st' μ' := by
  unfold State.unwind at hunwind
  split at hunwind
  · split at hunwind
    · obtain ⟨⟨r, μ₁⟩, hexec, heq⟩ := Option.map_eq_some_iff.mp hunwind
      cases heq
      exact .act ‹_› hexec
    · cases hunwind
  · cases hunwind

end Endpoint

namespace Contract

variable {I : Interface} {E : Endpoint I} {C : Contract E}
  {unwinds : E.Call → I.Access → Option E.Handle}

/-- What the protocol asks of an endpoint whose accesses may unwind. `Inside` is what a call
    keeps between its accesses, and `Thrown` holds of a role in which it is left by one of
    them: a handle may be held in it again. -/
structure Recovery (C : Contract E) (unwinds : E.Call → I.Access → Option E.Handle) where
  Inside : E.Call → C.auto.Role → C.Ghost → Prop
  Thrown : E.Handle → C.auto.Role → Prop
  call : ∀ {h c ρ}, E.accepts h c = true → C.Ready h ρ → Inside c ρ C.start
  act : ∀ {c ρ ρ' g g'} {α : I.Action} {f : I.Resp α.access → C.auto.Role → Prop}, Inside c ρ g →
    C.auto.on ρ α.access = some f → f α.resp ρ' → C.track c g α = some g' → Inside c ρ' g'
  unwind : ∀ {c ρ ρ' g h} {α : I.Action} {f : I.Resp α.access → C.auto.Role → Prop}, Inside c ρ g →
    C.auto.on ρ α.access = some f → f α.resp ρ' → unwinds c α.access = some h → Thrown h ρ'
  thrown_ready : ∀ {h ρ}, Thrown h ρ → C.Ready h ρ

namespace Recovery

variable {R : Recovery C unwinds}

/-- What is kept by the call in progress, if there is one. -/
def Kept (R : Recovery C unwinds) : C.Session → Prop
  | .between _ _ => True
  | .during c ρ g => R.Inside c ρ g

theorem Kept.step {ss ss' : C.Session} {e : E.Event} (hkept : R.Kept ss)
    (hstep : Session.Step ss e ss') : R.Kept ss' := by
  cases hstep with
  | call haccepts hready => exact R.call haccepts hready
  | act hon hmove htrack => exact R.act hkept hon hmove htrack
  | enter => exact hkept
  | ret => trivial

/-- The call in progress is left without a result. -/
inductive Abandons (R : Recovery C unwinds) : C.Session → C.Session → Prop where
  | abandon {c : E.Call} {h : E.Handle} {ρ : C.auto.Role} {g : C.Ghost} (hthrown : R.Thrown h ρ) :
      Abandons R (.during c ρ g) (.between h ρ)

theorem Abandons.role {ss ss' : C.Session} (habandons : R.Abandons ss ss') :
    ss'.role = ss.role := by
  cases habandons
  rfl

theorem Abandons.kept {ss ss' : C.Session} (habandons : R.Abandons ss ss') : R.Kept ss' := by
  cases habandons
  trivial

/-- An access that unwinds is one of the protocol, after which the call is abandoned. -/
theorem tracks_unwind {Mem : Type} {exec : Mem → I.Action → Mem → Prop} {st st' : E.State}
    {μ μ' : Mem} {α : I.Action} {ss : C.Session} (htracks : Session.Tracks st ss)
    (hkept : R.Kept ss) (hunwind : E.Unwind unwinds exec st μ α st' μ') {P : C.auto.Role → Prop}
    (hallowed : ∀ f, C.auto.on ss.role α.access = some f → exec μ α μ' →
      ∃ ρ', f α.resp ρ' ∧ P ρ') :
    ∃ ss₁ ss', Session.Step ss (.act α) ss₁ ∧ R.Abandons ss₁ ss' ∧ Session.Tracks st' ss' ∧
      P ss'.role := by
  cases hunwind with
  | @act c a k r h _ _ hunwinds hexec =>
    cases htracks with
    | @busy _ _ ρ g hfollows =>
      obtain ⟨f, hon, hk⟩ := hfollows
      obtain ⟨ρ', hmove, hP⟩ := hallowed f hon hexec
      obtain ⟨g', htrack, _⟩ := hk r ρ' hmove
      have hthrown : R.Thrown h ρ' := R.unwind (α := ⟨a, r⟩) hkept hon hmove hunwinds
      exact ⟨_, _, .act hon hmove htrack, .abandon hthrown, .idle (R.thrown_ready hthrown), hP⟩

end Recovery

end Contract

end conc
