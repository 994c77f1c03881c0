import Oneshot.Conc.Endpoint

namespace conc

namespace Program

variable {I : Interface} {α β : Type}

/-- Code that makes at most `n` accesses before it returns or begins a round of a loop,
    and at most `N` in each round. `looked` says whether it has looked at what `looks`
    names since the last round began. It does not begin another round without. -/
def Paced (looks : I.Access → Bool) (N : Nat) {α : Type} :
    Program I α → Nat → Bool → (α → Nat → Bool → Prop) → Prop
  | .ret v, n, looked, Q => Q v n looked
  | .access a k, n, looked, Q =>
    ∃ m, n = m + 1 ∧ ∀ r, (k r).Paced looks N m (looked || looks a) Q
  | .iterate body k, _, looked, Q => looked = true ∧ body.Paced looks N N false fun o n' looked' =>
      match o with
      | none => looked' = true
      | some b => (k b).Paced looks N n' looked' Q
  | .unreachable, _, _, _ => True

variable {looks : I.Access → Bool} {N n : Nat} {looked : Bool}

@[simp] theorem paced_ret {v : α} {Q : α → Nat → Bool → Prop} :
    (ret v : Program I α).Paced looks N n looked Q ↔ Q v n looked := Iff.rfl

@[simp] theorem paced_access {a : I.Access} {k : I.Resp a → Program I α}
    {Q : α → Nat → Bool → Prop} :
    (access a k).Paced looks N n looked Q ↔
      0 < n ∧ ∀ r, (k r).Paced looks N (n - 1) (looked || looks a) Q := by
  constructor
  · rintro ⟨m, rfl, h⟩
    exact ⟨Nat.succ_pos m, h⟩
  · rintro ⟨hn, h⟩
    exact ⟨n - 1, (Nat.sub_add_cancel hn).symm, h⟩

theorem paced_iterate {body : Program I (Option β)} {k : β → Program I α}
    {Q : α → Nat → Bool → Prop} :
    (iterate body k).Paced looks N n looked Q ↔
      looked = true ∧ body.Paced looks N N false fun o n' looked' =>
        match o with
        | none => looked' = true
        | some b => (k b).Paced looks N n' looked' Q := by
  rw [Paced]

@[simp] theorem paced_unreachable {Q : α → Nat → Bool → Prop} :
    (unreachable : Program I α).Paced looks N n looked Q ↔ True := Iff.rfl

theorem Paced.mono {p : Program I α} {Q Q' : α → Nat → Bool → Prop}
    (hp : p.Paced looks N n looked Q) (hsub : ∀ v n looked, Q v n looked → Q' v n looked) :
    p.Paced looks N n looked Q' := by
  induction p generalizing n looked with
  | ret v => exact hsub _ _ _ hp
  | access a k ih =>
    obtain ⟨hn, hk⟩ := paced_access.mp hp
    exact paced_access.mpr ⟨hn, fun r => ih r (hk r) hsub⟩
  | iterate body k ihbody ihk =>
    obtain ⟨hlooked, hbody⟩ := paced_iterate.mp hp
    refine paced_iterate.mpr ⟨hlooked, ihbody hbody ?_⟩
    rintro (_ | b) m looked' h
    · exact h
    · exact ihk b h hsub
  | unreachable => trivial

/-- What the first part of a sequence leaves of its accesses is for the second. -/
@[simp] theorem paced_bind {p : Program I α} {f : α → Program I β} {Q : β → Nat → Bool → Prop} :
    (p.bind f).Paced looks N n looked Q ↔
      p.Paced looks N n looked fun v m looked' => (f v).Paced looks N m looked' Q := by
  induction p generalizing n looked with
  | ret v => exact Iff.rfl
  | access a k ih => simp only [access_bind, paced_access, ih]
  | iterate body k _ ihk =>
    change (iterate body fun c => (k c).bind f).Paced looks N n looked Q ↔ _
    rw [paced_iterate, paced_iterate]
    refine and_congr_right fun _ => ⟨fun h => h.mono ?_, fun h => h.mono ?_⟩
    · rintro (_ | c) m looked' h
      · exact h
      · exact (ihk c).mp h
    · rintro (_ | c) m looked' h
      · exact h
      · exact (ihk c).mpr h
  | unreachable => exact Iff.rfl

/-- The rule for `loop { .. }`: a round that goes round again has looked. -/
theorem paced_loop {body : Program I (Option α)} {Q : α → Nat → Bool → Prop}
    (hbody : body.Paced looks N N false fun o m looked' =>
      o.elim (looked' = true) fun b => Q b m looked') :
    (loop body).Paced looks N n true Q := by
  refine paced_iterate.mpr ⟨rfl, hbody.mono ?_⟩
  rintro (_ | b) m looked' h
  · exact h
  · exact h

/-- A round is begun only after a look, and is paced again. -/
theorem Paced.round {body : Program I (Option β)} {k : β → Program I α}
    {Q : α → Nat → Bool → Prop} (hp : (iterate body k).Paced looks N n looked Q) :
    looked = true ∧ (Program.round body k).Paced looks N N false Q := by
  obtain ⟨hlooked, hbody⟩ := paced_iterate.mp hp
  refine ⟨hlooked, paced_bind.mpr (hbody.mono ?_)⟩
  rintro (_ | b) m looked' h
  · exact paced_iterate.mpr ⟨h, hbody⟩
  · exact h

end Program

namespace Endpoint

variable {I : Interface} {Mem : Type} {E : Endpoint I} {exec : Mem → I.Action → Mem → Prop}
  {looks : I.Access → Bool} {N n : Nat} {looked : Bool}

/-- The code that a thread has still to run is paced. -/
def State.Paced (looks : I.Access → Bool) (N : Nat) (st : E.State) (n : Nat) (looked : Bool) :
    Prop :=
  ∀ c p, st = .busy c p → p.Paced looks N n looked fun _ _ _ => True

/-- A thread has at most `n` accesses to make before it returns or begins a round, and
    begins none before it has looked. -/
theorem Step.paced {st st' : E.State} {μ μ' : Mem} {e : E.Event}
    (hcode : ∀ c, (E.code c).Paced looks N N true fun _ _ _ => True)
    (hstep : E.Step exec st μ e st' μ') (hst : st.Paced looks N n looked) :
    match e with
    | .call _ => st'.Paced looks N N true
    | .act α => ∃ m, n = m + 1 ∧ st'.Paced looks N m (looked || looks α.access)
    | .enter => looked = true ∧ st'.Paced looks N N false
    | .ret _ _ => ∃ h, st' = .idle h := by
  cases hstep with
  | @call h c μ haccepts =>
    rintro _ _ ⟨⟩
    exact hcode c
  | act hexec =>
    obtain ⟨m, rfl, hk⟩ := hst _ _ rfl
    refine ⟨m, rfl, ?_⟩
    rintro _ _ ⟨⟩
    exact hk _
  | enter =>
    obtain ⟨hlooked, hround⟩ := (hst _ _ rfl).round
    refine ⟨hlooked, ?_⟩
    rintro _ _ ⟨⟩
    exact hround
  | ret => exact ⟨_, rfl⟩

end Endpoint

end conc
