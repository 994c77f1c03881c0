import Oneshot.Conc.Endpoint

namespace conc

/-- The terms on which code comes to an end: the accesses it may make, the answers it is sure
    to get, and those after which it may go round a loop once more. -/
structure Terms (I : Interface) where
  may : I.Access → Prop
  gets : I.Action → Prop
  again : I.Action → Bool

namespace Program

variable {I : Interface} {α β : Type}

/-- Code that makes at most `n` accesses before it returns or begins a round of a loop, and at
    most `N` in each round. It goes round again only after an answer that lets it, which
    `seen` says it has got since the last round began. -/
def Settles (t : Terms I) (N : Nat) {α : Type} :
    Program I α → Nat → Bool → (α → Nat → Bool → Prop) → Prop
  | .ret v, n, seen, Q => Q v n seen
  | .access a k, n, seen, Q =>
    t.may a ∧ ∃ m, n = m + 1 ∧ ∀ r, t.gets ⟨a, r⟩ → (k r).Settles t N m (seen || t.again ⟨a, r⟩) Q
  | .iterate body k, _, seen, Q => seen = true ∧ body.Settles t N N false fun o n' seen' =>
      match o with
      | none => seen' = true
      | some b => (k b).Settles t N n' seen' Q
  | .unreachable, _, _, _ => True

variable {t : Terms I} {N n : Nat} {seen : Bool}

@[simp] theorem settles_ret {v : α} {Q : α → Nat → Bool → Prop} :
    (ret v : Program I α).Settles t N n seen Q ↔ Q v n seen := Iff.rfl

@[simp] theorem settles_access {a : I.Access} {k : I.Resp a → Program I α}
    {Q : α → Nat → Bool → Prop} :
    (access a k).Settles t N n seen Q ↔ t.may a ∧ 0 < n ∧
      ∀ r, t.gets ⟨a, r⟩ → (k r).Settles t N (n - 1) (seen || t.again ⟨a, r⟩) Q := by
  constructor
  · rintro ⟨hmay, m, rfl, h⟩
    exact ⟨hmay, Nat.succ_pos m, h⟩
  · rintro ⟨hmay, hn, h⟩
    exact ⟨hmay, n - 1, (Nat.sub_add_cancel hn).symm, h⟩

theorem settles_iterate {body : Program I (Option β)} {k : β → Program I α}
    {Q : α → Nat → Bool → Prop} :
    (iterate body k).Settles t N n seen Q ↔
      seen = true ∧ body.Settles t N N false fun o n' seen' =>
        match o with
        | none => seen' = true
        | some b => (k b).Settles t N n' seen' Q := by
  rw [Settles]

@[simp] theorem settles_unreachable {Q : α → Nat → Bool → Prop} :
    (unreachable : Program I α).Settles t N n seen Q ↔ True := Iff.rfl

theorem Settles.mono {p : Program I α} {Q Q' : α → Nat → Bool → Prop}
    (hp : p.Settles t N n seen Q) (hsub : ∀ v n seen, Q v n seen → Q' v n seen) :
    p.Settles t N n seen Q' := by
  induction p generalizing n seen with
  | ret v => exact hsub _ _ _ hp
  | access a k ih =>
    obtain ⟨hmay, hn, hk⟩ := settles_access.mp hp
    exact settles_access.mpr ⟨hmay, hn, fun r hr => ih r (hk r hr) hsub⟩
  | iterate body k ihbody ihk =>
    obtain ⟨hseen, hbody⟩ := settles_iterate.mp hp
    refine settles_iterate.mpr ⟨hseen, ihbody hbody ?_⟩
    rintro (_ | b) m seen' h
    · exact h
    · exact ihk b h hsub
  | unreachable => trivial

@[simp] theorem settles_bind {p : Program I α} {f : α → Program I β} {Q : β → Nat → Bool → Prop} :
    (p.bind f).Settles t N n seen Q ↔
      p.Settles t N n seen fun v m seen' => (f v).Settles t N m seen' Q := by
  induction p generalizing n seen with
  | ret v => exact Iff.rfl
  | access a k ih => simp only [access_bind, settles_access, ih]
  | iterate body k _ ihk =>
    change (iterate body fun c => (k c).bind f).Settles t N n seen Q ↔ _
    rw [settles_iterate, settles_iterate]
    refine and_congr_right fun _ => ⟨fun h => h.mono ?_, fun h => h.mono ?_⟩
    · rintro (_ | c) m seen' h
      · exact h
      · exact (ihk c).mp h
    · rintro (_ | c) m seen' h
      · exact h
      · exact (ihk c).mpr h
  | unreachable => exact Iff.rfl

/-- The rule for `loop { .. }`. -/
theorem settles_loop {body : Program I (Option α)} {Q : α → Nat → Bool → Prop}
    (hbody : body.Settles t N N false fun o m seen' => o.elim (seen' = true) fun b => Q b m seen') :
    (loop body).Settles t N n true Q := by
  refine settles_iterate.mpr ⟨rfl, hbody.mono ?_⟩
  rintro (_ | b) m seen' h
  · exact h
  · exact h

theorem Settles.round {body : Program I (Option β)} {k : β → Program I α}
    {Q : α → Nat → Bool → Prop} (hp : (iterate body k).Settles t N n seen Q) :
    seen = true ∧ (Program.round body k).Settles t N N false Q := by
  obtain ⟨hseen, hbody⟩ := settles_iterate.mp hp
  refine ⟨hseen, settles_bind.mpr (hbody.mono ?_)⟩
  rintro (_ | b) m seen' h
  · exact settles_iterate.mpr ⟨h, hbody⟩
  · exact h

/-- The steps that are left of such code, if nothing lets it go round again any more. -/
def steps (N n : Nat) (seen : Bool) : Nat := n + 1 + if seen then N + 1 else 0

end Program

namespace Endpoint

variable {I : Interface} {Mem : Type} {E : Endpoint I} {exec : Mem → I.Action → Mem → Prop}

/-- The call `c` is going on, and `k` steps are left of it on these terms. -/
def State.Within (t : Terms I) (N : Nat) (c : E.Call) (st : E.State) (k : Nat) : Prop :=
  ∃ q n seen, st = .busy c q ∧ q.Settles t N n seen (fun _ _ _ => True) ∧
    k = Program.steps N n seen

variable {t : Terms I} {N k : Nat} {c : E.Call} {st st' : E.State} {μ μ' : Mem} {e : E.Event}

theorem State.Within.may (h : st.Within t N c k) {a : I.Access} (hnext : st.next = some a) :
    t.may a := by
  obtain ⟨q, n, seen, rfl, hq, _⟩ := h
  cases q with
  | access a' k' =>
    cases hnext
    exact (Program.settles_access.mp hq).1
  | _ => cases hnext

/-- On these terms a call returns, or it goes on. -/
theorem Step.within (hstep : E.Step exec st μ e st' μ') (h : st.Within t N c k)
    (hgets : ∀ α, e = .act α → t.gets α) :
    (∃ v, e = .ret c v) ∨ ∃ k', st'.Within t N c k' ∧
      ((∀ α, e = .act α → t.again α = false) → k' < k) := by
  obtain ⟨q, n, seen, rfl, hq, rfl⟩ := h
  cases hstep with
  | @act c a p r _ _ hexec =>
    obtain ⟨_, hn, hk⟩ := Program.settles_access.mp hq
    refine .inr ⟨_, ⟨_, _, _, rfl, hk r (hgets _ rfl), rfl⟩, fun hagain => ?_⟩
    rw [hagain _ rfl, Bool.or_false]
    unfold Program.steps
    omega
  | enter =>
    obtain ⟨rfl, hround⟩ := Program.Settles.round hq
    refine .inr ⟨_, ⟨_, _, _, rfl, hround, rfl⟩, fun _ => ?_⟩
    simp only [Program.steps, if_true, Bool.false_eq_true, if_false]
    omega
  | ret => exact .inl ⟨_, rfl⟩

end Endpoint

end conc
