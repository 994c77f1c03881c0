import Mathlib.Init

namespace conc

/-- What a thread may ask of the memory and the platform around it, and the
    type of the answer to each question. -/
structure Interface where
  Access : Type
  Resp : Access → Type

/-- One access together with the answer it got. -/
structure Interface.Action (I : Interface) where
  access : I.Access
  resp : I.Resp access

/-- Code that talks to an interface. Every node is one access, so that two
    programs can be interleaved access by access. `iterate` runs its body until
    it yields a value, which the continuation then receives. -/
inductive Program (I : Interface) : Type → Type 1 where
  | ret {α : Type} (value : α) : Program I α
  | access {α : Type} (a : I.Access) (k : I.Resp a → Program I α) : Program I α
  | iterate {α β : Type} (body : Program I (Option β)) (k : β → Program I α) : Program I α
  | unreachable {α : Type} : Program I α

namespace Program

variable {I : Interface} {α β γ : Type}

def bind : Program I α → (α → Program I β) → Program I β
  | .ret value, f => f value
  | .access a k, f => .access a fun r => (k r).bind f
  | .iterate body k, f => .iterate body fun b => (k b).bind f
  | .unreachable, _ => .unreachable

instance : Monad (Program I) where
  pure := .ret
  bind := bind

/-- A single access whose answer is the result. -/
def perform (a : I.Access) : Program I (I.Resp a) := .access a .ret

/-- `loop { .. }`: the body yields `some b` to break with `b`, and `none` to go
    round once more. -/
def loop (body : Program I (Option α)) : Program I α := .iterate body .ret

/-- One round of an `iterate`: the body, then either the loop again or the
    code after it. -/
def round (body : Program I (Option β)) (k : β → Program I α) : Program I α :=
  body.bind fun
    | none => .iterate body k
    | some b => k b

@[simp] theorem pure_eq (value : α) : (pure value : Program I α) = .ret value := rfl

@[simp] theorem bind_eq (p : Program I α) (f : α → Program I β) : p >>= f = p.bind f := rfl

@[simp] theorem map_eq (f : α → β) (p : Program I α) :
    f <$> p = p.bind fun value => .ret (f value) := rfl

@[simp] theorem ret_bind (value : α) (f : α → Program I β) :
    (ret value : Program I α).bind f = f value := rfl

@[simp] theorem access_bind (a : I.Access) (k : I.Resp a → Program I α) (f : α → Program I β) :
    (access a k).bind f = access a fun r => (k r).bind f := rfl

/-- Code with no loop in it that ends after at most `n` accesses, whatever they
    answer. -/
def Ends : Nat → Program I α → Prop
  | _, .ret _ => True
  | 0, .access _ _ => False
  | n + 1, .access _ k => ∀ r, (k r).Ends n
  | _, .iterate _ _ => False
  | _, .unreachable => True

theorem ends_ret (value : α) (n : Nat) : (ret value : Program I α).Ends n := by
  cases n <;> trivial

theorem Ends.mono {p : Program I α} {n m : Nat} (hp : p.Ends n) (hle : n ≤ m) : p.Ends m := by
  induction p generalizing n m with
  | ret value => exact ends_ret value m
  | access a k ih =>
    cases n with
    | zero => exact hp.elim
    | succ n =>
      obtain ⟨m, rfl⟩ := Nat.exists_eq_add_of_le' (Nat.one_le_of_lt hle)
      exact fun r => ih r (hp r) (Nat.le_of_succ_le_succ hle)
  | iterate body k => cases n <;> exact hp.elim
  | unreachable => cases m <;> trivial

theorem Ends.bind {p : Program I α} {n m : Nat} (hp : p.Ends n) {f : α → Program I β}
    (hf : ∀ value, (f value).Ends m) : (p.bind f).Ends (n + m) := by
  induction p generalizing n with
  | ret value => exact (hf value).mono (Nat.le_add_left m n)
  | access a k ih =>
    cases n with
    | zero => exact hp.elim
    | succ n =>
      rw [Nat.succ_add]
      exact fun r => ih r (hp r) hf
  | iterate body k => cases n <;> exact hp.elim
  | unreachable => cases n <;> cases m <;> trivial

theorem Ends.map {p : Program I α} {n : Nat} (hp : p.Ends n) (f : α → β) :
    (do return f (← p) : Program I β).Ends n :=
  hp.bind (m := 0) fun value => ends_ret (f value) 0

end Program

end conc
