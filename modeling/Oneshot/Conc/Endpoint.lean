import Oneshot.Conc.Program

namespace conc

/-- An object that a thread holds through a handle and calls methods on, one at
    a time. `accepts` lists the calls each handle has, `code` is the body of a
    call and `after` the handle its caller is left with. -/
structure Endpoint (I : Interface) where
  Handle : Type
  Call : Type
  Ret : Type
  accepts : Handle → Call → Bool
  code : Call → Program I Ret
  after : Call → Ret → Handle

namespace Endpoint

variable {I : Interface}

/-- Between two calls, or in the middle of one with the code still to run. -/
inductive State (E : Endpoint I) where
  | idle (h : E.Handle)
  | busy (c : E.Call) (p : Program I E.Ret)

/-- What a thread does in one step: start a call, make one access, begin a round
    of a loop, or return. -/
inductive Event (E : Endpoint I) where
  | call (c : E.Call)
  | act (α : I.Action)
  | enter
  | ret (c : E.Call) (v : E.Ret)

/-- One step of a thread. `exec` is what the memory allows an access to answer
    and what it leaves behind. -/
inductive Step {Mem : Type} (E : Endpoint I) (exec : Mem → I.Action → Mem → Prop) :
    E.State → Mem → E.Event → E.State → Mem → Prop where
  | call {h : E.Handle} {c : E.Call} {μ : Mem} (haccepts : E.accepts h c = true) :
      Step E exec (.idle h) μ (.call c) (.busy c (E.code c)) μ
  | act {c : E.Call} {a : I.Access} {k : I.Resp a → Program I E.Ret} {r : I.Resp a} {μ μ' : Mem}
      (hexec : exec μ ⟨a, r⟩ μ') :
      Step E exec (.busy c (.access a k)) μ (.act ⟨a, r⟩) (.busy c (k r)) μ'
  | enter {c : E.Call} {β : Type} {body : Program I (Option β)} {k : β → Program I E.Ret}
      {μ : Mem} :
      Step E exec (.busy c (.iterate body k)) μ .enter (.busy c (.round body k)) μ
  | ret {c : E.Call} {v : E.Ret} {μ : Mem} :
      Step E exec (.busy c (.ret v)) μ (.ret c v) (.idle (E.after c v)) μ

theorem Step.mono {Mem : Type} {E : Endpoint I} {exec exec' : Mem → I.Action → Mem → Prop}
    (hsub : ∀ μ α μ', exec μ α μ' → exec' μ α μ') {st st' : E.State} {μ μ' : Mem} {e : E.Event}
    (hstep : E.Step exec st μ e st' μ') : E.Step exec' st μ e st' μ' := by
  cases hstep with
  | call haccepts => exact .call haccepts
  | act hexec => exact .act (hsub _ _ _ hexec)
  | enter => exact .enter
  | ret => exact .ret

/-- A step can be made in another memory, if that allows the access it makes. -/
theorem Step.transport {Mem Mem' : Type} {E : Endpoint I} {exec : Mem → I.Action → Mem → Prop}
    {exec' : Mem' → I.Action → Mem' → Prop} {st st' : E.State} {μ μ' : Mem} {ν ν' : Mem'}
    {e : E.Event} (hstep : E.Step exec st μ e st' μ')
    (hact : ∀ α, e = .act α → exec μ α μ' → exec' ν α ν') (hpass : (∀ α, e ≠ .act α) → ν' = ν) :
    E.Step exec' st ν e st' ν' := by
  cases hstep with
  | act hexec => exact .act (hact _ rfl hexec)
  | call haccepts =>
    obtain rfl := hpass fun α h => by cases h
    exact .call haccepts
  | enter =>
    obtain rfl := hpass fun α h => by cases h
    exact .enter
  | ret =>
    obtain rfl := hpass fun α h => by cases h
    exact .ret

/-- The access a thread makes next, when its next step is one. -/
def State.next {E : Endpoint I} : E.State → Option I.Access
  | .busy _ (.access a _) => some a
  | _ => none

/-- What a scheduler tells a thread to do: start a call, or go on with the one
    it is in. -/
inductive Move (E : Endpoint I) where
  | call (c : E.Call)
  | go

/-- A thread's step computed: `exec` answers an access and updates the memory. -/
def State.step {Mem : Type} {E : Endpoint I}
    (exec : Mem → (a : I.Access) → Option (I.Resp a × Mem)) :
    E.State → Mem → E.Move → Option (E.Event × E.State × Mem)
  | .idle h, μ, .call c =>
    if E.accepts h c then some (.call c, .busy c (E.code c), μ) else none
  | .busy c (.access a k), μ, .go =>
    (exec μ a).map fun (r, μ') => (.act ⟨a, r⟩, .busy c (k r), μ')
  | .busy c (.iterate body k), μ, .go => some (.enter, .busy c (.round body k), μ)
  | .busy c (.ret v), μ, .go => some (.ret c v, .idle (E.after c v), μ)
  | _, _, _ => none

theorem State.step_sound {Mem : Type} {E : Endpoint I}
    {exec : Mem → (a : I.Access) → Option (I.Resp a × Mem)}
    {st st' : E.State} {μ μ' : Mem} {m : E.Move} {e : E.Event}
    (hstep : st.step exec μ m = some (e, st', μ')) :
    E.Step (fun μ α μ' => exec μ α.access = some (α.resp, μ')) st μ e st' μ' := by
  unfold State.step at hstep
  split at hstep
  · split at hstep
    · cases hstep
      exact .call ‹_›
    · cases hstep
  · obtain ⟨⟨r, μ₁⟩, hexec, heq⟩ := Option.map_eq_some_iff.mp hstep
    cases heq
    exact .act hexec
  · cases hstep
    exact .enter
  · cases hstep
    exact .ret
  · cases hstep

end Endpoint

end conc
