import Oneshot.Conc.Endpoint

namespace conc

namespace Program

variable {I : Interface} {α β γ : Type}

/-- A whole execution of the code, as the accesses it makes with their answers: it
    makes `acts` and returns `v`. -/
inductive Trace : Program I α → List I.Action → α → Prop where
  | ret {v : α} : Trace (.ret v) [] v
  | act {a : I.Access} {k : I.Resp a → Program I α} {r : I.Resp a} {acts : List I.Action} {v : α}
      (hrest : Trace (k r) acts v) : Trace (.access a k) (⟨a, r⟩ :: acts) v
  | enter {β : Type} {body : Program I (Option β)} {k : β → Program I α} {acts : List I.Action}
      {v : α} (hrest : Trace (round body k) acts v) : Trace (.iterate body k) acts v

/-- The code has made the accesses `acts`, and is left with the second program. -/
inductive After (p : Program I α) : List I.Action → Program I α → Prop where
  | nil : After p [] p
  | act {acts : List I.Action} {a : I.Access} {k : I.Resp a → Program I α} (r : I.Resp a)
      (hafter : After p acts (.access a k)) : After p (acts ++ [⟨a, r⟩]) (k r)
  | enter {acts : List I.Action} {β : Type} {body : Program I (Option β)} {k : β → Program I α}
      (hafter : After p acts (.iterate body k)) : After p acts (round body k)

theorem round_bind (body : Program I (Option γ)) (k : γ → Program I α) (f : α → Program I β) :
    (round body k).bind f = round body fun c => (k c).bind f := by
  have hassoc {δ : Type} (p : Program I δ) (g : δ → Program I α) :
      (p.bind g).bind f = p.bind fun d => (g d).bind f := by
    induction p with
    | ret v => rfl
    | access a k ih => exact congrArg (Program.access a) (funext fun r => ih r g)
    | iterate body k _ ih => exact congrArg (Program.iterate body) (funext fun c => ih c g)
    | unreachable => rfl
  rw [round, round, hassoc]
  refine congrArg body.bind (funext fun o => ?_)
  cases o <;> rfl

@[simp] theorem trace_ret {v w : α} {acts : List I.Action} :
    (ret v : Program I α).Trace acts w ↔ acts = [] ∧ w = v := by
  constructor
  · rintro ⟨⟩
    exact ⟨rfl, rfl⟩
  · rintro ⟨rfl, rfl⟩
    exact .ret

@[simp] theorem trace_access {a : I.Access} {k : I.Resp a → Program I α} {acts : List I.Action}
    {v : α} : (access a k).Trace acts v ↔
      ∃ r rest, acts = ⟨a, r⟩ :: rest ∧ (k r).Trace rest v := by
  constructor
  · rintro (_ | hrest)
    exact ⟨_, _, rfl, hrest⟩
  · rintro ⟨r, rest, rfl, hrest⟩
    exact .act hrest

@[simp] theorem trace_unreachable {acts : List I.Action} {v : α} :
    ¬ (unreachable : Program I α).Trace acts v := by
  rintro ⟨⟩

theorem Trace.bind {p : Program I α} {f : α → Program I β} {acts rest : List I.Action} {v : α}
    {w : β} (hp : p.Trace acts v) (hf : (f v).Trace rest w) :
    (p.bind f).Trace (acts ++ rest) w := by
  induction hp with
  | ret => exact hf
  | act _ ih => exact .act (ih hf)
  | enter _ ih =>
    refine .enter ?_
    rw [← round_bind]
    exact ih hf

/-- The accesses of a sequence are those of its two parts. -/
theorem trace_bind {p : Program I α} {f : α → Program I β} {acts : List I.Action} {w : β} :
    (p.bind f).Trace acts w ↔
      ∃ first v rest, acts = first ++ rest ∧ p.Trace first v ∧ (f v).Trace rest w := by
  constructor
  · intro htrace
    generalize hq : p.bind f = q at htrace
    induction htrace generalizing p with
    | @ret w =>
      cases p with
      | ret v =>
        replace hq : f v = .ret w := hq
        exact ⟨[], v, [], rfl, .ret, by rw [hq]; exact .ret⟩
      | _ => cases hq
    | @act a k r acts w hrest ih =>
      cases p with
      | ret v =>
        replace hq : f v = .access a k := hq
        exact ⟨[], v, _, rfl, .ret, by rw [hq]; exact .act hrest⟩
      | access b k' =>
        cases hq
        obtain ⟨first, v, rest, rfl, hfirst, hrest⟩ := ih (p := k' r) rfl
        exact ⟨_, v, rest, rfl, .act hfirst, hrest⟩
      | _ => cases hq
    | @enter γ body k acts w hrest ih =>
      cases p with
      | ret v =>
        replace hq : f v = .iterate body k := hq
        exact ⟨[], v, _, rfl, .ret, by rw [hq]; exact .enter hrest⟩
      | iterate body' k' =>
        cases hq
        obtain ⟨first, v, rest, rfl, hfirst, hrest⟩ := ih (p := round body k') (round_bind _ _ _)
        exact ⟨first, v, rest, rfl, .enter hfirst, hrest⟩
      | _ => cases hq
  · rintro ⟨first, v, rest, rfl, hfirst, hrest⟩
    exact hfirst.bind hrest

/-- The rest of a round, and the rounds after it. `done` is what the round has made,
    and `P` holds of what the rounds before it have made. -/
theorem Trace.rounds {body : Program I (Option α)} {P : List I.Action → Prop}
    (hround : ∀ acts more, P acts → body.Trace more none → P (acts ++ more)) {p : Program I (Option α)}
    {before acts : List I.Action} (done : List I.Action) {v : α}
    (htrace : (p.bind fun
      | none => loop body
      | some b => .ret b).Trace acts v)
    (hbefore : P before) (hdone : ∀ more o, p.Trace more o → body.Trace (done ++ more) o) :
    ∃ pre last, before ++ done ++ acts = pre ++ last ∧ P pre ∧ body.Trace last (some v) := by
  generalize hq : (p.bind fun
    | none => loop body
    | some b => .ret b) = q at htrace
  induction htrace generalizing p before done with
  | @ret w =>
    cases p with
    | ret o =>
      cases o with
      | none => cases hq
      | some b =>
        cases hq
        exact ⟨before, done, by simp, hbefore, by simpa using hdone [] _ .ret⟩
    | _ => cases hq
  | @act a k r acts w hrest ih =>
    cases p with
    | ret o => cases o <;> cases hq
    | access b k' =>
      cases hq
      have hdone' (more : List I.Action) (o : Option α) (hmore : (k' r).Trace more o) :
          body.Trace ((done ++ [⟨a, r⟩]) ++ more) o := by
        simpa using hdone _ o (.act hmore)
      obtain ⟨pre, last, heq, hpre, hlast⟩ := ih _ hbefore hdone' rfl
      exact ⟨pre, last, by simpa using heq, hpre, hlast⟩
    | _ => cases hq
  | @enter γ inner k acts w hrest ih =>
    cases p with
    | ret o =>
      cases o with
      | none =>
        cases hq
        -- The round is over, and the next one begins.
        have hbefore' : P (before ++ done) :=
          hround before done hbefore (by simpa using hdone [] _ .ret)
        obtain ⟨pre, last, heq, hpre, hlast⟩ :=
          ih (p := body) [] hbefore' (fun more o h => h) rfl
        exact ⟨pre, last, by simpa using heq, hpre, hlast⟩
      | some b => cases hq
    | iterate inner' k' =>
      cases hq
      exact ih done hbefore (fun more o h => hdone more o (.enter h)) (round_bind _ _ _)
    | _ => cases hq

/-- The accesses of a loop are those of the rounds that it does not break in, and of
    the one that it does. What the former keep holds when the last begins. -/
theorem Trace.loop {body : Program I (Option α)} (P : List I.Action → Prop) (hnil : P [])
    (hround : ∀ acts more, P acts → body.Trace more none → P (acts ++ more))
    {acts : List I.Action} {v : α} (htrace : (loop body).Trace acts v) :
    ∃ pre last, acts = pre ++ last ∧ P pre ∧ body.Trace last (some v) := by
  cases htrace with
  | enter hrest =>
    obtain ⟨pre, last, heq, hpre, hlast⟩ :=
      Trace.rounds hround [] hrest hnil fun more o h => h
    exact ⟨pre, last, heq, hpre, hlast⟩

/-- What the code has made so far, and what is left of it makes, is a whole execution. -/
theorem After.trace {p q : Program I α} {acts rest : List I.Action} {v : α}
    (hafter : p.After acts q) (hrest : q.Trace rest v) : p.Trace (acts ++ rest) v := by
  induction hafter generalizing rest with
  | nil => exact hrest
  | act r _ ih =>
    rw [List.append_assoc]
    exact ih (.act hrest)
  | enter _ ih => exact ih (.enter hrest)

end Program

namespace Endpoint

variable {I : Interface} {Mem : Type} {E : Endpoint I} {exec : Mem → I.Action → Mem → Prop}

/-- The access an event is, if it is one. -/
def Event.action : E.Event → Option I.Action
  | .act α => some α
  | _ => none

def Event.returns : E.Event → Bool
  | .ret _ _ => true
  | _ => false

/-- The thread is in the call `c`, and has made the accesses `acts` in it. -/
def State.Has (st : E.State) (c : E.Call) (acts : List I.Action) : Prop :=
  ∃ p, st = .busy c p ∧ (E.code c).After acts p

theorem Step.has_call {st st' : E.State} {μ μ' : Mem} {c : E.Call}
    (hstep : E.Step exec st μ (.call c) st' μ') : st'.Has c [] := by
  cases hstep with
  | call haccepts => exact ⟨_, rfl, .nil⟩

/-- A thread goes on with the call it is in until it returns. -/
theorem Step.has {st st' : E.State} {μ μ' : Mem} {e : E.Event} {c : E.Call}
    {acts : List I.Action} (hstep : E.Step exec st μ e st' μ') (hhas : st.Has c acts)
    (he : e.returns = false) : st'.Has c (acts ++ e.action.toList) := by
  obtain ⟨p, rfl, hafter⟩ := hhas
  cases hstep with
  | act hexec => exact ⟨_, rfl, .act _ hafter⟩
  | enter =>
    refine ⟨_, rfl, ?_⟩
    simpa [Event.action] using Program.After.enter hafter
  | ret => cases he

/-- When it returns it has executed the code of the call. -/
theorem Step.trace {st st' : E.State} {μ μ' : Mem} {c c' : E.Call} {v : E.Ret}
    {acts : List I.Action} (hstep : E.Step exec st μ (.ret c' v) st' μ') (hhas : st.Has c acts) :
    c' = c ∧ (E.code c).Trace acts v := by
  obtain ⟨p, rfl, hafter⟩ := hhas
  cases hstep with
  | ret =>
    refine ⟨rfl, ?_⟩
    simpa using hafter.trace .ret

end Endpoint

end conc
