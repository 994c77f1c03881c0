import Oneshot.Conc.Endpoint

namespace conc

/-- A thread's part in a protocol, as roles. `on ρ a` is `none` when a thread in
    role `ρ` must not make access `a`; otherwise it relates each answer the
    protocol allows to the role the thread has after it. Loops are entered only
    in the roles `waits` names. -/
structure Automaton (I : Interface) where
  Role : Type
  on : Role → (a : I.Access) → Option (I.Resp a → Role → Prop)
  waits : Role → Prop

namespace Program

variable {I : Interface} {A : Automaton I} {G : Type} {track : G → I.Action → Option G}
  {α β : Type}

/-- The code plays its part from role `ρ` and returns only as `Q` says: it makes
    only the accesses its role has, whatever the allowed answers, and never
    panics. The ghost value `g` is carried along by `track`, which may refuse an
    action. A loop needs an invariant `J`. -/
def Follows (A : Automaton I) {G : Type} (track : G → I.Action → Option G) {α : Type} :
    Program I α → A.Role → G → (α → A.Role → G → Prop) → Prop
  | .ret v, ρ, g, Q => Q v ρ g
  | .access a k, ρ, g, Q => ∃ f, A.on ρ a = some f ∧
      ∀ r ρ', f r ρ' → ∃ g', track g ⟨a, r⟩ = some g' ∧ (k r).Follows A track ρ' g' Q
  | .iterate body k, ρ, g, Q => ∃ J : A.Role → G → Prop, J ρ g ∧
      ∀ ρ g, J ρ g → A.waits ρ ∧ body.Follows A track ρ g fun o ρ' g' =>
        match o with
        | none => J ρ' g'
        | some b => (k b).Follows A track ρ' g' Q
  | .unreachable, _, _, _ => False

theorem follows_access {a : I.Access} {k : I.Resp a → Program I α} {ρ : A.Role} {g : G}
    {Q : α → A.Role → G → Prop} :
    (access a k).Follows A track ρ g Q ↔ ∃ f, A.on ρ a = some f ∧
      ∀ r ρ', f r ρ' → ∃ g', track g ⟨a, r⟩ = some g' ∧ (k r).Follows A track ρ' g' Q := Iff.rfl

theorem Follows.mono {p : Program I α} {ρ : A.Role} {g : G} {Q Q' : α → A.Role → G → Prop}
    (hp : p.Follows A track ρ g Q) (hsub : ∀ v ρ g, Q v ρ g → Q' v ρ g) :
    p.Follows A track ρ g Q' := by
  induction p generalizing ρ g with
  | ret v => exact hsub _ _ _ hp
  | access a k ih =>
    obtain ⟨f, hon, hk⟩ := hp
    refine ⟨f, hon, fun r ρ' hr => ?_⟩
    obtain ⟨g', htrack, hrest⟩ := hk r ρ' hr
    exact ⟨g', htrack, ih r hrest hsub⟩
  | iterate body k ihbody ihk =>
    obtain ⟨J, hJ, hround⟩ := hp
    refine ⟨J, hJ, fun ρ g hJ => ⟨(hround ρ g hJ).1, ihbody (hround ρ g hJ).2 ?_⟩⟩
    rintro (_ | b) ρ' g' h
    · exact h
    · exact ihk b h hsub
  | unreachable => exact hp

/-- Sequencing: the first program has to return in roles from which the second
    one follows the protocol. -/
theorem follows_bind {p : Program I α} {f : α → Program I β} {ρ : A.Role} {g : G}
    {Q : β → A.Role → G → Prop} :
    (p.bind f).Follows A track ρ g Q ↔
      p.Follows A track ρ g fun v ρ' g' => (f v).Follows A track ρ' g' Q := by
  induction p generalizing ρ g with
  | ret v => exact Iff.rfl
  | access a k ih => simp only [access_bind, follows_access, ih]
  | iterate body k ihbody ihk =>
    constructor
    · rintro ⟨J, hJ, hround⟩
      refine ⟨J, hJ, fun ρ g hJ => ⟨(hround ρ g hJ).1, (hround ρ g hJ).2.mono ?_⟩⟩
      rintro (_ | b) ρ' g' h
      · exact h
      · exact (ihk b).mp h
    · rintro ⟨J, hJ, hround⟩
      refine ⟨J, hJ, fun ρ g hJ => ⟨(hround ρ g hJ).1, (hround ρ g hJ).2.mono ?_⟩⟩
      rintro (_ | b) ρ' g' h
      · exact h
      · exact (ihk b).mpr h
  | unreachable => exact Iff.rfl

/-- The rule for `loop { .. }`: every round that starts in the invariant goes
    round again in it or breaks with a value that `Q` allows. -/
theorem follows_loop {body : Program I (Option α)} {ρ : A.Role} {g : G}
    {Q : α → A.Role → G → Prop} (J : A.Role → G → Prop) (hJ : J ρ g)
    (hround : ∀ ρ g, J ρ g → A.waits ρ ∧
      body.Follows A track ρ g fun o ρ' g' => o.elim (J ρ' g') fun b => Q b ρ' g') :
    (loop body).Follows A track ρ g Q := by
  refine ⟨J, hJ, fun ρ g hJ => ⟨(hround ρ g hJ).1, (hround ρ g hJ).2.mono ?_⟩⟩
  rintro (_ | b) ρ' g' h
  · exact h
  · exact h

/-- Beginning a round leaves the thread in its role, and the round follows the
    protocol again. -/
theorem Follows.round {body : Program I (Option β)} {k : β → Program I α} {ρ : A.Role} {g : G}
    {Q : α → A.Role → G → Prop} (hp : (iterate body k).Follows A track ρ g Q) :
    A.waits ρ ∧ (Program.round body k).Follows A track ρ g Q := by
  obtain ⟨J, hJ, hround⟩ := hp
  refine ⟨(hround ρ g hJ).1, follows_bind.mpr ((hround ρ g hJ).2.mono ?_)⟩
  rintro (_ | b) ρ' g' h
  · exact ⟨J, h, hround⟩
  · exact h

end Program

/-- What the protocol asks of an endpoint: the roles in which each handle may be
    held between calls, the ghost value every call starts from and how its
    actions move it, and the roles and ghost values each result may be returned
    in. `code_follows` is one obligation for each call. -/
structure Contract {I : Interface} (E : Endpoint I) where
  auto : Automaton I
  Ghost : Type
  start : Ghost
  track : E.Call → Ghost → I.Action → Option Ghost
  Ready : E.Handle → auto.Role → Prop
  Post : E.Call → E.Ret → auto.Role → Ghost → Prop
  code_follows : ∀ {h c ρ}, E.accepts h c = true → Ready h ρ →
    (E.code c).Follows auto (track c) ρ start (Post c)
  post_ready : ∀ {c v ρ g}, Post c v ρ g → Ready (E.after c v) ρ

namespace Contract

variable {I : Interface} {E : Endpoint I}

/-- A thread as the protocol sees it: the role it has, and within a call also
    the ghost value. -/
inductive Session (C : Contract E) where
  | between (h : E.Handle) (ρ : C.auto.Role)
  | during (c : E.Call) (ρ : C.auto.Role) (g : C.Ghost)

variable {C : Contract E}

def Session.role : C.Session → C.auto.Role
  | .between _ ρ => ρ
  | .during _ ρ _ => ρ

/-- One event of a session. An access moves the role along the automaton. -/
inductive Session.Step : C.Session → E.Event → C.Session → Prop where
  | call {h : E.Handle} {c : E.Call} {ρ : C.auto.Role} (haccepts : E.accepts h c = true)
      (hready : C.Ready h ρ) : Step (.between h ρ) (.call c) (.during c ρ C.start)
  | act {c : E.Call} {ρ ρ' : C.auto.Role} {g g' : C.Ghost} {α : I.Action}
      {f : I.Resp α.access → C.auto.Role → Prop} (hon : C.auto.on ρ α.access = some f)
      (hmove : f α.resp ρ') (htrack : C.track c g α = some g') :
      Step (.during c ρ g) (.act α) (.during c ρ' g')
  | enter {c : E.Call} {ρ : C.auto.Role} {g : C.Ghost} (hwaits : C.auto.waits ρ) :
      Step (.during c ρ g) .enter (.during c ρ g)
  | ret {c : E.Call} {v : E.Ret} {ρ : C.auto.Role} {g : C.Ghost} (hpost : C.Post c v ρ g) :
      Step (.during c ρ g) (.ret c v) (.between (E.after c v) ρ)

/-- The session a thread state is in: the code still to run follows the protocol
    from the session's role. -/
inductive Session.Tracks : E.State → C.Session → Prop where
  | idle {h : E.Handle} {ρ : C.auto.Role} (hready : C.Ready h ρ) :
      Tracks (.idle h) (.between h ρ)
  | busy {c : E.Call} {p : Program I E.Ret} {ρ : C.auto.Role} {g : C.Ghost}
      (hfollows : p.Follows C.auto (C.track c) ρ g (C.Post c)) :
      Tracks (.busy c p) (.during c ρ g)

/-- A thread that keeps to its contract makes no access that its role does not
    have. -/
theorem Session.Tracks.on_next {st : E.State} {ss : C.Session} (htracks : Session.Tracks st ss)
    {a : I.Access} (hnext : st.next = some a) : ∃ f, C.auto.on ss.role a = some f := by
  cases htracks with
  | idle hready => cases hnext
  | @busy c p ρ g hfollows =>
    cases p with
    | access b k =>
      cases hnext
      obtain ⟨f, hon, _⟩ := hfollows
      exact ⟨f, hon⟩
    | _ => cases hnext

/-- In a role no handle is held in, and in which no loop is begun, the thread's
    next step is an access its role has. -/
theorem Session.Tracks.next_of_unready {st : E.State} {ss : C.Session}
    (htracks : Session.Tracks st ss) (hready : ∀ h, ¬ C.Ready h ss.role)
    (hwaits : ¬ C.auto.waits ss.role) : ∃ a f, st.next = some a ∧ C.auto.on ss.role a = some f := by
  cases htracks with
  | idle h => exact (hready _ h).elim
  | @busy c p ρ g hfollows =>
    cases p with
    | ret v => exact (hready _ (C.post_ready hfollows)).elim
    | access a k =>
      obtain ⟨f, hon, _⟩ := hfollows
      exact ⟨a, f, rfl, hon⟩
    | iterate body k => exact (hwaits hfollows.round.1).elim
    | unreachable => exact hfollows.elim

/-- In a role that has no accesses left, and in which no loop is begun, a call is about
    to return. -/
theorem Session.Tracks.post {st : E.State} {c : E.Call} {ρ : C.auto.Role} {g : C.Ghost}
    (htracks : Session.Tracks st (.during c ρ g)) (hon : ∀ a, C.auto.on ρ a = none)
    (hwaits : ¬ C.auto.waits ρ) : ∃ v, C.Post c v ρ g := by
  cases htracks with
  | @busy c p ρ g hfollows =>
    cases p with
    | ret v => exact ⟨v, hfollows⟩
    | access a k =>
      obtain ⟨f, hsome, _⟩ := hfollows
      rw [hon a] at hsome
      cases hsome
    | iterate body k => exact (hwaits hfollows.round.1).elim
    | unreachable => exact hfollows.elim

/-- A step of the thread is an event of its session, as long as the answer to an
    access is one the protocol allows in that role. -/
theorem Session.Tracks.step {Mem : Type} {exec : Mem → I.Action → Mem → Prop}
    {st st' : E.State} {μ μ' : Mem} {e : E.Event} {ss : C.Session}
    (htracks : Session.Tracks st ss) (hstep : E.Step exec st μ e st' μ')
    {P : C.auto.Role → Prop}
    (hallowed : ∀ α f, e = .act α → C.auto.on ss.role α.access = some f → exec μ α μ' →
      ∃ ρ', f α.resp ρ' ∧ P ρ') (hkeep : (∀ α, e ≠ .act α) → P ss.role) :
    ∃ ss', Session.Step ss e ss' ∧ Session.Tracks st' ss' ∧ P ss'.role := by
  cases htracks with
  | idle hready =>
    cases hstep with
    | call haccepts =>
      exact ⟨_, .call haccepts hready, .busy (C.code_follows haccepts hready),
        hkeep (fun α h => by cases h)⟩
  | busy hfollows =>
    cases hstep with
    | @act c a k r μ μ' hexec =>
      obtain ⟨f, hon, hk⟩ := hfollows
      obtain ⟨ρ', hmove, hP⟩ := hallowed ⟨a, r⟩ f rfl hon hexec
      obtain ⟨g', htrack, hrest⟩ := hk r ρ' hmove
      exact ⟨_, .act hon hmove htrack, .busy hrest, hP⟩
    | enter =>
      obtain ⟨hwaits, hround⟩ := hfollows.round
      exact ⟨_, .enter hwaits, .busy hround, hkeep (fun α h => by cases h)⟩
    | ret =>
      exact ⟨_, .ret hfollows, .idle (C.post_ready hfollows), hkeep (fun α h => by cases h)⟩

end Contract

end conc
