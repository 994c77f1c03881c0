import Mathlib.Logic.Function.Basic
import Oneshot.Conc.Run

namespace conc

/-- An object whose operations take effect at one instant each. `step s op res s'`
    says that `op` may answer `res` in `s`, and leave `s'`. -/
structure Atomic where
  State : Type
  Op : Type
  Res : Type
  init : State
  step : State → Op → Res → State → Prop

namespace Atomic

variable {A : Atomic} {Client L S : Type}

/-- What the clients of an object are seen to do. -/
inductive Event (A : Atomic) (Client : Type) where
  | call (i : Client) (op : A.Op)
  | ret (i : Client) (op : A.Op) (res : A.Res)

def Event.client : A.Event Client → Client
  | .call i _ | .ret i _ _ => i

/-- An event, or the point at which an operation takes effect. -/
inductive Mark (A : Atomic) (Client : Type) where
  | event (e : A.Event Client)
  | point (i : Client) (op : A.Op) (res : A.Res)

namespace Mark

def client : A.Mark Client → Client
  | .event (.call i _) | .event (.ret i _ _) | .point i _ _ => i

def event? : A.Mark Client → Option (A.Event Client)
  | .event e => some e
  | .point .. => none

def point? : A.Mark Client → Option (A.Op × A.Res)
  | .event _ => none
  | .point _ op res => some (op, res)

end Mark

/-- How far one client is with an operation. -/
inductive Status (A : Atomic) where
  | idle
  | called (op : A.Op)
  | done (op : A.Op) (res : A.Res)

/-- One client: an operation is called, takes effect, and returns the result it
    had when it took effect. -/
inductive Status.Step : A.Status → A.Mark Client → A.Status → Prop where
  | call {i : Client} {op : A.Op} : Step .idle (.event (.call i op)) (.called op)
  | point {i : Client} {op : A.Op} {res : A.Res} : Step (.called op) (.point i op res) (.done op res)
  | ret {i : Client} {op : A.Op} {res : A.Res} : Step (.done op res) (.event (.ret i op res)) .idle

/-- The object used by one client after the other. -/
def Sequential (s : A.State) (p : A.Op × A.Res) (s' : A.State) : Prop := A.step s p.1 p.2 s'

/-- Points can be put into the history, one for each operation that has returned
    and at most one for each that has not, such that every operation has its point
    between its call and its return, and the results are those of the object used
    in the order of the points. -/
def Linearizable [DecidableEq Client] (A : Atomic) (h : List (A.Event Client)) : Prop :=
  ∃ marks : List (A.Mark Client), marks.filterMap Mark.event? = h ∧
    (∃ s, Run Sequential A.init (marks.filterMap Mark.point?) s) ∧
    ∀ i, ∃ st, Run Status.Step .idle (marks.filter fun m => m.client = i) st

/-- Every client could have seen the same in a linearizable history, in which the clients may
    come in another order. -/
def SequentiallyConsistent [DecidableEq Client] (A : Atomic) (h : List (A.Event Client)) : Prop :=
  ∃ h' : List (A.Event Client), A.Linearizable h' ∧
    ∀ i, h.filter (fun e => e.client = i) = h'.filter fun e => e.client = i

/-- The object with the status of every client. -/
structure Config (A : Atomic) (Client : Type) where
  obj : A.State
  status : Client → A.Status

namespace Config

variable [DecidableEq Client]

/-- What a mark does to the object. -/
def Effect (s : A.State) : A.Mark Client → A.State → Prop
  | .event _, s' => s' = s
  | .point _ op res, s' => A.step s op res s'

/-- One mark moves the status of its client, and the object if it is a point. -/
def Step (c : A.Config Client) (m : A.Mark Client) (c' : A.Config Client) : Prop :=
  ∃ st, Status.Step (c.status m.client) m st ∧
    c'.status = Function.update c.status m.client st ∧ Effect c.obj m c'.obj

/-- A step given by the configuration after it. -/
theorem Step.intro {c c' : A.Config Client} {m : A.Mark Client}
    (hstatus : Status.Step (c.status m.client) m (c'.status m.client))
    (hothers : ∀ i, i ≠ m.client → c'.status i = c.status i) (heffect : Effect c.obj m c'.obj) :
    Step c m c' := by
  refine ⟨c'.status m.client, hstatus, funext fun i => ?_, heffect⟩
  by_cases hi : i = m.client
  · subst hi
    rw [Function.update_self]
  · rw [Function.update_of_ne hi, hothers i hi]

def start (A : Atomic) (Client : Type) : A.Config Client := ⟨A.init, fun _ => .idle⟩

/-- Some marks that show the event `e`, or none at all, lead from one configuration
    to the other. -/
def Shows (c : A.Config Client) (e : Option (A.Event Client)) (c' : A.Config Client) : Prop :=
  ∃ marks, Run Step c marks c' ∧ marks.filterMap Mark.event? = e.toList

theorem Shows.nothing {c : A.Config Client} : Shows c none c := ⟨[], .nil, rfl⟩

theorem Shows.of_step {c c' : A.Config Client} {m : A.Mark Client} (hstep : Step c m c') :
    Shows c m.event? c' := by
  refine ⟨[m], Run.nil.snoc hstep, ?_⟩
  cases m <;> rfl

/-- Points may come before what is shown. -/
theorem Shows.point {c c' c'' : A.Config Client} {e : Option (A.Event Client)} {i : Client}
    {op : A.Op} {res : A.Res} (hstep : Step c (.point i op res) c') (hshows : Shows c' e c'') :
    Shows c e c'' := by
  obtain ⟨marks, hrun, hevents⟩ := hshows
  exact ⟨_, (Run.nil.snoc hstep).trans hrun, hevents⟩

/-- The points of a run use the object one after the other. -/
theorem run_points {marks : List (A.Mark Client)} {c : A.Config Client}
    (hrun : Run Step (start A Client) marks c) :
    Run Sequential A.init (marks.filterMap Mark.point?) c.obj := by
  induction hrun with
  | nil => exact .nil
  | @snoc marks c c' m _ hstep ih =>
    obtain ⟨st, _, _, heffect⟩ := hstep
    rw [filterMap_snoc]
    cases m with
    | event e =>
      have hobj : c'.obj = c.obj := heffect
      simpa [Mark.point?, hobj] using ih
    | point i op res => exact ih.snoc heffect

/-- The marks of one client are what that client does. -/
theorem run_client {marks : List (A.Mark Client)} {c : A.Config Client}
    (hrun : Run Step (start A Client) marks c) (i : Client) :
    Run Status.Step .idle (marks.filter fun m => m.client = i) (c.status i) := by
  induction hrun with
  | nil => exact .nil
  | @snoc marks c c' m _ hstep ih =>
    obtain ⟨st, hst, hstatus, _⟩ := hstep
    rw [List.filter_append, hstatus]
    by_cases hi : m.client = i
    · subst hi
      simpa using ih.snoc hst
    · simpa [hi, Function.update_of_ne (Ne.symm hi)] using ih

end Config

/-- A system whose every step is matched by marks that show the same events is
    linearizable. -/
theorem linearizable_of_simulation [DecidableEq Client] {Step : S → L → S → Prop} {s₀ s : S}
    {event : L → Option (A.Event Client)} {R : S → A.Config Client → Prop}
    (hinit : R s₀ (Config.start A Client))
    (hstep : ∀ s c l s', R s c → Step s l s' → ∃ c', Config.Shows c (event l) c' ∧ R s' c')
    {τ : List L} (hrun : Run Step s₀ τ s) : Linearizable A (τ.filterMap event) := by
  have hmarks : ∃ marks c, Run Config.Step (Config.start A Client) marks c ∧
      marks.filterMap Mark.event? = τ.filterMap event ∧ R s c := by
    induction hrun with
    | nil => exact ⟨[], _, .nil, rfl, hinit⟩
    | @snoc τ s s' l _ hlast ih =>
      obtain ⟨marks, c, hc, hevents, hrel⟩ := ih
      obtain ⟨c', ⟨marks', hc', hevents'⟩, hrel'⟩ := hstep _ _ _ _ hrel hlast
      refine ⟨marks ++ marks', c', hc.trans hc', ?_, hrel'⟩
      rw [List.filterMap_append, hevents, hevents', filterMap_snoc]
  obtain ⟨marks, c, hc, hevents, _⟩ := hmarks
  exact ⟨marks, hevents, ⟨_, Config.run_points hc⟩, fun i => ⟨_, Config.run_client hc i⟩⟩

end Atomic

end conc
