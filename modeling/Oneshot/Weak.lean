import Oneshot.Conc.Relaxed
import Oneshot.Properties.HappensBefore

open conc

namespace oneshot

variable {T : Type}

/-- The two cells, which are read and written without the atomic operations. -/
inductive Cell where
  | message
  | waker
  deriving DecidableEq

def Access.cell : Access T → Option Cell
  | .write_message _ | .take_message | .drop_message => some .message
  | .write_waker _ | .take_waker | .drop_waker => some .waker
  | _ => none

namespace Label

/-- The step is an access of that side to that cell. -/
def accesses (side : Side) (cell : Cell) : Label T → Bool
  | .sender (.act α) => side = .sender && α.access.cell = some cell
  | .receiver (.act α) => side = .receiver && α.access.cell = some cell
  | _ => false

end Label

/-- The memory of a machine that orders the accesses to the state byte only as their
    `Ordering` arguments ask for. The byte of `memory` is the latest that was written. -/
structure WeakMemory (T : Type) where
  memory : Memory T
  history : History Side Thread UInt8

namespace WeakMemory

/-- One access of a side: it is made as if the byte were `u`, one of the values that the
    side may still find, and what it leaves becomes part of the history. -/
def Acts (side : Side) (M : WeakMemory T) (α : (interface T).Action) (M' : WeakMemory T) : Prop :=
  ∃ u μ b, (M.memory.setState u).Acts α μ ∧
    M.history.Step side (syncOp true α) u μ.channel.state M'.history ∧
    M'.history.latest = some b ∧ M'.memory = μ.setState b

/-- A step of a side that is no access. -/
def pass (side : Side) (M : WeakMemory T) : WeakMemory T :=
  { M with history := History.moved (M.history.current.step side .plain) M.history.writes }

/-- What a step of a side leaves, when its access, if it makes one, leaves `M`. -/
def after {E : Endpoint (interface T)} (side : Side) (M : WeakMemory T) : E.Event → WeakMemory T
  | .act _ => M
  | _ => M.pass side

/-- An access that only reads the byte changes nothing, and is made in the same way
    whenever the byte has that value. -/
theorem acts_reads {μ μ' : Memory T} {α : (interface T).Action} {order : MemOrder}
    (hα : syncOp true α = .load order) (hacts : μ.Acts α μ') :
    μ' = μ ∧ ∀ ν : Memory T, ν.channel.state = μ.channel.state → ν.Acts α ν := by
  obtain ⟨a, v⟩ := α
  obtain ⟨env, hexec⟩ := hacts
  cases a with
  | load order' =>
    cases hexec
    refine ⟨rfl, fun ν hν => ⟨env, ?_⟩⟩
    change some (ν.channel.state, ν) = some (μ.channel.state, ν)
    rw [hν]
  | compare_exchange current new success failure =>
    simp only [Memory.exec] at hexec
    split at hexec
    · cases hexec; cases hα
    · cases hexec
      refine ⟨rfl, fun ν hν => ⟨env, ?_⟩⟩
      simp only [Memory.exec, hν]
      exact if_neg ‹_›
  | park thread | park_timeout thread timeout => cases v <;> cases hα
  | _ => cases hα

/-- An access finds the latest value of the byte, and is then one of the strong memory, or
    it reads an old value and changes nothing. -/
theorem Acts.fresh_or_stale {side : Side} {M M' : WeakMemory T} {α : (interface T).Action}
    (hacts : Acts side M α M') (hlatest : M.history.latest = some M.memory.channel.state)
    (hknown : (syncOp true α).writes = true → M.history.Informed side ∨
      (M.history.Chain ∧ ∀ order, syncOp true α ≠ .store order)) :
    (M.memory.Acts α M'.memory ∧ M.history.Fresh side (syncOp true α) M.memory.channel.state
        M'.memory.channel.state M'.history) ∨
      ∃ order u, M'.memory = M.memory ∧ syncOp true α = .load order ∧
        M.history.Stale side (.load order) u u M'.history ∧
        ∀ ν : Memory T, ν.channel.state = u → ν.Acts α ν := by
  obtain ⟨u, μ, b, hmemory, hstep, hb, hM'⟩ := hacts
  have hkeep (u : UInt8) (heq : M.memory.channel.state = u) : M.memory.setState u = M.memory := by
    rw [← heq]
    rfl
  obtain hfresh | hstale := hstep.fresh_or_stale hknown
  · obtain rfl : M.memory.channel.state = u := Option.some.inj (hlatest.symm.trans hfresh.found)
    obtain rfl : μ.channel.state = b := Option.some.inj (hfresh.left.symm.trans hb)
    have hμ : M'.memory = μ := hM'
    rw [hkeep _ rfl] at hmemory
    rw [hμ]
    exact .inl ⟨hmemory, hfresh⟩
  · obtain ⟨order, horder⟩ := hstale.load
    obtain rfl : M.memory.channel.state = b := by
      rw [hstale.latest, hlatest] at hb
      exact Option.some.inj hb
    obtain ⟨hμ, hreads⟩ := acts_reads horder hmemory
    refine .inr ⟨order, u, ?_, horder, ?_, hreads⟩
    · rw [hM', hμ]
      rfl
    · obtain rfl : μ.channel.state = u := hstale.same
      rw [← horder]
      exact hstale

/-- A step that is no access finds the latest value, and leaves it. -/
theorem pass_fresh (side : Side) {M : WeakMemory T}
    (hlatest : M.history.latest = some M.memory.channel.state) :
    M.history.Fresh side .plain M.memory.channel.state M.memory.channel.state
      (M.pass side).history := by
  have hstep : M.history.Step side .plain _ _ (M.pass side).history := .other rfl rfl hlatest
  obtain hfresh | hstale := hstep.fresh_or_stale (by rintro ⟨⟩)
  · exact hfresh
  · obtain ⟨order, h⟩ := hstale.load
    cases h

/-- The answer to one access, and the memory after it, when its read passes over the last `n`
    writes to the byte. -/
def exec (side : Side) (n : Nat) (env : Env) (M : WeakMemory T) (a : Access T) :
    Option (a.Resp × WeakMemory T) := do
  let u ← M.history.found n
  let (v, μ) ← (M.memory.setState u).exec env a
  let H ← M.history.event side n (syncOp true ⟨a, v⟩) u μ.channel.state
  let b ← H.latest
  return (v, ⟨μ.setState b, H⟩)

theorem exec_sound {side : Side} {n : Nat} {env : Env} {M M' : WeakMemory T} {a : Access T}
    {v : a.Resp} (hexec : M.exec side n env a = some (v, M')) : Acts side M ⟨a, v⟩ M' := by
  simp only [exec, Option.bind_eq_bind, Option.bind_eq_some_iff, Option.pure_def,
    Option.some.injEq, Prod.mk.injEq] at hexec
  obtain ⟨u, _, ⟨v', μ⟩, hmemory, H, hevent, b, hb, rfl, rfl⟩ := hexec
  exact ⟨u, μ, b, ⟨env, hmemory⟩, History.event_sound hevent, hb, rfl⟩

end WeakMemory

/-- One channel with its two sides, on such a machine. -/
structure WeakSystem (T : Type) where
  memory : WeakMemory T
  sender : (sender T).State
  receiver : (receiver T).State

/-- What a step does to the views of the two sides when it reads the latest value. -/
def Label.seen (l : Label T) (V : Views Side Thread) : Views Side Thread :=
  match l.sync true with
  | some (side, o) => V.step side o
  | none => V.tick

theorem views_seen (τ : List (Label T)) (l : Label T) :
    views true (τ ++ [l]) = l.seen (views true τ) := by
  unfold Label.seen
  cases hl : l.sync true with
  | none => exact Views.run_snoc_none _ τ hl
  | some e => exact Views.run_snoc_some _ τ hl

namespace WeakSystem

/-- The states of the two sides, with the memory as it is when all writes have arrived. -/
def strong (σ : WeakSystem T) : System T := ⟨σ.memory.memory, σ.sender, σ.receiver⟩

/-- A system as it was made, before its two sides were handed out. -/
def ofSystem (σ : System T) : WeakSystem T :=
  ⟨⟨σ.memory, History.start σ.memory.channel.state⟩, σ.sender, σ.receiver⟩

/-- A channel made by `channel()` or by `async_channel()`. -/
def Initial (σ : WeakSystem T) : Prop := ∃ σ₀ : System T, σ₀.Initial ∧ σ = ofSystem σ₀

inductive Step : WeakSystem T → Label T → WeakSystem T → Prop where
  | sender {σ : WeakSystem T} {e : (oneshot.sender T).Event} {s' : (oneshot.sender T).State}
      {M' : WeakMemory T}
      (hstep : (oneshot.sender T).Step (WeakMemory.Acts .sender) σ.sender σ.memory e s' M') :
      Step σ (.sender e) { σ with memory := M'.after .sender e, sender := s' }
  | receiver {σ : WeakSystem T} {e : (oneshot.receiver T).Event} {r' : (oneshot.receiver T).State}
      {M' : WeakMemory T}
      (hstep : (oneshot.receiver T).Step (WeakMemory.Acts .receiver) σ.receiver σ.memory e r' M') :
      Step σ (.receiver e) { σ with memory := M'.after .receiver e, receiver := r' }
  | stray {σ : WeakSystem T} (thread : Thread) :
      Step σ (.stray thread)
        { σ with memory := ⟨σ.memory.memory.setToken thread true, σ.memory.history.tick⟩ }

/-- What a step finds: the latest value of the byte, or one that was overwritten since. Then
    it could have been made in any memory with that value, and changes nothing. -/
inductive Finds (σ : WeakSystem T) : Label T → WeakSystem T → Prop where
  | latest {σ' : WeakSystem T} {l : Label T} {side : Side} {o : SyncOp Thread}
      (hstrong : System.Step σ.strong l σ'.strong) (hl : l.sync true = some (side, o))
      (hfresh : σ.memory.history.Fresh side o σ.memory.memory.channel.state
        σ'.memory.memory.channel.state σ'.memory.history) : Finds σ l σ'
  | none (thread : Thread) :
      Finds σ (.stray thread)
        { σ with memory := ⟨σ.memory.memory.setToken thread true, σ.memory.history.tick⟩ }
  | sender {α : (interface T).Action} {s' : (oneshot.sender T).State}
      {H' : History Side Thread UInt8} {order : MemOrder} {u : UInt8}
      (hstep : ∀ μ, μ.channel.state = u →
        (oneshot.sender T).Step Memory.Acts σ.sender μ (.act α) s' μ)
      (hsync : syncOp true α = .load order)
      (hstale : σ.memory.history.Stale .sender (.load order) u u H') :
      Finds σ (.sender (.act α)) ⟨⟨σ.memory.memory, H'⟩, s', σ.receiver⟩
  | receiver {α : (interface T).Action} {r' : (oneshot.receiver T).State}
      {H' : History Side Thread UInt8} {order : MemOrder} {u : UInt8}
      (hstep : ∀ μ, μ.channel.state = u →
        (oneshot.receiver T).Step Memory.Acts σ.receiver μ (.act α) r' μ)
      (hsync : syncOp true α = .load order)
      (hstale : σ.memory.history.Stale .receiver (.load order) u u H') :
      Finds σ (.receiver (.act α)) ⟨⟨σ.memory.memory, H'⟩, σ.sender, r'⟩

/-- Only a write changes the byte. -/
theorem state_of_acts {μ μ' : Memory T} {α : (interface T).Action} (hacts : μ.Acts α μ')
    (hwrites : (syncOp true α).writes = false) : μ'.channel.state = μ.channel.state := by
  obtain ⟨env, hexec⟩ := hacts
  obtain ⟨hanswers, hupdate⟩ := Memory.exec_channel hexec
  rw [hupdate]
  obtain ⟨a, v⟩ := α
  cases a with
  | store | swap | fetch_add | fetch_xor => cases hwrites
  | compare_exchange current new success failure =>
    cases v with
    | ok v => cases hwrites
    | error v =>
      have hne : μ.channel.state ≠ current := by
        intro heq
        simp [Channel.Answers, heq] at hanswers
      simp [Channel.update, hne]
  | _ => rfl

/-- An access of the strong memory is one that finds the latest value. -/
theorem exists_acts {μ μ' : Memory T} {H : History Side Thread UInt8} {α : (interface T).Action}
    (side : Side) (hacts : μ.Acts α μ') (hlatest : H.latest = some μ.channel.state) :
    ∃ H', WeakMemory.Acts side ⟨μ, H⟩ α ⟨μ', H'⟩ ∧
      H'.current = H.current.step side (syncOp true α) ∧ H'.latest = some μ'.channel.state := by
  obtain ⟨H', hstep, hcurrent, hlatest'⟩ :=
    History.exists_fresh side (syncOp true α) hlatest (state_of_acts hacts)
  exact ⟨H', ⟨_, μ', _, hacts, hstep, hlatest', rfl⟩, hcurrent, hlatest'⟩

/-- The system whose byte has the history `H`. -/
def ofHistory (σ : System T) (H : History Side Thread UInt8) : WeakSystem T :=
  ⟨⟨σ.memory, H⟩, σ.sender, σ.receiver⟩

/-- Every step of the system can be made on the weakly ordered machine. -/
theorem exists_step {σ σ' : System T} {l : Label T} {H : History Side Thread UInt8}
    (hstep : System.Step σ l σ') (hlatest : H.latest = some σ.memory.channel.state) :
    ∃ H', Step (ofHistory σ H) l (ofHistory σ' H') ∧ H'.current = l.seen H.current ∧
      H'.latest = some σ'.memory.channel.state := by
  have hpass (side : Side) : (WeakMemory.pass side ⟨σ.memory, H⟩).history.current =
      H.current.step side .plain :=
    (WeakMemory.pass_fresh (M := ⟨σ.memory, H⟩) side hlatest).current
  obtain ⟨μ, s, r⟩ := σ
  cases hstep with
  | sender hstep =>
    cases hstep with
    | call haccepts => exact ⟨_, .sender (σ := ⟨⟨μ, H⟩, _, r⟩) (.call haccepts), hpass .sender, hlatest⟩
    | enter => exact ⟨_, .sender (σ := ⟨⟨μ, H⟩, _, r⟩) .enter, hpass .sender, hlatest⟩
    | ret => exact ⟨_, .sender (σ := ⟨⟨μ, H⟩, _, r⟩) .ret, hpass .sender, hlatest⟩
    | act hacts =>
      obtain ⟨H', hacts', hcurrent, hlatest'⟩ := exists_acts .sender hacts hlatest
      exact ⟨H', .sender (σ := ⟨⟨μ, H⟩, _, r⟩) (.act hacts'), hcurrent, hlatest'⟩
  | receiver hstep =>
    cases hstep with
    | call haccepts => exact ⟨_, .receiver (σ := ⟨⟨μ, H⟩, s, _⟩) (.call haccepts), hpass .receiver, hlatest⟩
    | enter => exact ⟨_, .receiver (σ := ⟨⟨μ, H⟩, s, _⟩) .enter, hpass .receiver, hlatest⟩
    | ret => exact ⟨_, .receiver (σ := ⟨⟨μ, H⟩, s, _⟩) .ret, hpass .receiver, hlatest⟩
    | act hacts =>
      obtain ⟨H', hacts', hcurrent, hlatest'⟩ := exists_acts .receiver hacts hlatest
      exact ⟨H', .receiver (σ := ⟨⟨μ, H⟩, s, _⟩) (.act hacts'), hcurrent, hlatest'⟩
  | stray thread => exact ⟨_, .stray (σ := ⟨⟨μ, H⟩, s, r⟩) thread, rfl, hlatest⟩

/-- Every run of a channel is one on the weakly ordered machine, with the same views of
    the two sides. -/
theorem exists_run {σ₀ σ : System T} {τ : List (Label T)} (hrun : Run System.Step σ₀ τ σ) :
    ∃ H, Run Step (ofSystem σ₀) τ (ofHistory σ H) ∧ H.current = views true τ ∧
      H.latest = some σ.memory.channel.state := by
  induction hrun with
  | nil => exact ⟨_, .nil, rfl, rfl⟩
  | snoc _ hstep ih =>
    obtain ⟨H, hrun, hcurrent, hlatest⟩ := ih
    obtain ⟨H', hstep, hcurrent', hlatest'⟩ := exists_step hstep hlatest
    exact ⟨H', hrun.snoc hstep, by rw [hcurrent', hcurrent, views_seen], hlatest'⟩

/-- What a schedule says about one step, with how many writes a read passes over. -/
def choose (σ : WeakSystem T) : System.Choice T × Nat → Option (Label T × WeakSystem T)
  | (.sender move, n) =>
    (σ.sender.step (WeakMemory.exec .sender n ⟨.spurious, ⟨0⟩⟩) σ.memory move).map
      fun (e, s', M') => (.sender e, { σ with memory := M'.after .sender e, sender := s' })
  | (.receiver move env, n) =>
    (σ.receiver.step (WeakMemory.exec .receiver n env) σ.memory move).map
      fun (e, r', M') => (.receiver e, { σ with memory := M'.after .receiver e, receiver := r' })
  | (.stray thread, _) => some (.stray thread,
      { σ with memory := ⟨σ.memory.memory.setToken thread true, σ.memory.history.tick⟩ })

/-- Runs a schedule, and returns the labels of its steps and the last state. -/
def play (σ : WeakSystem T) :
    List (System.Choice T × Nat) → Option (List (Label T) × WeakSystem T)
  | [] => some ([], σ)
  | c :: cs => do
    let (l, σ') ← σ.choose c
    let (τ, σ'') ← σ'.play cs
    return (l :: τ, σ'')

theorem choose_sound {σ σ' : WeakSystem T} {c : System.Choice T × Nat} {l : Label T}
    (hchoose : σ.choose c = some (l, σ')) : Step σ l σ' := by
  obtain ⟨c, n⟩ := c
  cases c with
  | sender move =>
    obtain ⟨⟨e, s', M'⟩, hstep, heq⟩ := Option.map_eq_some_iff.mp hchoose
    cases heq
    exact .sender ((Endpoint.State.step_sound hstep).mono fun _ _ _ => WeakMemory.exec_sound)
  | receiver move env =>
    obtain ⟨⟨e, r', M'⟩, hstep, heq⟩ := Option.map_eq_some_iff.mp hchoose
    cases heq
    exact .receiver ((Endpoint.State.step_sound hstep).mono fun _ _ _ => WeakMemory.exec_sound)
  | stray thread =>
    cases hchoose
    exact .stray thread

/-- The labels of the run that a schedule plays, and the state it ends in. -/
def labels (σ : WeakSystem T) (cs : List (System.Choice T × Nat)) : List (Label T) :=
  ((σ.play cs).map Prod.fst).getD []

def reached (σ : WeakSystem T) (cs : List (System.Choice T × Nat)) : WeakSystem T :=
  ((σ.play cs).map Prod.snd).getD σ

theorem run_of_play {σ : WeakSystem T} {cs : List (System.Choice T × Nat)}
    (hplay : (σ.play cs).isSome = true) : Run Step σ (σ.labels cs) (σ.reached cs) := by
  obtain ⟨⟨τ, σ'⟩, hrun⟩ := Option.isSome_iff_exists.mp hplay
  rw [labels, reached, hrun]
  exact Run.of_schedule choose play (fun _ _ => True) (fun _ => rfl) (fun _ _ _ => rfl)
    (fun _ _ _ _ _ _ hchoose => ⟨choose_sound hchoose, trivial⟩) trivial hrun

/-- A message that is sent, and that `try_recv` misses: its load passes over the sender's write.
    Then the receiver is dropped, and drops the message. -/
def passed_over : List (System.Choice Nat × Nat) :=
  (System.sends (.send 5) 3 ++ System.receives .try_recv 0 0).map (·, 0) ++
    (System.receiving 1 0).map (·, 1) ++ (System.receiving 1 0 ++ System.receives .drop 4 0).map (·, 0)

end WeakSystem

end oneshot
