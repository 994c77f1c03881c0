import Oneshot.Conc.Run
import Oneshot.Sender
import Oneshot.Receiver

open conc

namespace oneshot

/-- What the two sides share: the heap allocation, whether it is still live, and
    the park token of every thread. -/
structure Memory (T : Type) where
  channel : Channel T
  allocated : Bool
  token : Thread → Bool

/-- The outcomes an access leaves to its surroundings: why a park returns, and
    what the clock reads. -/
structure Env where
  wakeup : Wakeup
  clock : Instant

variable {T : Type}

namespace Memory

def setState (μ : Memory T) (val : UInt8) : Memory T :=
  { μ with channel := { μ.channel with state := val } }

def setMessage (μ : Memory T) (message : Option T) : Memory T :=
  { μ with channel := { μ.channel with message } }

def setWaker (μ : Memory T) (waker : Option ReceiverWaker) : Memory T :=
  { μ with channel := { μ.channel with waker } }

def setToken (μ : Memory T) (thread : Thread) (val : Bool) : Memory T :=
  { μ with token := fun t => if t = thread then val else μ.token t }

/-- A park returns when it consumes the thread's token, or spuriously. -/
def wakeup (μ : Memory T) (thread : Thread) : Wakeup → Option (Wakeup × Memory T)
  | .unparked => if μ.token thread then some (.unparked, μ.setToken thread false) else none
  | other => some (other, μ)

/-- The answer to one access and the memory after it. Accesses are sequentially
    consistent, and the allocation keeps its contents after `dealloc`. Moving a
    value out of a cell that holds none has no answer. -/
def exec (env : Env) (μ : Memory T) : (a : Access T) → Option (a.Resp × Memory T)
  | .load _ => some (μ.channel.state, μ)
  | .store val _ => some ((), μ.setState val)
  | .swap val _ => some (μ.channel.state, μ.setState val)
  | .fetch_add val _ => some (μ.channel.state, μ.setState (μ.channel.state + val))
  | .fetch_xor val _ => some (μ.channel.state, μ.setState (μ.channel.state ^^^ val))
  | .compare_exchange current new _ _ =>
    if μ.channel.state = current then some (.ok current, μ.setState new)
    else some (.error μ.channel.state, μ)
  | .fence _ => some ((), μ)
  | .write_message message => some ((), μ.setMessage (some message))
  | .take_message => μ.channel.message.map fun message => (message, μ.setMessage none)
  | .drop_message => μ.channel.message.map fun _ => ((), μ.setMessage none)
  | .write_waker waker => some ((), μ.setWaker (some waker))
  | .take_waker => μ.channel.waker.map fun waker => (waker, μ.setWaker none)
  | .drop_waker => μ.channel.waker.map fun _ => ((), μ.setWaker none)
  | .dealloc => some ((), { μ with allocated := false })
  | .clone_waker waker => some (waker, μ)
  | .wake_by_ref _ => some ((), μ)
  | .wake _ => some ((), μ)
  | .unpark thread => some ((), μ.setToken thread true)
  | .park thread => if env.wakeup = .elapsed then none else μ.wakeup thread env.wakeup
  | .park_timeout thread _ => μ.wakeup thread env.wakeup
  | .now => some (env.clock, μ)
  | .spin_loop => some ((), μ)

end Memory

namespace Channel

/-- What an access answers when the allocation is `x`. -/
def Answers (x : Channel T) : (a : Access T) → a.Resp → Prop
  | .load _, (v : UInt8) | .swap _ _, v | .fetch_add _ _, v | .fetch_xor _ _, v => v = x.state
  | .compare_exchange current _ _ _, (v : Except UInt8 UInt8) =>
    v = if x.state = current then .ok current else .error x.state
  | .take_message, message => x.message = some message
  | .drop_message, _ => x.message.isSome = true
  | .take_waker, waker => x.waker = some waker
  | .drop_waker, _ => x.waker.isSome = true
  | .clone_waker waker, clone => clone = waker
  | _, _ => True

/-- The cell that an access empties holds a value. -/
def Provides (x : Channel T) : Access T → Prop
  | .take_message | .drop_message => x.message.isSome = true
  | .take_waker | .drop_waker => x.waker.isSome = true
  | _ => True

/-- What an access makes of the allocation. -/
def update (x : Channel T) : Access T → Channel T
  | .store val _ | .swap val _ => { x with state := val }
  | .fetch_add val _ => { x with state := x.state + val }
  | .fetch_xor val _ => { x with state := x.state ^^^ val }
  | .compare_exchange current new _ _ => if x.state = current then { x with state := new } else x
  | .write_message message => { x with message := some message }
  | .take_message | .drop_message => { x with message := none }
  | .write_waker waker => { x with waker := some waker }
  | .take_waker | .drop_waker => { x with waker := none }
  | _ => x

/-- The answers of a compare-exchange say what the state was. -/
theorem answers_ok {x : Channel T} {current new v : UInt8} {success failure : MemOrder}
    (hanswers : x.Answers (.compare_exchange current new success failure) (.ok v)) :
    x.state = current := by
  by_contra hne
  simp [Answers, hne] at hanswers

theorem answers_error {x : Channel T} {current new v : UInt8} {success failure : MemOrder}
    (hanswers : x.Answers (.compare_exchange current new success failure) (.error v)) :
    x.state = v := by
  by_cases heq : x.state = current
  · simp [Answers, heq] at hanswers
  · simpa [Answers, heq] using hanswers.symm

end Channel

/-- The thread an access parks. -/
def Access.parks : Access T → Option Thread
  | .park thread | .park_timeout thread _ => some thread
  | _ => none

/-- What an access that is answered makes of the park tokens. -/
def Access.tokens (token : Thread → Bool) : (a : Access T) → a.Resp → Thread → Bool
  | .unpark thread, _ => fun t => if t = thread then true else token t
  | .park thread, .unparked | .park_timeout thread _, .unparked =>
    fun t => if t = thread then false else token t
  | _, _ => token

namespace Memory

theorem wakeup_eq {μ μ' : Memory T} {thread : Thread} {w v : Wakeup}
    (hwakeup : μ.wakeup thread w = some (v, μ')) :
    v = w ∧ ((w ≠ .unparked ∧ μ' = μ) ∨
      (w = .unparked ∧ μ.token thread = true ∧ μ' = μ.setToken thread false)) := by
  cases w with
  | unparked =>
    simp only [wakeup] at hwakeup
    split at hwakeup
    · cases hwakeup
      exact ⟨rfl, .inr ⟨rfl, ‹_›, rfl⟩⟩
    · cases hwakeup
  | spurious | elapsed =>
    cases hwakeup
    exact ⟨rfl, .inl ⟨by simp, rfl⟩⟩

/-- An access sees and changes the allocation as `Channel.Answers` and
    `Channel.update` say, whatever its surroundings do. -/
theorem exec_channel {env : Env} {μ μ' : Memory T} {a : Access T} {v : a.Resp}
    (hexec : μ.exec env a = some (v, μ')) :
    μ.channel.Answers a v ∧ μ'.channel = μ.channel.update a := by
  cases a with
  | take_message | drop_message =>
    obtain ⟨message, hmessage, heq⟩ := Option.map_eq_some_iff.mp hexec
    cases heq
    exact ⟨by simp [Channel.Answers, hmessage], rfl⟩
  | take_waker | drop_waker =>
    obtain ⟨waker, hwaker, heq⟩ := Option.map_eq_some_iff.mp hexec
    cases heq
    exact ⟨by simp [Channel.Answers, hwaker], rfl⟩
  | compare_exchange current new success failure =>
    simp only [exec] at hexec
    split at hexec
    · cases hexec
      simp_all [Channel.Answers, Channel.update, setState]
    · cases hexec
      simp_all [Channel.Answers, Channel.update]
  | park thread =>
    simp only [exec] at hexec
    split at hexec
    · cases hexec
    · obtain ⟨_, ⟨_, rfl⟩ | ⟨_, _, rfl⟩⟩ := wakeup_eq hexec <;> exact ⟨trivial, rfl⟩
  | park_timeout thread timeout =>
    obtain ⟨_, ⟨_, rfl⟩ | ⟨_, _, rfl⟩⟩ := wakeup_eq hexec <;> exact ⟨trivial, rfl⟩
  | _ =>
    cases hexec
    exact ⟨by trivial, rfl⟩

theorem token_setToken {μ : Memory T} {t thread : Thread} (h : μ.token t = true ∨ t = thread) :
    (μ.setToken thread true).token t = true := by
  by_cases ht : t = thread
  · simp [setToken, ht]
  · simpa [setToken, ht] using h

/-- A park that returns leaves the token of its thread, or has taken it. -/
theorem wakeup_tokens {μ μ' : Memory T} {thread : Thread} {w v : Wakeup}
    (hwakeup : μ.wakeup thread w = some (v, μ')) :
    μ'.token = (Access.park thread : Access T).tokens μ.token v := by
  obtain ⟨rfl, ⟨hw, rfl⟩ | ⟨rfl, _, rfl⟩⟩ := wakeup_eq hwakeup
  · cases v with
    | unparked => exact (hw rfl).elim
    | spurious | elapsed => rfl
  · rfl

theorem exec_tokens {env : Env} {μ μ' : Memory T} {a : Access T} {v : a.Resp}
    (hexec : μ.exec env a = some (v, μ')) : μ'.token = a.tokens μ.token v := by
  cases a with
  | take_message | drop_message | take_waker | drop_waker =>
    obtain ⟨_, _, heq⟩ := Option.map_eq_some_iff.mp hexec
    cases heq
    rfl
  | compare_exchange current new success failure =>
    simp only [exec] at hexec
    split at hexec <;> cases hexec <;> rfl
  | park thread =>
    simp only [exec] at hexec
    split at hexec
    · cases hexec
    · exact wakeup_tokens hexec
  | park_timeout thread timeout =>
    refine (wakeup_tokens hexec).trans ?_
    cases v <;> rfl
  | _ =>
    cases hexec
    rfl

/-- Only the thread that parks can lose its token, and an unpark sets it. -/
theorem exec_token {env : Env} {μ μ' : Memory T} {a : Access T} {v : a.Resp}
    (hexec : μ.exec env a = some (v, μ')) {t : Thread}
    (htoken : μ.token t = true ∨ a = .unpark t) (hparks : a.parks ≠ some t) :
    μ'.token t = true := by
  rw [exec_tokens hexec]
  cases a with
  | unpark thread =>
    simp only [Access.tokens]
    split
    · rfl
    · refine htoken.resolve_right fun h => ?_
      cases h
      contradiction
  | park thread | park_timeout thread timeout =>
    have hset : μ.token t = true := htoken.resolve_right (by simp)
    cases v with
    | unparked =>
      have ht : t ≠ thread := fun h => hparks (by rw [h]; rfl)
      simpa [Access.tokens, ht] using hset
    | spurious | elapsed => exact hset
  | _ => exact htoken.resolve_right (by simp)

/-- The access that `action` is can be made in `μ`, gets that answer, and leaves
    `μ'`, for some behaviour of the surroundings. -/
def Acts (μ : Memory T) (action : (interface T).Action) (μ' : Memory T) : Prop :=
  ∃ env, μ.exec env action.access = some (action.resp, μ')

/-- A look at the state changes nothing. -/
theorem acts_load {μ μ' : Memory T} {order : MemOrder} {v : UInt8}
    (hacts : μ.Acts ⟨.load order, v⟩ μ') : v = μ.channel.state ∧ μ' = μ := by
  obtain ⟨env, hexec⟩ := hacts
  cases hexec
  exact ⟨rfl, rfl⟩

/-- Every access can be made, except that a cell that is emptied has to hold a
    value. -/
theorem exists_acts {μ : Memory T} {a : Access T} (hprovides : μ.channel.Provides a) :
    ∃ v μ', μ.Acts ⟨a, v⟩ μ' := by
  have hsome : (μ.exec ⟨.spurious, ⟨0⟩⟩ a).isSome = true := by
    cases a with
    | take_message | drop_message | take_waker | drop_waker =>
      rw [exec, Option.isSome_map]
      exact hprovides
    | compare_exchange current new success failure =>
      rw [exec]
      split <;> rfl
    | _ => rfl
  obtain ⟨⟨v, μ'⟩, hexec⟩ := Option.isSome_iff_exists.mp hsome
  exact ⟨v, μ', _, hexec⟩

end Memory

/-- The two users of the channel. -/
inductive Side where
  | sender
  | receiver
  deriving DecidableEq

/-- One channel with its two sides. -/
structure System (T : Type) where
  memory : Memory T
  sender : (sender T).State
  receiver : (receiver T).State

/-- A step of the system: an event of one side, or a stray unpark of a thread by
    code outside the channel. -/
inductive Label (T : Type) where
  | sender (e : (sender T).Event)
  | receiver (e : (receiver T).Event)
  | stray (thread : Thread)

/-- The access a step makes, if it makes one. -/
def Label.action : Label T → Option (interface T).Action
  | .sender (.act α) | .receiver (.act α) => some α
  | _ => none

/-- The step is one of the sender, or of the receiver. -/
def Label.ofSender : Label T → Bool
  | .sender _ => true
  | _ => false

def Label.ofReceiver : Label T → Bool
  | .receiver _ => true
  | _ => false

/-- The step turns the `Receiver` into a future. -/
def Label.intoFuture : Label T → Bool
  | .receiver (.call .into_future) => true
  | _ => false

namespace System

/-- `channel()`, called while the threads hold the park tokens `token`. -/
def channel (T : Type) (token : Thread → Bool) : System T where
  memory := ⟨Channel.new, true, token⟩
  sender := .idle .sender
  receiver := .idle .receiver

/-- `async_channel()`. -/
def async_channel (T : Type) (token : Thread → Bool) : System T where
  memory := ⟨Channel.new, true, token⟩
  sender := .idle .sender
  receiver := .idle .async_receiver

/-- A channel made by `channel()` or by `async_channel()`. -/
def Initial (σ : System T) : Prop :=
  ∃ token, σ = System.channel T token ∨ σ = System.async_channel T token

/-- Any interleaving of the single steps of the two sides. -/
inductive Step : System T → Label T → System T → Prop where
  | sender {σ : System T} {e : (oneshot.sender T).Event} {s' : (oneshot.sender T).State}
      {μ' : Memory T} (hstep : (oneshot.sender T).Step Memory.Acts σ.sender σ.memory e s' μ') :
      Step σ (.sender e) { σ with memory := μ', sender := s' }
  | receiver {σ : System T} {e : (oneshot.receiver T).Event} {r' : (oneshot.receiver T).State}
      {μ' : Memory T} (hstep : (oneshot.receiver T).Step Memory.Acts σ.receiver σ.memory e r' μ') :
      Step σ (.receiver e) { σ with memory := μ', receiver := r' }
  | stray {σ : System T} (thread : Thread) :
      Step σ (.stray thread) { σ with memory := σ.memory.setToken thread true }

section

variable {σ σ' : System T} {l : Label T}

/-- A call that has begun. -/
theorem sender_of_call {c : Sender.Call T} (hstep : Step σ (.sender (.call c)) σ') :
    σ'.sender = .busy c ((oneshot.sender T).code c) := by
  obtain ⟨μ, s, r⟩ := σ
  cases hstep with
  | sender hstep =>
    cases hstep with
    | call => rfl

theorem receiver_of_call {c : Receiver.Call} (hstep : Step σ (.receiver (.call c)) σ') :
    σ'.receiver = .busy c ((oneshot.receiver T).code c) := by
  obtain ⟨μ, s, r⟩ := σ
  cases hstep with
  | receiver hstep =>
    cases hstep with
    | call => rfl

theorem sender_of_other (hstep : Step σ l σ') (hl : l.ofSender = false) : σ'.sender = σ.sender := by
  cases hstep with
  | sender => cases hl
  | receiver | stray => rfl

theorem receiver_of_other (hstep : Step σ l σ') (hl : l.ofReceiver = false) :
    σ'.receiver = σ.receiver := by
  cases hstep with
  | receiver => cases hl
  | sender | stray => rfl

/-- A call that has returned. -/
theorem sender_of_ret {c : Sender.Call T} {v : Sender.Ret T}
    (hstep : Step σ (.sender (.ret c v)) σ') :
    σ'.sender = .idle ((oneshot.sender T).after c v) := by
  obtain ⟨μ, s, r⟩ := σ
  cases hstep with
  | sender hstep =>
    cases hstep with
    | ret => rfl

theorem receiver_of_ret {c : Receiver.Call} {v : Receiver.Ret T}
    (hstep : Step σ (.receiver (.ret c v)) σ') :
    σ'.receiver = .idle ((oneshot.receiver T).after c v) := by
  obtain ⟨μ, s, r⟩ := σ
  cases hstep with
  | receiver hstep =>
    cases hstep with
    | ret => rfl

end

/-- Both endpoints, and the error of a failed send if there was one, are consumed
    and every call has returned. -/
def Completed (σ : System T) : Prop := σ.sender = .idle .gone ∧ σ.receiver = .idle .gone

/-- The sender has read `RECEIVING` with its `fetch_add` or `fetch_xor`, and has
    not made its final swap. -/
def inWindow (σ : System T) : Bool :=
  match σ.sender.next with
  | some .take_waker | some (.swap _ _) => true
  | _ => false

/-- The receiver loads the state while it is `DISCONNECTED` and the sender is
    still at work. Only the spin loop of `AsyncReceiver.drop` can do so, and then
    it reads what the destructor stored itself. -/
def earlyExit (σ : System T) : Label T → Bool
  | .receiver (.act ⟨.load _, _⟩) => σ.memory.channel.state == DISCONNECTED && σ.inWindow
  | _ => false

/-- A step in which no spin loop is left early. -/
def PatientStep (σ : System T) (l : Label T) (σ' : System T) : Prop :=
  Step σ l σ' ∧ σ.earlyExit l = false

/-- What a schedule says about one step. -/
inductive Choice (T : Type) where
  | sender (move : (oneshot.sender T).Move)
  | receiver (move : (oneshot.receiver T).Move) (env : Env)
  | stray (thread : Thread)

def choose (σ : System T) : Choice T → Option (Label T × System T)
  | .sender move =>
    (σ.sender.step (Memory.exec ⟨.spurious, ⟨0⟩⟩) σ.memory move).map fun (e, s', μ') =>
      (.sender e, { σ with memory := μ', sender := s' })
  | .receiver move env =>
    (σ.receiver.step (Memory.exec env) σ.memory move).map fun (e, r', μ') =>
      (.receiver e, { σ with memory := μ', receiver := r' })
  | .stray thread => some (.stray thread, { σ with memory := σ.memory.setToken thread true })

/-- Runs a schedule, and returns the labels of its steps and the last state. -/
def play (σ : System T) : List (Choice T) → Option (List (Label T) × System T)
  | [] => some ([], σ)
  | c :: cs => do
    let (l, σ') ← σ.choose c
    let (τ, σ'') ← σ'.play cs
    return (l :: τ, σ'')

theorem choose_sound {σ σ' : System T} {c : Choice T} {l : Label T}
    (hchoose : σ.choose c = some (l, σ')) : Step σ l σ' := by
  cases c with
  | sender move =>
    obtain ⟨⟨e, s', μ'⟩, hstep, heq⟩ := Option.map_eq_some_iff.mp hchoose
    cases heq
    exact .sender ((Endpoint.State.step_sound hstep).mono fun _ _ _ h => ⟨_, h⟩)
  | receiver move env =>
    obtain ⟨⟨e, r', μ'⟩, hstep, heq⟩ := Option.map_eq_some_iff.mp hchoose
    cases heq
    exact .receiver ((Endpoint.State.step_sound hstep).mono fun _ _ _ h => ⟨_, h⟩)
  | stray thread =>
    cases hchoose
    exact .stray thread

/-- What a schedule plays is a run. -/
theorem play_sound {σ σ' : System T} {cs : List (Choice T)} {τ : List (Label T)}
    (hplay : σ.play cs = some (τ, σ')) : Run Step σ τ σ' :=
  Run.of_schedule choose play (fun _ _ => True) (fun _ => rfl) (fun _ _ _ => rfl)
    (fun _ _ _ _ _ _ hchoose => ⟨choose_sound hchoose, trivial⟩) trivial hplay

/-- The labels of the run that a schedule plays. -/
def labels (σ : System T) (cs : List (Choice T)) : List (Label T) :=
  ((σ.play cs).map Prod.fst).getD []

/-- The state that a schedule ends in. -/
def reached (σ : System T) (cs : List (Choice T)) : System T := ((σ.play cs).map Prod.snd).getD σ

theorem play_eq {σ : System T} {cs : List (Choice T)} (hplay : (σ.play cs).isSome = true) :
    σ.play cs = some (σ.labels cs, σ.reached cs) := by
  obtain ⟨⟨τ, σ'⟩, hrun⟩ := Option.isSome_iff_exists.mp hplay
  simp [labels, reached, hrun]

theorem run_of_play {σ : System T} {cs : List (Choice T)} (hplay : (σ.play cs).isSome = true) :
    Run Step σ (σ.labels cs) (σ.reached cs) := play_sound (play_eq hplay)

/-! Parts of schedules: one side goes on for some steps, or starts a call first.
Parks return spuriously, and the clock stands still. -/

def sending (steps : Nat) : List (Choice T) := List.replicate steps (.sender .go)

def receiving (steps : Nat) (clock : Nat) : List (Choice T) :=
  List.replicate steps (.receiver .go ⟨.spurious, ⟨clock⟩⟩)

def sends (c : Sender.Call T) (steps : Nat) : List (Choice T) := .sender (.call c) :: sending steps

def receives (c : Receiver.Call) (steps : Nat) (clock : Nat) : List (Choice T) :=
  .receiver (.call c) ⟨.spurious, ⟨clock⟩⟩ :: receiving steps clock

/-- A schedule leaves no spin loop early. -/
def patient (σ : System T) : List (Choice T) → Bool
  | [] => true
  | c :: cs => (σ.choose c).all fun (l, σ') => !σ.earlyExit l && σ'.patient cs

theorem play_patient {σ σ' : System T} {cs : List (Choice T)} {τ : List (Label T)}
    (hplay : σ.play cs = some (τ, σ')) (hpatient : σ.patient cs = true) :
    Run PatientStep σ τ σ' := by
  refine Run.of_schedule choose play (fun σ cs => σ.patient cs = true) (fun _ => rfl)
    (fun _ _ _ => rfl) ?_ hpatient hplay
  intro σ c cs l σ' hpatient hchoose
  simp only [patient, hchoose, Option.all_some, Bool.and_eq_true, Bool.not_eq_true'] at hpatient
  exact ⟨⟨choose_sound hchoose, hpatient.1⟩, hpatient.2⟩

/-- A future that is polled, woken by a send, and dropped in the sender's window,
    whose destructor looks at the state only after the sender's final swap. -/
def late_exit : List (Choice Nat) :=
  receives (.poll ⟨1⟩) 5 0 ++ sends (.send 5) 2 ++ receives .async_drop 4 0 ++ sending 4 ++
    receiving 5 0

/-- The same run, but the destructor looks at the state before that swap, and
    frees the channel. -/
def early_exit : List (Choice Nat) :=
  receives (.poll ⟨1⟩) 5 0 ++ sends (.send 5) 2 ++ receives .async_drop 8 0 ++ sending 4

/-- A call that times out, then one whose time-out falls into the sender's window
    and which waits for the message, and the drop of the receiver. -/
def timed_out : List (Choice Nat) :=
  receives (.recv_deadline ⟨1⟩ ⟨3⟩) 8 7 ++ receives (.recv_deadline ⟨1⟩ ⟨3⟩) 4 7 ++
    sends (.send 5) 2 ++ receiving 3 7 ++ sending 4 ++ receiving 5 7 ++ receives .drop 3 7

end System

end oneshot
