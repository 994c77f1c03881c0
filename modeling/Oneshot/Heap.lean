import Oneshot.System

open conc

namespace oneshot

variable {T : Type}

/-! A program with any number of channels. The allocator may hand out the address of a channel
that was freed again, and the threads use their park tokens for all of them. -/

/-- Where a channel is on the heap. -/
abbrev Addr := Nat

/-- The two ends of a channel. Both hold the pointer that `channel()` got from the allocator.
    An end may be given away as a raw pointer. -/
structure Ends (T : Type) where
  channel_ptr : Addr
  sender : (oneshot.sender T).State
  receiver : (oneshot.receiver T).State
  raw : Side → Bool

/-- The heap, the park tokens, and the ends of the channels in the order they were made in.
    An allocation keeps its contents after it is freed, until its address is used again. -/
structure Heap (T : Type) where
  channels : Addr → Channel T
  live : Addr → Bool
  token : Thread → Bool
  ends : List (Ends T)

/-- The thread that a call of the receiving side blocks. -/
def Receiver.Call.current : Receiver.Call → Option Thread
  | .recv current | .recv_ref current => some current
  | .recv_timeout current _ | .recv_deadline current _ => some current
  | _ => none

namespace Ends

/-- The receiver is in a call that blocks the thread. -/
def occupies (e : Ends T) (thread : Thread) : Bool :=
  match e.receiver with
  | .busy c _ => c.current == some thread
  | .idle _ => false

/-- The user holds the `Sender`, or the `Receiver`. -/
def holds (e : Ends T) : Side → Bool
  | .sender =>
    match e.sender with
    | .idle .sender => true
    | _ => false
  | .receiver =>
    match e.receiver with
    | .idle .receiver => true
    | _ => false

/-- The user holds the error of a failed `send`. -/
def failed (e : Ends T) : Bool :=
  match e.sender with
  | .idle .send_error => true
  | _ => false

def setRaw (e : Ends T) (side : Side) (val : Bool) : Ends T :=
  { e with raw := fun s => if s = side then val else e.raw s }

end Ends

/-- What a program does in one step: it makes a channel at an address, goes on with one of the
    ends of a channel, or passes one through a raw pointer, looks at the message of a failed
    `send`, or unparks a thread. -/
inductive HeapLabel (T : Type) where
  | channel (channel_ptr : Addr)
  | async_channel (channel_ptr : Addr)
  | on (i : Nat) (l : Label T)
  | into_raw (side : Side) (i : Nat)
  | from_raw (side : Side) (raw : Addr) (i : Nat)
  | as_inner (i : Nat) (message : T)
  | stray (thread : Thread)

namespace Heap

/-- What the two ends with this pointer see of the heap. -/
def memory (h : Heap T) (channel_ptr : Addr) : Memory T :=
  ⟨h.channels channel_ptr, h.live channel_ptr, h.token⟩

def view (h : Heap T) (e : Ends T) : System T := ⟨h.memory e.channel_ptr, e.sender, e.receiver⟩

/-- Puts an allocation, and the park tokens, back. -/
def store (h : Heap T) (channel_ptr : Addr) (μ : Memory T) : Heap T :=
  { h with
    channels := fun a => if a = channel_ptr then μ.channel else h.channels a
    live := fun a => if a = channel_ptr then μ.allocated else h.live a
    token := μ.token }

def setEnds (h : Heap T) (i : Nat) (e : Ends T) : Heap T := { h with ends := h.ends.set i e }

/-- `Box::new(Channel::new())` at a free address, and the two ends that hold it. -/
def alloc (h : Heap T) (channel_ptr : Addr) (handle : Receiver.Handle) : Heap T :=
  { h.store channel_ptr ⟨Channel.new, true, h.token⟩ with
    ends := h.ends ++ [⟨channel_ptr, .idle .sender, .idle handle, fun _ => false⟩] }

/-- The channel `i` has made a step. -/
def put (h : Heap T) (i : Nat) (e : Ends T) (σ : System T) : Heap T :=
  (h.store e.channel_ptr σ.memory).setEnds i { e with sender := σ.sender, receiver := σ.receiver }

/-- Some receiver is in a call that blocks the thread. -/
def occupied (h : Heap T) (thread : Thread) : Bool := h.ends.any (·.occupies thread)

/-- An end that was given away makes no step, and a thread makes one blocking call at a time. -/
def allows (h : Heap T) (e : Ends T) : Label T → Bool
  | .sender _ => !e.raw .sender
  | .receiver (.call c) => !e.raw .receiver && c.current.all fun thread => !h.occupied thread
  | .receiver _ => !e.raw .receiver
  | .stray _ => false

/-- A program that has made no channel yet. -/
def Initial (h : Heap T) : Prop := (∀ a, h.live a = false) ∧ h.ends = []

inductive Step : Heap T → HeapLabel T → Heap T → Prop where
  | channel {h : Heap T} {channel_ptr : Addr} (hfree : h.live channel_ptr = false) :
      Step h (.channel channel_ptr) (h.alloc channel_ptr .receiver)
  | async_channel {h : Heap T} {channel_ptr : Addr} (hfree : h.live channel_ptr = false) :
      Step h (.async_channel channel_ptr) (h.alloc channel_ptr .async_receiver)
  | on {h : Heap T} {i : Nat} {e : Ends T} {l : Label T} {σ : System T}
      (hends : h.ends[i]? = some e) (hallows : h.allows e l = true)
      (hstep : System.Step (h.view e) l σ) : Step h (.on i l) (h.put i e σ)
  | into_raw {h : Heap T} {side : Side} {i : Nat} {e : Ends T} (hends : h.ends[i]? = some e)
      (hholds : e.holds side = true) (hraw : e.raw side = false) :
      Step h (.into_raw side i) (h.setEnds i (e.setRaw side true))
  | from_raw {h : Heap T} {side : Side} {i : Nat} {e : Ends T} (hends : h.ends[i]? = some e)
      (hraw : e.raw side = true) :
      Step h (.from_raw side e.channel_ptr i) (h.setEnds i (e.setRaw side false))
  | as_inner {h : Heap T} {i : Nat} {e : Ends T} {message : T} (hends : h.ends[i]? = some e)
      (hfailed : e.failed = true)
      (hmessage : (h.channels e.channel_ptr).message = some message) :
      Step h (.as_inner i message) h
  | stray {h : Heap T} (thread : Thread) :
      Step h (.stray thread) { h with token := fun t => if t = thread then true else h.token t }

/-- One of the spin loops is left early. -/
def early (h : Heap T) : HeapLabel T → Bool
  | .on i l => h.ends[i]?.any fun e => (h.view e).earlyExit l
  | _ => false

/-- A step in which none is. -/
def PatientStep (h : Heap T) (l : HeapLabel T) (h' : Heap T) : Prop :=
  Step h l h' ∧ h.early l = false

/-- What a schedule says about one step. -/
inductive Choice (T : Type) where
  | channel (channel_ptr : Addr)
  | async_channel (channel_ptr : Addr)
  | on (i : Nat) (c : System.Choice T)
  | into_raw (side : Side) (i : Nat)
  | from_raw (side : Side) (i : Nat)
  | as_inner (i : Nat)
  | stray (thread : Thread)

def choose (h : Heap T) : Choice T → Option (HeapLabel T × Heap T)
  | .channel a => if h.live a then none else some (.channel a, h.alloc a .receiver)
  | .async_channel a =>
    if h.live a then none else some (.async_channel a, h.alloc a .async_receiver)
  | .on i c => do
    let e ← h.ends[i]?
    let (l, σ) ← (h.view e).choose c
    if h.allows e l then some (.on i l, h.put i e σ) else none
  | .into_raw side i => do
    let e ← h.ends[i]?
    if e.holds side && !e.raw side then
      some (.into_raw side i, h.setEnds i (e.setRaw side true))
    else none
  | .from_raw side i => do
    let e ← h.ends[i]?
    if e.raw side then
      some (.from_raw side e.channel_ptr i, h.setEnds i (e.setRaw side false))
    else none
  | .as_inner i => do
    let e ← h.ends[i]?
    match (h.channels e.channel_ptr).message with
    | some message => if e.failed then some (.as_inner i message, h) else none
    | none => none
  | .stray thread =>
    some (.stray thread, { h with token := fun t => if t = thread then true else h.token t })

/-- Runs a schedule, and returns the labels of its steps and the last state. -/
def play (h : Heap T) : List (Choice T) → Option (List (HeapLabel T) × Heap T)
  | [] => some ([], h)
  | c :: cs => do
    let (l, h') ← h.choose c
    let (τ, h'') ← h'.play cs
    return (l :: τ, h'')

theorem choose_sound {h h' : Heap T} {c : Choice T} {l : HeapLabel T}
    (hchoose : h.choose c = some (l, h')) : Step h l h' := by
  cases c with
  | channel a | async_channel a =>
    simp only [choose] at hchoose
    split at hchoose
    · cases hchoose
    · cases hchoose
      first
        | exact .channel (Bool.not_eq_true _ ▸ ‹_›)
        | exact .async_channel (Bool.not_eq_true _ ▸ ‹_›)
  | on i c =>
    obtain ⟨e, he, hchoose⟩ := Option.bind_eq_some_iff.mp hchoose
    obtain ⟨⟨l', σ⟩, hstep, hchoose⟩ := Option.bind_eq_some_iff.mp hchoose
    obtain ⟨hallows, heq⟩ := Option.ite_none_right_eq_some.mp hchoose
    cases heq
    exact .on he hallows (System.choose_sound hstep)
  | into_raw side i =>
    obtain ⟨e, he, hchoose⟩ := Option.bind_eq_some_iff.mp hchoose
    obtain ⟨hholds, heq⟩ := Option.ite_none_right_eq_some.mp hchoose
    cases heq
    rw [Bool.and_eq_true, Bool.not_eq_true'] at hholds
    exact .into_raw he hholds.1 hholds.2
  | from_raw side i =>
    obtain ⟨e, he, hchoose⟩ := Option.bind_eq_some_iff.mp hchoose
    obtain ⟨hraw, heq⟩ := Option.ite_none_right_eq_some.mp hchoose
    cases heq
    exact .from_raw he hraw
  | as_inner i =>
    obtain ⟨e, he, hchoose⟩ := Option.bind_eq_some_iff.mp hchoose
    split at hchoose
    · obtain ⟨hfailed, heq⟩ := Option.ite_none_right_eq_some.mp hchoose
      cases heq
      exact .as_inner he hfailed ‹_›
    · cases hchoose
  | stray thread =>
    cases hchoose
    exact .stray thread

/-- What a schedule plays is a run. -/
theorem play_sound {h h' : Heap T} {cs : List (Choice T)} {τ : List (HeapLabel T)}
    (hplay : h.play cs = some (τ, h')) : Run Step h τ h' :=
  Run.of_schedule choose play (fun _ _ => True) (fun _ => rfl) (fun _ _ _ => rfl)
    (fun _ _ _ _ _ _ hchoose => ⟨choose_sound hchoose, trivial⟩) trivial hplay

/-- The labels of what a schedule plays, and the state it leads to. -/
def labels (h : Heap T) (cs : List (Choice T)) : List (HeapLabel T) :=
  ((h.play cs).map Prod.fst).getD []

def reached (h : Heap T) (cs : List (Choice T)) : Heap T := ((h.play cs).map Prod.snd).getD h

theorem run_of_play {h : Heap T} {cs : List (Choice T)} (hplay : (h.play cs).isSome = true) :
    Run Step h (h.labels cs) (h.reached cs) := by
  obtain ⟨⟨τ, h'⟩, heq⟩ := Option.isSome_iff_exists.mp hplay
  simpa [labels, reached, heq] using play_sound heq

end Heap

end oneshot
