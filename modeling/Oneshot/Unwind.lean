import Oneshot.Conc.Unwind
import Oneshot.System

open conc

namespace oneshot

variable {T : Type}

/-- Where a waker may unwind out of a call of the sending side. `send` and the destructor
    have consumed the `Sender` by then. -/
def Sender.unwinds : Sender.Call T → Access T → Option Sender.Handle
  | .send _, .wake _ | .drop, .wake _ => some .gone
  | _, _ => none

/-- Where a waker may unwind out of a `poll`, which has its receiver by reference. -/
def Receiver.unwinds : Receiver.Call → Access T → Option Receiver.Handle
  | .poll _, .clone_waker _ | .poll _, .drop_waker | .poll _, .wake_by_ref _ => some .async_receiver
  | _, _ => none

namespace Unwinding

/-- A step of a channel whose wakers may panic: one in which nothing panics, or an access
    that unwinds out of its call. -/
inductive Label (T : Type) where
  | step (l : oneshot.Label T)
  | sender (α : (interface T).Action)
  | receiver (α : (interface T).Action)

/-- The same step, had its access returned. -/
def Label.plain : Label T → oneshot.Label T
  | .step l => l
  | .sender α => .sender (.act α)
  | .receiver α => .receiver (.act α)

/-- The receiver is left by the call it is in, one way or the other. -/
def Label.leaves : Label T → Bool
  | .step (.receiver (.ret _ _)) | .receiver _ => true
  | _ => false

/-- What a run has done with the channel. -/
def plain (τ : List (Label T)) : List (oneshot.Label T) := τ.map Label.plain

/-- Any interleaving of the single steps of the two sides, with each access to a waker
    returning or unwinding. One that unwinds has done what it does: a waker that was
    dropped is dropped. -/
inductive Step : System T → Label T → System T → Prop where
  | step {σ σ' : System T} {l : oneshot.Label T} (hstep : System.Step σ l σ') : Step σ (.step l) σ'
  | sender {σ : System T} {α : (interface T).Action} {s' : (oneshot.sender T).State}
      {μ' : Memory T}
      (hunwind : (oneshot.sender T).Unwind Sender.unwinds Memory.Acts σ.sender σ.memory α s' μ') :
      Step σ (.sender α) { σ with memory := μ', sender := s' }
  | receiver {σ : System T} {α : (interface T).Action} {r' : (oneshot.receiver T).State}
      {μ' : Memory T}
      (hunwind : (oneshot.receiver T).Unwind Receiver.unwinds Memory.Acts σ.receiver σ.memory α r' μ') :
      Step σ (.receiver α) { σ with memory := μ', receiver := r' }

theorem plain_append (τ₁ τ₂ : List (Label T)) : plain (τ₁ ++ τ₂) = plain τ₁ ++ plain τ₂ :=
  List.map_append

/-- What a schedule says about one step: the access that a side makes next may unwind. -/
inductive Choice (T : Type) where
  | step (c : System.Choice T)
  | sender
  | receiver

def choose (σ : System T) : Choice T → Option (Label T × System T)
  | .step c => (σ.choose c).map fun (l, σ') => (.step l, σ')
  | .sender =>
    (σ.sender.unwind Sender.unwinds (Memory.exec ⟨.spurious, ⟨0⟩⟩) σ.memory).map
      fun (α, s', μ') => (.sender α, { σ with memory := μ', sender := s' })
  | .receiver =>
    (σ.receiver.unwind Receiver.unwinds (Memory.exec ⟨.spurious, ⟨0⟩⟩) σ.memory).map
      fun (α, r', μ') => (.receiver α, { σ with memory := μ', receiver := r' })

/-- Runs a schedule, and returns the labels of its steps and the last state. -/
def play (σ : System T) : List (Choice T) → Option (List (Label T) × System T)
  | [] => some ([], σ)
  | c :: cs => do
    let (l, σ') ← choose σ c
    let (τ, σ'') ← play σ' cs
    return (l :: τ, σ'')

theorem choose_sound {σ σ' : System T} {c : Choice T} {l : Label T}
    (hchoose : choose σ c = some (l, σ')) : Step σ l σ' := by
  cases c with
  | step c =>
    obtain ⟨⟨l', σ₁⟩, hstep, heq⟩ := Option.map_eq_some_iff.mp hchoose
    cases heq
    exact .step (System.choose_sound hstep)
  | sender =>
    obtain ⟨⟨α, s', μ'⟩, hunwind, heq⟩ := Option.map_eq_some_iff.mp hchoose
    cases heq
    exact .sender ((Endpoint.State.unwind_sound hunwind).mono fun _ _ _ h => ⟨_, h⟩)
  | receiver =>
    obtain ⟨⟨α, r', μ'⟩, hunwind, heq⟩ := Option.map_eq_some_iff.mp hchoose
    cases heq
    exact .receiver ((Endpoint.State.unwind_sound hunwind).mono fun _ _ _ h => ⟨_, h⟩)

/-- What a schedule plays is a run. -/
theorem play_sound {σ σ' : System T} {cs : List (Choice T)} {τ : List (Label T)}
    (hplay : play σ cs = some (τ, σ')) : Run Step σ τ σ' :=
  Run.of_schedule choose play (fun _ _ => True) (fun _ => rfl) (fun _ _ _ => rfl)
    (fun _ _ _ _ _ _ hchoose => ⟨choose_sound hchoose, trivial⟩) trivial hplay

/-- A future that is polled again and again: the drop of the waker of the first poll
    unwinds, then the clone of a new one. The third poll waits, and the wake of the send
    unwinds too. The last poll takes the message. -/
def thrown : List (Choice Nat) :=
  (System.receives (.poll ⟨1⟩) 5 0 ++ System.receives (.poll ⟨2⟩) 2 0).map .step ++
    [.receiver] ++ (System.receives (.poll ⟨3⟩) 1 0).map .step ++ [.receiver] ++
    (System.receives (.poll ⟨4⟩) 5 0 ++ System.sends (.send 5) 4).map .step ++ [.sender] ++
    (System.receives (.poll ⟨5⟩) 5 0).map .step

end Unwinding

end oneshot
