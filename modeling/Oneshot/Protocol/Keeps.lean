import Oneshot.Conc.Outline
import Oneshot.Channel

open conc

namespace oneshot

variable {T : Type}

/-- `Program.Follows` for code of the channel, with the automaton given by its
    parts. -/
def Keeps {R G α : Type} (on : R → (a : Access T) → Option (a.Resp → R → Prop)) (waits : R → Prop)
    (track : G → (interface T).Action → Option G) (p : Code T α) (r : R) (g : G)
    (Q : α → R → G → Prop) : Prop :=
  p.Follows ⟨R, on, waits⟩ track r g Q

/-- The rule of one access: the role has it, and whatever it answers, what holds
    next is `Q`. -/
def Makes {R G : Type} (on : R → (a : Access T) → Option (a.Resp → R → Prop))
    (track : G → (interface T).Action → Option G) (a : Access T) (r : R) (g : G)
    (Q : a.Resp → R → G → Prop) : Prop :=
  ∃ f, on r a = some f ∧ ∀ v r', f v r' → ∃ g', track g ⟨a, v⟩ = some g' ∧ Q v r' g'

section

variable {R G α β : Type} {on : R → (a : Access T) → Option (a.Resp → R → Prop)} {waits : R → Prop}
  {track : G → (interface T).Action → Option G} {r : R} {g : G}

@[simp] theorem keeps_ret {v : α} {Q : α → R → G → Prop} :
    Keeps on waits track (.ret v) r g Q ↔ Q v r g := Iff.rfl

@[simp] theorem keeps_bind {p : Code T α} {f : α → Code T β} {Q : β → R → G → Prop} :
    Keeps on waits track (p.bind f) r g Q ↔
      Keeps on waits track p r g fun v r' g' => Keeps on waits track (f v) r' g' Q :=
  Program.follows_bind

theorem Keeps.mono {p : Code T α} {Q Q' : α → R → G → Prop} (hp : Keeps on waits track p r g Q)
    (hsub : ∀ v r g, Q v r g → Q' v r g) : Keeps on waits track p r g Q' :=
  Program.Follows.mono hp hsub

theorem keeps_loop {body : Code T (Option α)} {Q : α → R → G → Prop} (J : R → G → Prop)
    (hJ : J r g) (hround : ∀ r g, J r g → waits r ∧
      Keeps on waits track body r g fun o r' g' => o.elim (J r' g') fun b => Q b r' g') :
    Keeps on waits track (.loop body) r g Q :=
  Program.follows_loop (I := interface T) (A := ⟨R, on, waits⟩) J hJ hround

@[simp] theorem keeps_load {order : MemOrder} {Q : UInt8 → R → G → Prop} :
    Keeps on waits track (state.load order) r g Q ↔ Makes on track (.load order) r g Q := Iff.rfl

@[simp] theorem keeps_store {val : UInt8} {order : MemOrder} {Q : Unit → R → G → Prop} :
    Keeps on waits track (state.store val order) r g Q ↔
      Makes on track (.store val order) r g Q := Iff.rfl

@[simp] theorem keeps_swap {val : UInt8} {order : MemOrder} {Q : UInt8 → R → G → Prop} :
    Keeps on waits track (state.swap val order) r g Q ↔
      Makes on track (.swap val order) r g Q := Iff.rfl

@[simp] theorem keeps_fetch_add {val : UInt8} {order : MemOrder} {Q : UInt8 → R → G → Prop} :
    Keeps on waits track (state.fetch_add val order) r g Q ↔
      Makes on track (.fetch_add val order) r g Q := Iff.rfl

@[simp] theorem keeps_fetch_xor {val : UInt8} {order : MemOrder} {Q : UInt8 → R → G → Prop} :
    Keeps on waits track (state.fetch_xor val order) r g Q ↔
      Makes on track (.fetch_xor val order) r g Q := Iff.rfl

@[simp] theorem keeps_compare_exchange {current new : UInt8} {success failure : MemOrder}
    {Q : Except UInt8 UInt8 → R → G → Prop} :
    Keeps on waits track (state.compare_exchange current new success failure) r g Q ↔
      Makes on track (.compare_exchange current new success failure) r g Q := Iff.rfl

@[simp] theorem keeps_fence {order : MemOrder} {Q : Unit → R → G → Prop} :
    Keeps on waits track (fence order) r g Q ↔ Makes on track (.fence order) r g Q := Iff.rfl

@[simp] theorem keeps_write_message {message : T} {Q : Unit → R → G → Prop} :
    Keeps on waits track (Channel.write_message message) r g Q ↔
      Makes on track (.write_message message) r g Q := Iff.rfl

@[simp] theorem keeps_take_message {Q : T → R → G → Prop} :
    Keeps on waits track (Channel.take_message) r g Q ↔
      Makes on track (.take_message) r g Q := Iff.rfl

@[simp] theorem keeps_drop_message {Q : Unit → R → G → Prop} :
    Keeps on waits track (Channel.drop_message) r g Q ↔
      Makes on track (.drop_message) r g Q := Iff.rfl

@[simp] theorem keeps_write_waker {waker : ReceiverWaker} {Q : Unit → R → G → Prop} :
    Keeps on waits track (Channel.write_waker waker) r g Q ↔
      Makes on track (.write_waker waker) r g Q := Iff.rfl

@[simp] theorem keeps_take_waker {Q : ReceiverWaker → R → G → Prop} :
    Keeps on waits track (Channel.take_waker) r g Q ↔ Makes on track (.take_waker) r g Q := Iff.rfl

@[simp] theorem keeps_drop_waker {Q : Unit → R → G → Prop} :
    Keeps on waits track (Channel.drop_waker) r g Q ↔ Makes on track (.drop_waker) r g Q := Iff.rfl

@[simp] theorem keeps_dealloc {Q : Unit → R → G → Prop} :
    Keeps on waits track (dealloc) r g Q ↔ Makes on track (.dealloc) r g Q := Iff.rfl

@[simp] theorem keeps_spin_loop {Q : Unit → R → G → Prop} :
    Keeps on waits track (hint.spin_loop) r g Q ↔ Makes on track (.spin_loop) r g Q := Iff.rfl

@[simp] theorem keeps_wake {waker : Waker} {Q : Unit → R → G → Prop} :
    Keeps on waits track (waker.wake) r g Q ↔ Makes on track (.wake waker) r g Q := Iff.rfl

@[simp] theorem keeps_unpark {thread : Thread} {Q : Unit → R → G → Prop} :
    Keeps on waits track (thread.unpark) r g Q ↔ Makes on track (.unpark thread) r g Q := Iff.rfl

@[simp] theorem keeps_park {current : Thread} {Q : Unit → R → G → Prop} :
    Keeps on waits track (thread.park current) r g Q ↔
      Makes on track (.park current) r g fun _ r' g' => Q () r' g' := Iff.rfl

@[simp] theorem keeps_park_timeout {current : Thread} {timeout : Duration}
    {Q : Unit → R → G → Prop} :
    Keeps on waits track (thread.park_timeout current timeout) r g Q ↔
      Makes on track (.park_timeout current timeout) r g fun _ r' g' => Q () r' g' := Iff.rfl

end

end oneshot
