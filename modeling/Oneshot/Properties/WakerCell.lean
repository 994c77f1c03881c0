import Oneshot.Conc.Cell
import Oneshot.Protocol.Patience

open conc

namespace oneshot

variable {T : Type}

namespace Channel

/-- An access to the waker cell that its contents allow. -/
def Allows (x : Channel T) : Access T → Prop
  | .write_waker _ => x.waker = none
  | .take_waker | .drop_waker => x.waker.isSome = true
  | _ => True

end Channel

/-- What an action does with the waker cell. -/
def wakerOp : (interface T).Action → Option (CellOp ReceiverWaker)
  | ⟨.write_waker waker, _⟩ => some (.put waker)
  | ⟨.take_waker, waker⟩ => some (.take waker)
  | ⟨.drop_waker, _⟩ => some .drop
  | _ => none

namespace Label

def wakerOp (l : Label T) : Option (CellOp ReceiverWaker) := l.action.bind oneshot.wakerOp

/-- The waker that the sender takes out of the cell. -/
def taken : Label T → Option ReceiverWaker
  | .sender (.act ⟨.take_waker, waker⟩) => some waker
  | _ => none

/-- The waker that the sender wakes. -/
def woken : Label T → Option ReceiverWaker
  | .sender (.act ⟨.unpark thread, _⟩) => some (.Thread thread)
  | .sender (.act ⟨.wake waker, _⟩) => some (.Task waker)
  | _ => none

/-- Only the receiver fills the waker cell or drops what it holds, and only the sender
    takes it out. -/
def Sided (l : Label T) : Prop :=
  match l.wakerOp with
  | some (.put waker) => l = .receiver (.act ⟨.write_waker waker, ()⟩)
  | some (.take waker) => l = .sender (.act ⟨.take_waker, waker⟩)
  | some .drop => l = .receiver (.act ⟨.drop_waker, ()⟩)
  | none => True

/-- A step that makes no access has nothing to do with a waker. -/
theorem wakers_of_still {l : Label T} (hl : l.action = none) :
    l.wakerOp = none ∧ l.taken = none ∧ l.woken = none := by
  refine ⟨by rw [wakerOp, hl]; rfl, ?_, ?_⟩
  all_goals
    cases l with
    | sender e => cases e <;> first | rfl | cases hl
    | _ => rfl

end Label

/-- What a run has done with the waker cell. -/
def wakerLog (τ : List (Label T)) : List (CellOp ReceiverWaker) := τ.filterMap Label.wakerOp

/-- The wakers the sender has taken. -/
def taken (τ : List (Label T)) : List ReceiverWaker := τ.filterMap Label.taken

/-- The wakers the sender has woken. -/
def woken (τ : List (Label T)) : List ReceiverWaker := τ.filterMap Label.woken

/-- What the discipline of the waker cell asks of a run that has come to `σ`. -/
structure WakersKept (τ : List (Label T)) (σ : System T) : Prop where
  /-- The cell is about to be filled only while it is empty, and emptied only while
      it is full. -/
  allowed : ∀ a, σ.sender.next = some a ∨ σ.receiver.next = some a → σ.memory.channel.Allows a
  sided : ∀ l ∈ τ, l.Sided
  /-- In the sender's window the receiver leaves the cell alone. -/
  window : σ.inWindow = true → ∀ e σ', System.Step σ (.receiver e) σ' →
    (Label.receiver e : Label T).wakerOp = none
  /-- In the end every waker was consumed exactly once, and the sender has woken those
      it took. -/
  consumed : σ.Completed → Consumed (wakerLog τ) ∧ woken τ = taken τ

namespace Sender

/-- The sender makes one kind of access to the waker cell. -/
theorem Role.on_waker {s : Role T} {r : Receiver.Role T} {x : Channel T} {a : Access T}
    {f : a.Resp → Role T → Prop} (hagree : r.Agree s x) (hon : s.on a = some f) : x.Allows a := by
  have hprovides := Sender.provides hagree hon
  cases a with
  | write_waker waker => cases s <;> cases hon
  | take_waker | drop_waker => exact hprovides
  | _ => trivial

/-- Only in its window does the sender take the waker or swap. -/
theorem Role.window_of_on {s : Role T} {r : Receiver.Role T} {x : Channel T} {a : Access T}
    {f : a.Resp → Role T → Prop} (hon : s.on a = some f)
    (ha : a = .take_waker ∨ ∃ val order, a = .swap val order) (hagree : r.Agree s x) :
    ∃ b waker, s.Window b waker x := by
  obtain rfl | ⟨val, order, rfl⟩ := ha
  all_goals
    cases s <;> try cases hon
    cases r <;>
      simp_all [Receiver.Role.Agree, Role.Before, Role.Window, Role.Notified, Role.Finished,
        Role.Failed, Role.published]

/-- The waker that the sender has taken and not yet woken. -/
def Role.holding : Role T → List ReceiverWaker
  | .taken _ waker | .notify _ waker => [waker]
  | _ => []

theorem Role.Move.sided {s s' : Role T} {α : (interface T).Action} (hmove : s.Move α s') :
    (Label.sender (.act α)).Sided := by
  cases hmove <;> first | rfl | trivial

theorem Role.Move.holding {s s' : Role T} {α : (interface T).Action} (hmove : s.Move α s') :
    s.holding ++ (Label.sender (.act α)).taken.toList =
      (Label.sender (.act α)).woken.toList ++ s'.holding := by
  cases hmove <;> rfl

end Sender

namespace Receiver

theorem Role.on_waker {s : Sender.Role T} {r : Role T} {x : Channel T} {a : Access T}
    {f : a.Resp → Role T → Prop} (hagree : r.Agree s x) (hon : r.on a = some f) : x.Allows a := by
  cases a with
  | write_waker waker =>
    cases r with
    | idle =>
      obtain hs | hs := hagree
      · exact hs.holds.2
      · obtain ⟨o, _, rfl⟩ := hs.published
        rfl
    | waiting waker' => cases waker' <;> cases hon
    | _ => cases hon
  | take_waker =>
    cases r with
    | waiting waker' => cases waker' <;> cases hon
    | _ => cases hon
  | drop_waker =>
    cases r with
    | armed waker =>
      obtain hs | hs := hagree
      · rw [Channel.Allows, hs.holds.2]
        rfl
      · obtain ⟨o, _, rfl⟩ := hs.published
        rfl
    | own y =>
      obtain ⟨hwaker, _⟩ := Option.ite_none_right_eq_some.mp hon
      rw [Channel.Allows, hagree.2.1]
      exact hwaker
    | waiting waker' => cases waker' <;> cases hon
    | _ => cases hon
  | _ => trivial

theorem Role.Move.sided {r r' : Role T} {α : (interface T).Action} (hmove : r.Move α r') :
    (Label.receiver (.act α)).Sided := by
  cases hmove <;> first | rfl | trivial

/-- A receiver that shares the channel with a sender in its window makes no access to
    the waker cell. -/
theorem Role.Move.window {r r' : Role T} {s : Sender.Role T} {x : Channel T}
    {α : (interface T).Action} (hmove : r.Move α r') (hagree : r.Agree s x) {b : UInt8}
    {waker : ReceiverWaker} (hs : s.Window b waker x) : wakerOp α = none := by
  cases hmove with
  | store_waker | disarm =>
    cases s <;> first | exact hs.elim | (obtain h | h := hagree <;> exact h.elim)
  | own_drop_waker =>
    obtain ⟨_, _, _, hpublished, _⟩ := hagree
    cases s <;> first | exact hs.elim | cases hpublished
  | _ => rfl

end Receiver

/-- An access that the cell's contents allow goes on with its log. -/
theorem cellLog_act {x : Channel T} {log : List (CellOp ReceiverWaker)}
    {α : (interface T).Action} (hlog : CellLog log x.waker) (hallows : x.Allows α.access)
    (hanswers : x.Answers α.access α.resp) :
    CellLog (log ++ (wakerOp α).toList) (x.update α.access).waker := by
  obtain ⟨a, v⟩ := α
  cases a with
  | write_waker waker =>
    have hempty : x.waker = none := hallows
    rw [hempty] at hlog
    exact hlog.put waker
  | take_waker =>
    have hwaker : x.waker = some v := hanswers
    rw [hwaker] at hlog
    exact hlog.take
  | drop_waker =>
    obtain ⟨waker, hwaker⟩ := Option.isSome_iff_exists.mp hallows
    rw [hwaker] at hlog
    exact hlog.drop
  | compare_exchange current new success failure =>
    have hkeep : (x.update (.compare_exchange current new success failure)).waker = x.waker := by
      simp only [Channel.update]
      split <;> rfl
    rw [hkeep]
    simpa [wakerOp] using hlog
  | _ => simpa [wakerOp, Channel.update] using hlog

namespace Proto

/-- What a run has done with the waker cell is what the cell and the sender's role
    say. -/
structure WakerLedger (τ : List (Label T)) (p : Proto T) : Prop where
  log : CellLog (wakerLog τ) p.memory.channel.waker
  taken : taken τ = woken τ ++ p.s.holding

/-- A session acts on the channel only as its contents allow. -/
theorem Step.allows {p p' : Proto T} {l : Label T} {α : (interface T).Action}
    (hstep : Step p l p') (hl : l.action = some α) : p.memory.channel.Allows α.access := by
  have hagree : Receiver.Role.Agree p.r p.s p.memory.channel := p.agree
  obtain ⟨μ, ss, rs, _⟩ := p
  obtain ⟨μ', ss', rs', _⟩ := p'
  cases hstep with
  | sender hsession =>
    cases hsession with
    | act hon =>
      cases hl
      exact Sender.Role.on_waker hagree hon
    | _ => cases hl
  | receiver hsession =>
    cases hsession with
    | act hon =>
      cases hl
      exact Receiver.Role.on_waker hagree hon
    | _ => cases hl
  | stray => cases hl

theorem Step.sided {p p' : Proto T} {l : Label T} (hstep : Step p l p') : l.Sided := by
  cases hstep.moves with
  | still hl =>
    rw [Label.Sided, (Label.wakers_of_still hl).1]
    trivial
  | sender hmove => exact hmove.sided
  | receiver hmove => exact hmove.sided

theorem WakerLedger.step {τ : List (Label T)} {p p' : Proto T} {l : Label T}
    (h : WakerLedger τ p) (hstep : Step p l p') : WakerLedger (τ ++ [l]) p' := by
  obtain ⟨hlog, htaken⟩ := h
  have hτ : wakerLog (τ ++ [l]) = wakerLog τ ++ l.wakerOp.toList := filterMap_snoc _ _ _
  have hτ' : oneshot.taken (τ ++ [l]) = oneshot.taken τ ++ l.taken.toList := filterMap_snoc _ _ _
  have hτ'' : woken (τ ++ [l]) = woken τ ++ l.woken.toList := filterMap_snoc _ _ _
  have hallows {α} (hl : l.action = some α) := hstep.allows hl
  cases hstep.moves with
  | still hl hs hr hchannel =>
    obtain ⟨h₁, h₂, h₃⟩ := Label.wakers_of_still hl
    refine ⟨?_, ?_⟩
    · rw [hτ, h₁, hchannel]
      simpa using hlog
    · rw [hτ', hτ'', h₂, h₃, hs]
      simpa using htaken
  | @sender α _ hmove hr hacts =>
    obtain ⟨env, hexec⟩ := hacts
    obtain ⟨hanswers, hupdate⟩ := Memory.exec_channel hexec
    refine ⟨?_, ?_⟩
    · rw [hτ, hupdate]
      exact cellLog_act hlog (hallows rfl) hanswers
    · rw [hτ', hτ'', htaken, List.append_assoc, hmove.holding, ← List.append_assoc]
  | @receiver α _ hmove hs hacts =>
    obtain ⟨env, hexec⟩ := hacts
    obtain ⟨hanswers, hupdate⟩ := Memory.exec_channel hexec
    refine ⟨?_, ?_⟩
    · rw [hτ, hupdate]
      exact cellLog_act hlog (hallows rfl) hanswers
    · rw [hτ', hτ'', htaken, hs]
      simp [Label.taken, Label.woken]

theorem wakerLedger_run {h : Receiver.Handle} {token : Thread → Bool} {τ : List (Label T)}
    {p : Proto T} (hrun : Run Step (init h token) τ p) : WakerLedger τ p := by
  have hinit : WakerLedger [] (init h token : Proto T) := ⟨.nil, rfl⟩
  exact hrun.invariant (P := WakerLedger) hinit fun _ _ _ _ _ h hstep => h.step hstep

/-- In a channel that both sides have left, no waker is left over. -/
theorem wakers_of_completed {p : Proto T} (hs : Sender.Ready .gone p.s)
    (hr : Receiver.Ready .gone p.r) : p.memory.channel.waker = none ∧ p.s.holding = [] := by
  have hagree : Receiver.Role.Agree p.r p.s p.memory.channel := p.agree
  constructor
  · cases hps : p.s <;> rw [hps] at hs hagree <;> try exact hs.elim
    all_goals cases hpr : p.r <;> rw [hpr] at hr hagree <;> try exact hr.elim
    all_goals
      simp_all [Receiver.Role.Agree, Sender.Role.Before, Sender.Role.Window, Sender.Role.Notified,
        Sender.Role.Failed, Sender.Role.published]
  · cases hps : p.s <;> rw [hps] at hs <;> first | exact hs.elim | rfl

/-- The sender's window, as its role has it. -/
theorem Simulates.window {σ : System T} {p : Proto T} (hsim : Simulates σ p)
    (hwindow : σ.inWindow = true) : ∃ b waker, p.s.Window b waker p.memory.channel := by
  have hagree : Receiver.Role.Agree p.r p.s p.memory.channel := p.agree
  unfold System.inWindow at hwindow
  split at hwindow
  case h_1 hnext | h_2 hnext =>
    obtain ⟨f, hon⟩ := hsim.sender.on_next hnext
    exact Sender.Role.window_of_on (s := p.s) hon (by simp) hagree
  case h_3 => cases hwindow

theorem Simulates.wakersKept {σ₀ σ : System T} {h : Receiver.Handle} {token : Thread → Bool}
    {τ : List (Label T)} (hsim : Simulates σ₀ (init h token)) (hrun : Run System.Step σ₀ τ σ) :
    WakersKept τ σ := by
  obtain ⟨p, hp, hsim⟩ := hsim.run hrun
  obtain ⟨hlog, htaken⟩ := wakerLedger_run hp
  have hagree : Receiver.Role.Agree p.r p.s p.memory.channel := p.agree
  refine ⟨?_, ?_, ?_, ?_⟩
  · rintro a (hnext | hnext)
    · obtain ⟨f, hon⟩ := hsim.sender.on_next hnext
      rw [← hsim.memory]
      exact Sender.Role.on_waker hagree hon
    · obtain ⟨f, hon⟩ := hsim.receiver.on_next hnext
      rw [← hsim.memory]
      exact Receiver.Role.on_waker hagree hon
  · exact (hp.always (P := fun _ => True) (fun _ _ _ _ hstep => ⟨trivial, hstep.sided⟩) trivial).2
  · intro hwindow e σ' hstep
    obtain ⟨b, waker, hs⟩ := hsim.window hwindow
    obtain ⟨p', hp', _⟩ := hsim.step hstep
    cases hp'.moves with
    | still hl => exact (Label.wakers_of_still hl).1
    | receiver hmove => exact hmove.window hagree hs
  · intro hcompleted
    obtain ⟨⟨_, hs⟩, _, hr⟩ := hsim.completed hcompleted
    obtain ⟨hnone, hholding⟩ := wakers_of_completed hs hr
    rw [hnone] at hlog
    rw [hholding, List.append_nil] at htaken
    exact ⟨hlog.consumed, htaken.symm⟩

end Proto

/-- The waker cell of either kind of channel is used as its contents allow, and every
    waker is consumed. -/
theorem wakers_kept {σ₀ σ : System T} {τ : List (Label T)} (hinitial : σ₀.Initial)
    (hrun : Run System.Step σ₀ τ σ) : WakersKept τ σ := by
  obtain ⟨token, rfl | rfl⟩ := hinitial
  · exact (Proto.simulates_channel token).wakersKept hrun
  · exact (Proto.simulates_async_channel token).wakersKept hrun

theorem wakers_kept_timed_out :
    WakersKept ((System.channel Nat fun _ => false).labels System.timed_out)
      ((System.channel Nat fun _ => false).reached System.timed_out) :=
  wakers_kept ⟨_, .inl rfl⟩ (System.run_of_play (by decide))

end oneshot
