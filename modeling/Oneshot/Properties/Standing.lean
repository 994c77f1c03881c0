import Oneshot.Properties.Atomic
import Oneshot.Properties.Message

open conc

namespace oneshot

variable {T : Type}

/-! Where the two sides stand towards the atomic oneshot. -/

namespace Receiver

/-- Where the receiver stands: it may still receive, it was dropped before the
    sender was done, it was dropped while the sender was at work, or there is
    nothing to receive any more. -/
inductive Standing where
  | here
  | left
  | departing
  | consumed

/-- The destructor has taken effect. -/
def Progress.dropping (g : Progress T) : Bool :=
  match g.settled with
  | some .dropped => true
  | _ => false

end Receiver

def Content.standing (dropping : Bool) : Content T → Receiver.Standing
  | .taken _ | .dropped => .consumed
  | .absent | .full => if dropping then .consumed else .here

def Receiver.Role.standing (dropping : Bool) : Receiver.Role T → Receiver.Standing
  | .left => .left
  | .leaving _ | .quitting _ | .abandoned _ => .departing
  | .own x => x.message.standing dropping
  | .released content _ => content.standing dropping
  | _ => .here

def Receiver.standing : (Receiver.contract T).Session → Receiver.Standing
  | .between _ r => Receiver.Role.standing false r
  | .during _ r g => Receiver.Role.standing (Receiver.Progress.dropping g) r

/-- What the final write of the sender makes of the channel. -/
def Oneshot.final : Option T → Oneshot T
  | some message => .Full message
  | none => .Closed

namespace Sender

/-- The state of the atomic oneshot. In the sender's window it depends on whether
    the receiver was dropped there. -/
def Role.abstract (k : Receiver.Standing) : Role T → Oneshot T
  | .fresh | .wrote _ => match k with
    | .left => .ReceiverGone
    | _ => .Open
  | .unparking _ | .taken _ _ => match k with
    | .departing => .Closed
    | _ => .Open
  | .notify message _ | .finished message => match k with
    | .here => Oneshot.final message
    | _ => .Closed
  | .failed _ | .last _ | .freed _ => .ReceiverGone

/-- The sender has taken effect: at its announcement or its final write, and in
    between if the receiver was dropped there. -/
def Role.pointed (k : Receiver.Standing) : Role T → Bool
  | .fresh | .wrote _ => false
  | .unparking _ | .taken _ _ => match k with
    | .departing => true
    | _ => false
  | _ => true

/-- The result a call has once it has taken effect. -/
def Role.result : Role T → Call T → Oneshot.Res T
  | .failed _, .send message => .send_error message
  | _, .send _ => .sent
  | _, _ => .dropped

def status (k : Receiver.Standing) : (Sender.contract T).Session → (atomic T).Status
  | .between _ _ => .idle
  | .during c s _ => match (c : Call T).op with
    | none => .idle
    | some op => if Role.pointed k s then .done op (Role.result s c) else .called op

/-- The call that makes a sender write or announce something. -/
def Role.Placed (c : Call T) : Role T → Prop
  | .wrote message => c = .send message
  | .unparking message | .taken message _ | .notify message _ | .finished message =>
    c = match message with
      | some message => .send message
      | none => .drop
  | _ => True

def Placed : (Sender.contract T).Session → Prop
  | .between h s => Ready h s
  | .during c s _ => Role.Placed c s

end Sender

namespace Sender

theorem placed_call {h : Handle} {c : Call T} {s : Role T} {g : Progress T}
    (haccepts : (sender T).accepts h c = true) (hready : Ready h s) : Placed (.during c s g) := by
  cases s with
  | finished message => cases h <;> first | exact hready.elim | (cases c <;> cases haccepts)
  | wrote | unparking | taken | notify => cases h <;> exact hready.elim
  | _ => trivial

end Sender

namespace Receiver

def status : (Receiver.contract T).Session → (atomic T).Status
  | .between _ _ => .idle
  | .during c _ g => match (c : Call).op with
    | none => .idle
    | some op => match Progress.settled g with
      | none => .called op
      | some o => .done op (res o)

/-- A destructor has taken effect when it leaves the channel to the sender's
    final write, and no longer waits for anything once it has. -/
def Placed : (Receiver.contract T).Session → Prop
  | .between _ _ => True
  | .during _ r g => (Role.standing false r = .departing → Progress.dropping g = true) ∧
      (Progress.dropping g = true → Role.apart r = false)

end Receiver

/-! What the sides know of each other, in these terms. -/

namespace Receiver.Role.Agree

variable {r : Receiver.Role T} {s : Sender.Role T} {x : Channel T}

/-- Before the sender announces itself the receiver is either waiting for it or
    gone. -/
theorem before (hagree : r.Agree s x) (hs : s = .fresh ∨ ∃ message, s = .wrote message) (d : Bool) :
    (r.standing d = .left ∧ x.state = DISCONNECTED) ∨
      (r.standing d = .here ∧ x.state ≠ DISCONNECTED) := by
  obtain rfl | ⟨message, rfl⟩ := hs
  all_goals
    cases r <;>
      simp_all [Agree, Sender.Role.Before, Sender.Role.Window, Sender.Role.Notified,
        Sender.Role.Finished, Sender.Role.Failed, Sender.Role.published, Role.standing]

/-- In the sender's window the receiver is waiting for it, or was dropped there. -/
theorem window {o : Option T} {w : ReceiverWaker} (hagree : r.Agree (.taken o w) x) (d : Bool) :
    r.standing d = .departing ∨ r.standing d = .here := by
  cases r <;>
    simp_all [Agree, Sender.Role.Before, Sender.Role.Window, Sender.Role.Notified,
      Sender.Role.Finished, Sender.Role.Failed, Sender.Role.published, Role.standing]

/-- As long as the receiver has not seen the sender's final state, the byte says
    whether it was written. -/
theorem of_apart (hagree : r.Agree s x) (hr : r.apart = true) :
    (s.abstract .here = .Open ∧ s.published = none ∧ x.state ≠ MESSAGE ∧ x.state ≠ DISCONNECTED) ∨
      ∃ o, s.published = some o ∧ x.state = Sender.final o := by
  cases r <;> cases s <;>
    simp_all [Agree, Sender.Role.Before, Sender.Role.Window, Sender.Role.Notified,
      Sender.Role.Finished, Sender.Role.published, Role.apart, Sender.Role.abstract]

end Receiver.Role.Agree

/-- What the sender has published is the outcome it stands for. -/
theorem Sender.Role.of_published {s : Sender.Role T} {o : Option T} (hs : s.published = some o)
    (k : Receiver.Standing) :
    s.pointed k = true ∧ s.abstract .here = Oneshot.final o ∧ s.abstract .consumed = .Closed ∧
      s.abstract .departing = .Closed := by
  cases s <;> cases hs <;> exact ⟨rfl, rfl, rfl, rfl⟩

namespace Receiver

variable {c : Call} {r r' : Role T} {s : Sender.Role T} {x x' : Channel T} {d : Bool}
  {α : (interface T).Action}

theorem standing_of_apart (hr : r.apart = true) : r.standing d = .here := by
  cases r <;> first | rfl | cases hr

/-- Away from its points a call leaves the atomic oneshot as it is. -/
theorem Role.Move.keeps_abstract (hmove : r.Move α r') (hagree : r'.Agree s x')
    (hdeparting : r.standing false = .departing → d = true) (hapart : d = true → r.apart = false)
    (hswap : ∀ order v, α ≠ ⟨.swap DISCONNECTED order, v⟩)
    (htake : ∀ message, α ≠ ⟨.take_message, message⟩)
    (hdrop : α = ⟨.drop_message, ()⟩ → d = true) :
    s.abstract (r'.standing d) = s.abstract (r.standing d) ∧
      s.pointed (r'.standing d) = s.pointed (r.standing d) := by
  cases hmove with
  | look order hfinal | publish_late waker hfinal | exchange_late waker hfinal
  | expire_late current hfinal | woken waker order hfinal | poll_late cx order hfinal
  | retract_late cx hfinal | caught waker order hfinal | expired waker order hfinal =>
    obtain rfl : d = false := by
      cases d with
      | false => rfl
      | true => cases hapart rfl
    cases hfinal <;> exact ⟨rfl, rfl⟩
  | leave | close | depart | depart_late | own_swap => exact (hswap _ _ rfl).elim
  | own_take => exact (htake _ rfl).elim
  | own_drop y hfull =>
    obtain rfl := hdrop rfl
    obtain ⟨state, content, waker, seen, intact⟩ := y
    cases content <;> exact ⟨rfl, rfl⟩
  | receive_late waker order =>
    -- The destructor finds the message after the sender's final write.
    obtain rfl := hdeparting rfl
    obtain ⟨_, _, sent, hsent, _⟩ := hagree
    obtain ⟨hconsumed, _, h⟩ := Sender.Role.of_published hsent .consumed
    obtain ⟨hleaving, _⟩ := Sender.Role.of_published hsent .departing
    exact ⟨h.1.trans h.2.symm, hconsumed.trans hleaving.symm⟩
  | _ => exact ⟨rfl, rfl⟩

/-- A call that finds nothing yet has read a state that is not final. -/
theorem open_of_point (hmove : r.Move α r') (hpoint : point c α = some .open)
    (hanswers : x.Answers α.access α.resp) :
    r.apart = true ∧ x.state ≠ MESSAGE ∧ x.state ≠ DISCONNECTED := by
  cases hmove with
  | look_empty order | expired_again waker order =>
    have hstate : x.state = EMPTY := Eq.symm hanswers
    exact ⟨rfl, by simp [hstate], by simp [hstate]⟩
  | expire current =>
    have hstate : x.state = RECEIVING := Eq.symm hanswers
    exact ⟨rfl, by simp [hstate], by simp [hstate]⟩
  | exchange waker =>
    have hstate : x.state = EMPTY := Channel.answers_ok hanswers
    exact ⟨rfl, by simp [hstate], by simp [hstate]⟩
  | retract_unparking cx =>
    have hstate : x.state = UNPARKING := Channel.answers_error hanswers
    exact ⟨rfl, by simp [hstate], by simp [hstate]⟩
  | look order hfinal | publish_late waker hfinal | exchange_late waker hfinal
  | expire_late current hfinal | woken waker order hfinal | poll_late cx order hfinal
  | retract_late cx hfinal | caught waker order hfinal | expired waker order hfinal
  | close hfinal | depart_late waker hfinal =>
    cases hfinal <;> simp [point, loadPoint, swapPoint, exchangePoint] at hpoint
  | own_load y order hstate =>
    obtain hstate | ⟨hstate, _⟩ := hstate <;> simp [point, loadPoint, hstate] at hpoint
  | woken_again waker order hv =>
    obtain rfl | rfl := hv <;> simp [point, loadPoint] at hpoint
  | _ => simp [point, loadPoint, swapPoint, exchangePoint] at hpoint

/-- A call that finds the channel closed has read `DISCONNECTED`, from a channel
    that it does not have the message of. -/
theorem disconnected_of_point (hmove : r.Move α r') (hpoint : point c α = some .disconnected)
    (hanswers : x.Answers α.access α.resp) :
    x.state = DISCONNECTED ∧ (r.apart = true ∨ (∃ waker, r = .leaving waker) ∨
      ∃ y, r = .own y ∧ y.message.isFull = false) := by
  cases hmove with
  | look order hfinal | woken waker order hfinal | poll_late cx order hfinal
  | caught waker order hfinal | expired waker order hfinal | publish_late waker hfinal
  | expire_late current hfinal =>
    cases hfinal with
    | sent => simp [point, loadPoint, swapPoint] at hpoint
    | dropped => exact ⟨Eq.symm hanswers, .inl rfl⟩
  | exchange_late waker hfinal | retract_late cx hfinal =>
    cases hfinal with
    | sent => simp [point, exchangePoint] at hpoint
    | dropped => exact ⟨Channel.answers_error hanswers, .inl rfl⟩
  | quit waker order => exact ⟨Eq.symm hanswers, .inr (.inl ⟨waker, rfl⟩)⟩
  | own_load y order hstate =>
    obtain hstate | ⟨hstate, hfull⟩ := hstate
    · simp [point, loadPoint, hstate] at hpoint
    · exact ⟨(Eq.symm hanswers).trans hstate, .inr (.inr ⟨y, rfl, hfull⟩)⟩
  | woken_again waker order hv =>
    obtain rfl | rfl := hv <;> simp [point, loadPoint] at hpoint
  | _ => simp [point, loadPoint, swapPoint, exchangePoint] at hpoint

/-- A destructor takes effect at its swap. -/
theorem dropped_of_point (hpoint : point c α = some .dropped) :
    ∃ order v, α = ⟨.swap DISCONNECTED order, v⟩ := by
  obtain ⟨a, v⟩ := α
  cases a with
  | swap val order =>
    by_cases hval : val = DISCONNECTED
    · subst hval
      exact ⟨order, v, rfl⟩
    · simp only [point, swapPoint, if_neg hval] at hpoint
      split_ifs at hpoint <;> cases hpoint
  | load order =>
    simp only [point, loadPoint] at hpoint
    split_ifs at hpoint <;> cases hpoint
  | compare_exchange current new success failure =>
    cases v <;> simp only [point, exchangePoint] at hpoint <;> split_ifs at hpoint <;> cases hpoint
  | _ => cases hpoint

theorem standing_role (rs : (Receiver.contract T).Session) :
    ∃ d, Receiver.standing rs = Receiver.Role.standing d rs.role := by
  cases rs with
  | between h r => exact ⟨false, rfl⟩
  | during c r g => exact ⟨_, rfl⟩

theorem departing_of_content {content : Content T} : content.standing d ≠ .departing := by
  cases content <;> cases d <;> simp [Content.standing]

/-- A receiver comes to depart only by a destructor. -/
theorem Role.Move.departing (hmove : r.Move α r') (hr' : r'.standing false = .departing) :
    r.standing false = .departing ∨ point c α = some .dropped := by
  cases hmove with
  | leaving_spin | quit | quit_fence | abandon => exact .inl rfl
  | depart => exact .inr (by simp [point, swapPoint])
  | look order hfinal | publish_late waker hfinal | exchange_late waker hfinal
  | expire_late current hfinal | woken waker order hfinal | poll_late cx order hfinal
  | retract_late cx hfinal | caught waker order hfinal | expired waker order hfinal
  | close hfinal | depart_late waker hfinal => exact (departing_of_content hr').elim
  | own_load | own_store | own_swap | own_fence | own_clock | own_drop_waker | release =>
    exact (departing_of_content hr').elim
  | _ => cases hr'

theorem Role.Move.apart (hmove : r.Move α r') (hr' : r'.apart = true) :
    r.apart = true ∧ point c α ≠ some .dropped := by
  constructor
  · cases hmove <;> first | rfl | cases hr'
  · intro hpoint
    obtain ⟨order, v, rfl⟩ := dropped_of_point hpoint
    cases hmove <;> cases hr'

theorem Progress.dropping_none {g : Progress T} (hg : g.settled = none) : g.dropping = false := by
  simp [Progress.dropping, hg]

theorem Progress.dropping_iff {g : Progress T} :
    g.dropping = true ↔ g.settled = some .dropped := by
  unfold Progress.dropping
  split
  case h_1 h => simp [h]
  case h_2 h => simpa using h

theorem placed_call {h : Handle} (haccepts : (receiver T).accepts h c = true) (hready : Ready h r) :
    Placed (.during c r (⟨none, none⟩ : Progress T)) := by
  refine ⟨fun hr => ?_, fun hd => by cases hd⟩
  cases r with
  | leaving | quitting => cases h <;> exact hready.elim
  | abandoned waker => cases h <;> first | exact hready.elim | (cases c <;> cases haccepts)
  | own x => exact (departing_of_content hr).elim
  | released content seen => exact (departing_of_content hr).elim
  | _ => cases hr

theorem placed_act {g g' : Progress T} (hmove : r.Move α r')
    (htrack : Progress.advance c g α = some g') (hplaced : Placed (.during c r g)) :
    Placed (.during c r' g') := by
  obtain ⟨hdeparting, hapart⟩ := hplaced
  obtain ⟨hpoint, hsame⟩ | ⟨o, hpoint, _, hbefore, hafter⟩ := Progress.advance_settled htrack
  · have hd : g'.dropping = g.dropping := by simp [Progress.dropping, hsame]
    refine ⟨fun hr' => ?_, fun hd' => ?_⟩
    · obtain hr | hdropped := hmove.departing (c := c) hr'
      · exact hd.trans (hdeparting hr)
      · simp [hpoint] at hdropped
    · by_contra hr'
      have hr := (hmove.apart (c := c) (by simpa using hr')).1
      simp [hapart (hd ▸ hd')] at hr
  · have hd : g.dropping = false := Progress.dropping_none hbefore
    refine ⟨fun hr' => ?_, fun hd' => ?_⟩
    · obtain hr | hdropped := hmove.departing (c := c) hr'
      · simp [hdeparting hr] at hd
      · rw [Progress.dropping_iff, hafter, ← hpoint, hdropped]
    · by_contra hr'
      have hne := (hmove.apart (c := c) (by simpa using hr')).2
      rw [Progress.dropping_iff, hafter, ← hpoint] at hd'
      exact hne hd'

/-- The operation of a call that comes to an outcome. -/
def Outcome.op (c : Call) : Outcome T → Oneshot.Op T
  | .dropped => .drop_receiver
  | _ => .receive c

theorem Call.op_of_allows {o : Outcome T} (hallows : c.allows o = true) : c.op = some (o.op c) := by
  cases c <;> cases o <;> first | rfl | cases hallows

theorem Call.blocks_of_allows (hallows : c.allows (.open : Outcome T) = true) :
    c.blocks = false := by
  cases c <;> first | rfl | cases hallows

end Receiver

end oneshot
