import Oneshot.Protocol.Contracts
import Oneshot.System

open conc

namespace oneshot

variable {T : Type}

namespace Sender.Role

/-- The sender has not announced itself: the state is the receiver's. -/
def Before (state : UInt8) (waker : Option ReceiverWaker) : Role T → Channel T → Prop
  | .fresh, x => x = ⟨state, none, waker⟩
  | .wrote message, x => x = ⟨state, some message, waker⟩
  | _, _ => False

/-- The sender has the waker cell to itself, up to its final write. -/
def Window (state : UInt8) (waker : ReceiverWaker) : Role T → Channel T → Prop
  | .unparking message, x => x = ⟨state, message, some waker⟩
  | .taken message waker', x => waker' = waker ∧ x = ⟨state, message, none⟩
  | _, _ => False

/-- The sender found our waker, and has written its final state. -/
def Notified (waker : ReceiverWaker) : Role T → Channel T → Prop
  | .notify message waker', x => waker' = waker ∧ x = ⟨final message, message, none⟩
  | .finished message, x => x = ⟨final message, message, none⟩
  | _, _ => False

/-- The sender wrote its final state without a look at the waker cell. -/
def Finished (waker : Option ReceiverWaker) : Role T → Channel T → Prop
  | .finished message, x => x = ⟨final message, message, waker⟩
  | _, _ => False

/-- The outcome the sender has published. -/
def published : Role T → Option (Option T)
  | .notify message _ | .finished message => some message
  | _ => none

/-- The receiver was dropped first. -/
def Failed : Role T → Channel T → Prop
  | .failed message, x => x = ⟨EMPTY, some message, none⟩
  | .last content, x | .freed content, x => content.isFull = false ∧ x = ⟨EMPTY, none, none⟩
  | _, _ => False

end Sender.Role

/-- What a side knows about the message, beside what was sent and what is in the
    cell. -/
def Content.Matches : Content T → Option T → Option T → Prop
  | .absent, sent, cell => sent = none ∧ cell = none
  | .full, sent, cell => sent.isSome ∧ cell = sent
  | .taken message, sent, cell => sent = some message ∧ cell = none
  | .dropped, sent, cell => sent.isSome ∧ cell = none

namespace Receiver

/-- The two sides agree: what the receiver knows is how far the sender has come,
    and together they determine the channel. -/
def Role.Agree : Role T → Sender.Role T → Channel T → Prop
  | .idle, s, x => s.Before EMPTY none x ∨ s.Finished none x
  | .armed waker, s, x => s.Before EMPTY (some waker) x ∨ s.Finished (some waker) x
  | .waiting waker, s, x | .woken waker, s, x =>
    s.Before RECEIVING (some waker) x ∨ s.Window UNPARKING waker x ∨ s.Notified waker x
  | .caught waker, s, x => s.Window UNPARKING waker x ∨ s.Notified waker x
  | .expired waker, s, x | .expired_woken waker, s, x =>
    s.Window EMPTY waker x ∨ s.Notified waker x
  | .leaving waker, s, x | .quitting waker, s, x | .abandoned waker, s, x =>
    s.Window DISCONNECTED waker x ∨ s.Notified waker x
  | .own y, s, x => x.state = y.state ∧ x.waker = y.waker ∧
      ∃ sent, s.published = some sent ∧ y.message.Matches sent x.message
  | .left, s, x => s.Before DISCONNECTED none x ∨ s.Failed x
  | .released content _, s, x => x.waker = none ∧ content.isFull = false ∧
      ∃ sent, s.published = some sent ∧ content.Matches sent x.message

end Receiver

/-- A full cell holds what was sent. -/
theorem Content.Matches.full {content : Content T} {sent cell : Option T}
    (hmatches : content.Matches sent cell) (hfull : content.isFull = true) :
    ∃ message, sent = some message ∧ cell = some message := by
  cases content with
  | full =>
    obtain ⟨message, rfl⟩ := Option.isSome_iff_exists.mp hmatches.1
    exact ⟨message, rfl, hmatches.2⟩
  | _ => cases hfull

namespace Sender.Role

variable {s : Role T} {x : Channel T} {b b' : UInt8} {w : ReceiverWaker}
  {wk wk' : Option ReceiverWaker}

theorem Before.set_state (hs : s.Before b wk x) : s.Before b' wk { x with state := b' } := by
  cases s <;> simp_all [Before]

theorem Before.set_waker (hs : s.Before b wk x) : s.Before b wk' { x with waker := wk' } := by
  cases s <;> simp_all [Before]

theorem Before.holds (hs : s.Before b wk x) : x.state = b ∧ x.waker = wk := by
  cases s <;> simp_all [Before]

theorem Window.set_state (hs : s.Window b w x) : s.Window b' w { x with state := b' } := by
  cases s <;> simp_all [Window]

theorem Window.holds (hs : s.Window b w x) : x.state = b := by
  cases s <;> simp_all [Window]

theorem Notified.published (hs : s.Notified w x) :
    ∃ o, s.published = some o ∧ x = ⟨final o, o, none⟩ := by
  cases s <;> simp_all [Notified, Role.published]

theorem Finished.published (hs : s.Finished wk x) :
    ∃ o, s.published = some o ∧ x = ⟨final o, o, wk⟩ := by
  cases s <;> simp_all [Finished, Role.published]

theorem Finished.set_waker (hs : s.Finished wk x) : s.Finished wk' { x with waker := wk' } := by
  cases s <;> simp_all [Finished]

end Sender.Role

section

attribute [local simp] Receiver.Role.Agree Sender.Role.Before Sender.Role.Window
  Sender.Role.Notified Sender.Role.Finished Sender.Role.published Sender.Role.Failed Sender.Role.on
  Sender.announces Channel.Answers Channel.update or_imp

/-- The sender frees the channel only after the receiver has left it. -/
theorem Receiver.Role.Agree.of_freed {r : Receiver.Role T} {x : Channel T}
    {content : Content T} (hagree : r.Agree (.freed content) x) : r = .left := by
  cases r <;> simp_all

/-- Once the sender has written its final state, a receiver that has not seen it
    still finds it. -/
theorem Receiver.Role.Agree.final {r : Receiver.Role T} {s : Sender.Role T} {x : Channel T}
    {o : Option T} (hagree : r.Agree s x) (hr : r.apart = true) (hs : s.published = some o) :
    x.state = Sender.final o := by
  cases r <;> cases s <;> simp_all [Role.apart]

/-- After a failed send the message is still in its cell. -/
theorem Receiver.Role.Agree.of_failed {r : Receiver.Role T} {x : Channel T} {message : T}
    (hagree : r.Agree (.failed message) x) : x.message = some message := by
  cases r <;> simp_all

/-- The answer to an access that the sender's role has is one its protocol
    allows, and the two sides still agree after it. -/
theorem Sender.sound {s : Sender.Role T} {r : Receiver.Role T} {x : Channel T} {a : Access T}
    {v : a.Resp} {f : a.Resp → Role T → Prop} (hagree : r.Agree s x) (hon : s.on a = some f)
    (hanswers : x.Answers a v) : ∃ s', f v s' ∧ r.Agree s' (x.update a) := by
  obtain ⟨state, message, waker⟩ := x
  cases s with
  | fresh =>
    cases a <;> simp at hon
    case write_message m =>
      subst hon
      cases r <;> simp_all
    case load =>
      subst hon
      cases r <;> simp_all
    case fetch_xor val order =>
      obtain ⟨⟨rfl, rfl⟩, rfl⟩ := hon
      cases r <;> simp_all
  | wrote message =>
    cases a <;> simp at hon
    case fetch_add val order =>
      obtain ⟨⟨rfl, rfl⟩, rfl⟩ := hon
      cases r <;> simp_all
  | unparking message =>
    cases a <;> simp at hon
    case take_waker =>
      subst hon
      cases r <;> simp_all
  | taken message w =>
    cases a <;> simp at hon
    case swap val order =>
      obtain ⟨⟨rfl, rfl⟩, rfl⟩ := hon
      cases r <;> simp_all
  | notify message w =>
    cases a <;> simp at hon
    case unpark thread =>
      obtain ⟨rfl, rfl⟩ := hon
      cases r <;> simp_all
    case wake thread =>
      obtain ⟨rfl, rfl⟩ := hon
      cases r <;> simp_all
  | finished message => cases a <;> simp at hon
  | failed message =>
    cases a <;> simp at hon
    case take_message =>
      subst hon
      cases r <;> simp_all
    case drop_message =>
      subst hon
      cases r <;> simp_all
  | last content =>
    cases a <;> simp at hon
    case dealloc =>
      subst hon
      cases r <;> simp_all
  | freed content => cases a <;> simp at hon

/-- The sender empties only cells that hold a value. -/
theorem Sender.provides {s : Sender.Role T} {r : Receiver.Role T} {x : Channel T} {a : Access T}
    {f : a.Resp → Role T → Prop} (hagree : r.Agree s x) (hon : s.on a = some f) : x.Provides a := by
  cases a with
  | take_message | drop_message =>
    cases s with
    | failed message =>
      rw [Channel.Provides, hagree.of_failed]
      rfl
    | _ => cases hon
  | take_waker =>
    cases s with
    | unparking message => cases r <;> simp_all [Channel.Provides]
    | _ => cases hon
  | drop_waker => cases s <;> cases hon
  | _ => trivial

end

namespace Receiver

variable {s : Sender.Role T} {x : Channel T} {a : Access T} {v : a.Resp}
  {f : a.Resp → Role T → Prop}

/-- A receiver that reads the final state of the sender comes to own the
    channel. -/
theorem final_sound {o : Option T} (hpublished : s.published = some o) (b : UInt8)
    (waker : Option ReceiverWaker) (seen : Seen) (intact : Bool) :
    ∃ r', final (Sender.final o) (fun content => ⟨b, content, waker, seen, intact⟩) r' ∧
      r'.Agree s ⟨b, o, waker⟩ := by
  cases o with
  | none => exact ⟨_, .inr ⟨rfl, rfl⟩, rfl, rfl, _, hpublished, rfl, rfl⟩
  | some message => exact ⟨_, .inl ⟨rfl, rfl⟩, rfl, rfl, _, hpublished, rfl, rfl⟩

theorem idle_sound (hagree : Role.Agree .idle s x) (hon : idleOn a = some f)
    (hanswers : x.Answers a v) : ∃ r', f v r' ∧ r'.Agree s (x.update a) := by
  cases a with
  | load order =>
    cases hon; cases hanswers
    obtain hs | hs := hagree
    · exact ⟨_, .inl ⟨hs.holds.1, rfl⟩, .inl hs⟩
    · obtain ⟨o, ho, rfl⟩ := hs.published
      obtain ⟨r', hfinal, h⟩ := final_sound ho _ _ _ _
      exact ⟨r', .inr hfinal, h⟩
  | now =>
    cases hon
    exact ⟨_, rfl, hagree⟩
  | clone_waker waker =>
    cases hon
    exact ⟨_, ⟨hanswers, rfl⟩, hagree⟩
  | write_waker waker =>
    cases hon
    exact ⟨_, rfl, hagree.imp (·.set_waker) (·.set_waker)⟩
  | swap val order =>
    obtain ⟨⟨rfl, rfl⟩, ⟨⟩⟩ := Option.ite_none_right_eq_some.mp hon
    cases hanswers
    obtain hs | hs := hagree
    · exact ⟨_, .inl ⟨hs.holds.1, rfl⟩, .inl hs.set_state⟩
    · obtain ⟨o, ho, rfl⟩ := hs.published
      obtain ⟨r', hfinal, h⟩ := final_sound ho _ _ _ _
      exact ⟨r', .inr hfinal, h⟩
  | _ => cases hon

theorem armed_sound {waker : ReceiverWaker} (hagree : Role.Agree (.armed waker) s x)
    (hon : armedOn waker a = some f) (hanswers : x.Answers a v) :
    ∃ r', f v r' ∧ r'.Agree s (x.update a) := by
  cases a with
  | swap val order =>
    obtain ⟨⟨rfl, rfl⟩, ⟨⟩⟩ := Option.ite_none_right_eq_some.mp hon
    cases hanswers
    obtain hs | hs := hagree
    · exact ⟨_, .inl ⟨hs.holds.1, rfl⟩, .inl hs.set_state⟩
    · obtain ⟨o, ho, rfl⟩ := hs.published
      obtain ⟨r', hfinal, h⟩ := final_sound ho _ _ _ _
      exact ⟨r', .inr hfinal, h⟩
  | compare_exchange current new success failure =>
    obtain ⟨⟨rfl, rfl, rfl, rfl⟩, ⟨⟩⟩ := Option.ite_none_right_eq_some.mp hon
    obtain hs | hs := hagree
    · have hstate : x.state = EMPTY := hs.holds.1
      refine ⟨.waiting waker, .inl ⟨by simpa [Channel.Answers, hstate] using hanswers, rfl⟩, .inl ?_⟩
      simpa [Channel.update, hstate] using hs.set_state
    · obtain ⟨o, ho, rfl⟩ := hs.published
      obtain ⟨r', hfinal, h⟩ := final_sound ho _ _ _ _
      have hne : Sender.final o ≠ EMPTY := by cases o <;> simp
      refine ⟨r', .inr ⟨_, by simpa [Channel.Answers, hne] using hanswers, hfinal⟩, ?_⟩
      simpa [Channel.update, hne] using h
  | drop_waker =>
    cases hon
    exact ⟨_, rfl, hagree.imp (·.set_waker) (·.set_waker)⟩
  | _ => cases hon

theorem waiting_sound {waker : ReceiverWaker} (hagree : Role.Agree (.waiting waker) s x)
    (hon : waitingOn waker a = some f) (hanswers : x.Answers a v) :
    ∃ r', f v r' ∧ r'.Agree s (x.update a) := by
  cases waker with
  | Thread current =>
    cases a with
    | now =>
      cases hon
      exact ⟨_, rfl, hagree⟩
    | park thread | park_timeout thread timeout =>
      obtain ⟨rfl, ⟨⟩⟩ := Option.ite_none_right_eq_some.mp hon
      exact ⟨_, rfl, hagree⟩
    | swap val order =>
      obtain ⟨⟨rfl, rfl⟩, ⟨⟩⟩ := Option.ite_none_right_eq_some.mp hon
      cases hanswers
      obtain hs | hs | hs := hagree
      · exact ⟨_, .inl ⟨hs.holds.1, rfl⟩, .inl hs.set_state⟩
      · exact ⟨_, .inr (.inl ⟨hs.holds, rfl⟩), .inl hs.set_state⟩
      · obtain ⟨o, ho, rfl⟩ := hs.published
        obtain ⟨r', hfinal, h⟩ := final_sound ho _ _ _ _
        exact ⟨r', .inr (.inr hfinal), h⟩
    | _ => cases hon
  | Task cx =>
    cases a with
    | load order =>
      cases hon; cases hanswers
      obtain hs | hs | hs := hagree
      · exact ⟨_, .inl ⟨hs.holds.1, rfl⟩, .inl hs⟩
      · exact ⟨_, .inr (.inl ⟨hs.holds, rfl⟩), .inl hs⟩
      · obtain ⟨o, ho, rfl⟩ := hs.published
        obtain ⟨r', hfinal, h⟩ := final_sound ho _ _ _ _
        exact ⟨r', .inr (.inr hfinal), h⟩
    | compare_exchange current new success failure =>
      obtain ⟨⟨rfl, rfl, rfl, rfl⟩, ⟨⟩⟩ := Option.ite_none_right_eq_some.mp hon
      obtain hs | hs | hs := hagree
      · have hstate : x.state = RECEIVING := hs.holds.1
        refine ⟨_, .inl ⟨by simpa [Channel.Answers, hstate] using hanswers, rfl⟩, .inl ?_⟩
        simpa [Channel.update, hstate] using hs.set_state
      · have hstate : x.state = UNPARKING := hs.holds
        refine ⟨_, .inr (.inl ⟨by simpa [Channel.Answers, hstate] using hanswers, rfl⟩), .inl ?_⟩
        simpa [Channel.update, hstate] using hs
      · obtain ⟨o, ho, rfl⟩ := hs.published
        obtain ⟨r', hfinal, h⟩ := final_sound ho _ _ _ _
        have hne : Sender.final o ≠ RECEIVING := by cases o <;> simp
        refine ⟨r', .inr (.inr ⟨_, by simpa [Channel.Answers, hne] using hanswers, hfinal⟩), ?_⟩
        simpa [Channel.update, hne] using h
    | _ => cases hon

theorem woken_sound {waker : ReceiverWaker} (hagree : Role.Agree (.woken waker) s x)
    (hon : wokenOn waker a = some f) (hanswers : x.Answers a v) :
    ∃ r', f v r' ∧ r'.Agree s (x.update a) := by
  cases a with
  | load order =>
    cases hon; cases hanswers
    obtain hs | hs | hs := hagree
    · exact ⟨_, .inl ⟨.inl hs.holds.1, rfl⟩, .inl hs⟩
    · exact ⟨_, .inl ⟨.inr hs.holds, rfl⟩, .inr (.inl hs)⟩
    · obtain ⟨o, ho, rfl⟩ := hs.published
      obtain ⟨r', hfinal, h⟩ := final_sound ho _ _ _ _
      exact ⟨r', .inr hfinal, h⟩
  | _ => cases hon

theorem caught_sound {waker : ReceiverWaker} (hagree : Role.Agree (.caught waker) s x)
    (hon : caughtOn waker a = some f) (hanswers : x.Answers a v) :
    ∃ r', f v r' ∧ r'.Agree s (x.update a) := by
  cases a with
  | load order =>
    cases hon; cases hanswers
    obtain hs | hs := hagree
    · exact ⟨_, .inl ⟨hs.holds, rfl⟩, .inl hs⟩
    · obtain ⟨o, ho, rfl⟩ := hs.published
      obtain ⟨r', hfinal, h⟩ := final_sound ho _ _ _ _
      exact ⟨r', .inr hfinal, h⟩
  | spin_loop | wake_by_ref waker =>
    cases hon
    exact ⟨_, rfl, hagree⟩
  | swap val order =>
    obtain ⟨⟨rfl, rfl⟩, ⟨⟩⟩ := Option.ite_none_right_eq_some.mp hon
    cases hanswers
    obtain hs | hs := hagree
    · exact ⟨_, .inl ⟨hs.holds, rfl⟩, .inl hs.set_state⟩
    · obtain ⟨o, ho, rfl⟩ := hs.published
      obtain ⟨r', hfinal, h⟩ := final_sound ho _ _ _ _
      exact ⟨r', .inr hfinal, h⟩
  | _ => cases hon

theorem expired_sound {waker : ReceiverWaker} (hagree : Role.Agree (.expired waker) s x)
    (hon : expiredOn waker a = some f) (hanswers : x.Answers a v) :
    ∃ r', f v r' ∧ r'.Agree s (x.update a) := by
  cases a with
  | park thread =>
    obtain ⟨rfl, ⟨⟩⟩ := Option.ite_none_right_eq_some.mp hon
    exact ⟨_, rfl, hagree⟩
  | _ => cases hon

theorem expired_woken_sound {waker : ReceiverWaker} (hagree : Role.Agree (.expired_woken waker) s x)
    (hon : expiredWokenOn waker a = some f) (hanswers : x.Answers a v) :
    ∃ r', f v r' ∧ r'.Agree s (x.update a) := by
  cases a with
  | load order =>
    cases hon; cases hanswers
    obtain hs | hs := hagree
    · exact ⟨_, .inl ⟨hs.holds, rfl⟩, .inl hs⟩
    · obtain ⟨o, ho, rfl⟩ := hs.published
      obtain ⟨r', hfinal, h⟩ := final_sound ho _ _ _ _
      exact ⟨r', .inr hfinal, h⟩
  | _ => cases hon

theorem leaving_sound {waker : ReceiverWaker} (hagree : Role.Agree (.leaving waker) s x)
    (hon : leavingOn waker a = some f) (hanswers : x.Answers a v) :
    ∃ r', f v r' ∧ r'.Agree s (x.update a) := by
  cases a with
  | spin_loop =>
    cases hon
    exact ⟨_, rfl, hagree⟩
  | load order =>
    cases hon; cases hanswers
    obtain hs | hs := hagree
    · exact ⟨_, .inl ⟨hs.holds, rfl⟩, .inl hs⟩
    · obtain ⟨o, ho, rfl⟩ := hs.published
      cases o with
      | none => exact ⟨_, .inl ⟨rfl, rfl⟩, .inr hs⟩
      | some message => exact ⟨_, .inr ⟨rfl, rfl⟩, rfl, rfl, _, ho, rfl, rfl⟩
  | _ => cases hon

theorem quitting_sound {waker : ReceiverWaker} (hagree : Role.Agree (.quitting waker) s x)
    (hon : quittingOn waker a = some f) (hanswers : x.Answers a v) :
    ∃ r', f v r' ∧ r'.Agree s (x.update a) := by
  cases a with
  | fence order | dealloc =>
    cases hon
    exact ⟨_, rfl, hagree⟩
  | _ => cases hon

theorem own_sound {y : Owned T} (hagree : Role.Agree (.own y) s x) (hon : y.on a = some f)
    (hanswers : x.Answers a v) : ∃ r', f v r' ∧ r'.Agree s (x.update a) := by
  obtain ⟨hstate, hwaker, sent, hsent, hmatches⟩ := hagree
  cases a with
  | load order =>
    obtain ⟨hstate', ⟨⟩⟩ := Option.ite_none_right_eq_some.mp hon
    exact ⟨_, ⟨hanswers.trans hstate, rfl⟩, hstate, hwaker, sent, hsent, hmatches⟩
  | store val order =>
    obtain ⟨_, ⟨⟩⟩ := Option.ite_none_right_eq_some.mp hon
    exact ⟨_, rfl, rfl, hwaker, sent, hsent, hmatches⟩
  | swap val order =>
    obtain ⟨⟨rfl, rfl⟩, ⟨⟩⟩ := Option.ite_none_right_eq_some.mp hon
    exact ⟨_, ⟨hanswers.trans hstate, rfl⟩, rfl, hwaker, sent, hsent, hmatches⟩
  | fence order =>
    obtain ⟨rfl, ⟨⟩⟩ := Option.ite_none_right_eq_some.mp hon
    exact ⟨_, rfl, hstate, hwaker, sent, hsent, hmatches⟩
  | now =>
    cases hon
    exact ⟨_, rfl, hstate, hwaker, sent, hsent, hmatches⟩
  | take_message =>
    obtain ⟨⟨hfull, _⟩, ⟨⟩⟩ := Option.ite_none_right_eq_some.mp hon
    obtain ⟨message, rfl, hcell⟩ := hmatches.full hfull
    obtain rfl : message = v := Option.some.inj (hcell.symm.trans hanswers)
    exact ⟨_, rfl, hstate, hwaker, _, hsent, rfl, rfl⟩
  | drop_message =>
    obtain ⟨⟨hfull, _⟩, ⟨⟩⟩ := Option.ite_none_right_eq_some.mp hon
    obtain ⟨message, rfl, _⟩ := hmatches.full hfull
    exact ⟨_, rfl, hstate, hwaker, _, hsent, rfl, rfl⟩
  | drop_waker =>
    obtain ⟨_, ⟨⟩⟩ := Option.ite_none_right_eq_some.mp hon
    exact ⟨_, rfl, hstate, rfl, sent, hsent, hmatches⟩
  | dealloc =>
    obtain ⟨⟨hnone, hfull, _⟩, ⟨⟩⟩ := Option.ite_none_right_eq_some.mp hon
    exact ⟨_, rfl, hwaker.trans (Option.isNone_iff_eq_none.mp hnone), by simpa using hfull, sent,
      hsent, hmatches⟩
  | _ => cases hon

/-- The answer to an access that the receiver's role has is one its protocol
    allows, and the two sides still agree after it. -/
theorem sound {r : Role T} (hagree : r.Agree s x) (hon : r.on a = some f)
    (hanswers : x.Answers a v) : ∃ r', f v r' ∧ r'.Agree s (x.update a) := by
  cases r with
  | idle => exact idle_sound hagree hon hanswers
  | armed waker => exact armed_sound hagree hon hanswers
  | waiting waker => exact waiting_sound hagree hon hanswers
  | woken waker => exact woken_sound hagree hon hanswers
  | caught waker => exact caught_sound hagree hon hanswers
  | expired waker => exact expired_sound hagree hon hanswers
  | expired_woken waker => exact expired_woken_sound hagree hon hanswers
  | leaving waker => exact leaving_sound hagree hon hanswers
  | quitting waker => exact quitting_sound hagree hon hanswers
  | own y => exact own_sound hagree hon hanswers
  | abandoned waker | left | released content seen => cases hon

end Receiver

end oneshot
