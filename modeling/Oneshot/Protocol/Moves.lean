import Oneshot.Protocol.Roles

open conc

namespace oneshot

variable {T : Type}

/-- Every step of the sender's role. -/
inductive Sender.Role.Move : Role T → (interface T).Action → Role T → Prop where
  | look (order : MemOrder) (v : UInt8) : Move .fresh ⟨.load order, v⟩ .fresh
  | write (message : T) : Move .fresh ⟨.write_message message, ()⟩ (.wrote message)
  | send (message : T) : Move (.wrote message) ⟨.fetch_add 1 .AcqRel, EMPTY⟩ (.finished (some message))
  | send_receiving (message : T) :
      Move (.wrote message) ⟨.fetch_add 1 .AcqRel, RECEIVING⟩ (.unparking (some message))
  | send_disconnected (message : T) :
      Move (.wrote message) ⟨.fetch_add 1 .AcqRel, DISCONNECTED⟩ (.failed message)
  | drop : Move .fresh ⟨.fetch_xor 1 .AcqRel, EMPTY⟩ (.finished none)
  | drop_receiving : Move .fresh ⟨.fetch_xor 1 .AcqRel, RECEIVING⟩ (.unparking none)
  | drop_disconnected : Move .fresh ⟨.fetch_xor 1 .AcqRel, DISCONNECTED⟩ (.last .absent)
  | take_waker (message : Option T) (waker : ReceiverWaker) :
      Move (.unparking message) ⟨.take_waker, waker⟩ (.taken message waker)
  | finish (message : Option T) (waker : ReceiverWaker) (v : UInt8) :
      Move (.taken message waker) ⟨.swap (final message) .AcqRel, v⟩ (.notify message waker)
  | unpark (message : Option T) (thread : Thread) :
      Move (.notify message (.Thread thread)) ⟨.unpark thread, ()⟩ (.finished message)
  | wake (message : Option T) (task : Waker) :
      Move (.notify message (.Task task)) ⟨.wake task, ()⟩ (.finished message)
  | take_back (message : T) : Move (.failed message) ⟨.take_message, message⟩ (.last (.taken message))
  | discard (message : T) : Move (.failed message) ⟨.drop_message, ()⟩ (.last .dropped)
  | free (content : Content T) : Move (.last content) ⟨.dealloc, ()⟩ (.freed content)

theorem Sender.Role.move_of_on {s s' : Role T} {a : Access T} {v : a.Resp}
    {f : a.Resp → Role T → Prop} (hon : s.on a = some f) (hmove : f v s') :
    s.Move ⟨a, v⟩ s' := by
  cases s with
  | fresh =>
    cases a with
    | load order =>
      cases hon; cases hmove
      exact .look order v
    | write_message message =>
      cases hon; cases hmove
      exact .write message
    | fetch_xor val order =>
      obtain ⟨⟨rfl, rfl⟩, ⟨⟩⟩ := Option.ite_none_right_eq_some.mp hon
      obtain ⟨rfl, rfl⟩ | ⟨rfl, rfl⟩ | ⟨rfl, rfl⟩ := hmove
      · exact .drop
      · exact .drop_receiving
      · exact .drop_disconnected
    | _ => cases hon
  | wrote message =>
    cases a with
    | fetch_add val order =>
      obtain ⟨⟨rfl, rfl⟩, ⟨⟩⟩ := Option.ite_none_right_eq_some.mp hon
      obtain ⟨rfl, rfl⟩ | ⟨rfl, rfl⟩ | ⟨rfl, rfl⟩ := hmove
      · exact .send message
      · exact .send_receiving message
      · exact .send_disconnected message
    | _ => cases hon
  | unparking message =>
    cases a with
    | take_waker =>
      cases hon; cases hmove
      exact .take_waker message v
    | _ => cases hon
  | taken message waker =>
    cases a with
    | swap val order =>
      obtain ⟨⟨rfl, rfl⟩, ⟨⟩⟩ := Option.ite_none_right_eq_some.mp hon
      cases hmove
      exact .finish message waker v
    | _ => cases hon
  | notify message waker =>
    cases a with
    | unpark thread =>
      obtain ⟨rfl, ⟨⟩⟩ := Option.ite_none_right_eq_some.mp hon
      cases hmove
      exact .unpark message thread
    | wake task =>
      obtain ⟨rfl, ⟨⟩⟩ := Option.ite_none_right_eq_some.mp hon
      cases hmove
      exact .wake message task
    | _ => cases hon
  | failed message =>
    cases a with
    | take_message =>
      cases hon
      obtain ⟨rfl, rfl⟩ := hmove
      exact .take_back _
    | drop_message =>
      cases hon; cases hmove
      exact .discard message
    | _ => cases hon
  | last content =>
    cases a with
    | dealloc =>
      cases hon; cases hmove
      exact .free content
    | _ => cases hon
  | finished message | freed content => cases a <;> cases hon

namespace Receiver

/-- What a final state of the sender tells about the message. -/
inductive Final : UInt8 → Content T → Prop where
  | sent : Final MESSAGE .full
  | dropped : Final DISCONNECTED .absent

theorem final_cases {v : UInt8} {own : Content T → Owned T} {r' : Role T}
    (hfinal : final v own r') : ∃ content, Final v content ∧ r' = .own (own content) := by
  obtain ⟨rfl, rfl⟩ | ⟨rfl, rfl⟩ := hfinal
  · exact ⟨_, .sent, rfl⟩
  · exact ⟨_, .dropped, rfl⟩

/-- Every step of the receiver's role. -/
inductive Role.Move : Role T → (interface T).Action → Role T → Prop where
  -- No waker is stored.
  | look_empty (order : MemOrder) : Move .idle ⟨.load order, EMPTY⟩ .idle
  | look (order : MemOrder) {v : UInt8} {content : Content T} (hfinal : Final v content) :
      Move .idle ⟨.load order, v⟩ (.own ⟨v, content, none, sees order, true⟩)
  | clock (now : Instant) : Move .idle ⟨.now, now⟩ .idle
  | clone (waker : Waker) : Move .idle ⟨.clone_waker waker, waker⟩ .idle
  | store_waker (waker : ReceiverWaker) : Move .idle ⟨.write_waker waker, ()⟩ (.armed waker)
  | leave : Move .idle ⟨.swap DISCONNECTED .AcqRel, EMPTY⟩ .left
  | close {v : UInt8} {content : Content T} (hfinal : Final v content) :
      Move .idle ⟨.swap DISCONNECTED .AcqRel, v⟩ (.own ⟨DISCONNECTED, content, none, .final, true⟩)
  -- The waker is stored, and published or dropped again.
  | publish (waker : ReceiverWaker) :
      Move (.armed waker) ⟨.swap RECEIVING .Release, EMPTY⟩ (.waiting waker)
  | publish_late (waker : ReceiverWaker) {v : UInt8} {content : Content T}
      (hfinal : Final v content) :
      Move (.armed waker) ⟨.swap RECEIVING .Release, v⟩
        (.own ⟨RECEIVING, content, some waker, .relaxed, true⟩)
  | exchange (waker : ReceiverWaker) :
      Move (.armed waker) ⟨.compare_exchange EMPTY RECEIVING .Release .Relaxed, .ok EMPTY⟩
        (.waiting waker)
  | exchange_late (waker : ReceiverWaker) {v : UInt8} {content : Content T}
      (hfinal : Final v content) :
      Move (.armed waker) ⟨.compare_exchange EMPTY RECEIVING .Release .Relaxed, .error v⟩
        (.own ⟨v, content, some waker, .relaxed, true⟩)
  | disarm (waker : ReceiverWaker) : Move (.armed waker) ⟨.drop_waker, ()⟩ .idle
  -- A thread waits.
  | clock_waiting (current : Thread) (now : Instant) :
      Move (.waiting (.Thread current)) ⟨.now, now⟩ (.waiting (.Thread current))
  | park (current : Thread) (v : Wakeup) :
      Move (.waiting (.Thread current)) ⟨.park current, v⟩ (.woken (.Thread current))
  | park_timeout (current : Thread) (timeout : Duration) (v : Wakeup) :
      Move (.waiting (.Thread current)) ⟨.park_timeout current timeout, v⟩ (.woken (.Thread current))
  | expire (current : Thread) :
      Move (.waiting (.Thread current)) ⟨.swap EMPTY .Acquire, RECEIVING⟩ (.armed (.Thread current))
  | expire_unparking (current : Thread) :
      Move (.waiting (.Thread current)) ⟨.swap EMPTY .Acquire, UNPARKING⟩
        (.expired (.Thread current))
  | expire_late (current : Thread) {v : UInt8} {content : Content T} (hfinal : Final v content) :
      Move (.waiting (.Thread current)) ⟨.swap EMPTY .Acquire, v⟩
        (.own ⟨EMPTY, content, none, .final, true⟩)
  | woken_again (waker : ReceiverWaker) (order : MemOrder) {v : UInt8}
      (hv : v = RECEIVING ∨ v = UNPARKING) :
      Move (.woken waker) ⟨.load order, v⟩ (.waiting waker)
  | woken (waker : ReceiverWaker) (order : MemOrder) {v : UInt8} {content : Content T}
      (hfinal : Final v content) :
      Move (.woken waker) ⟨.load order, v⟩ (.own ⟨v, content, none, sees order, true⟩)
  -- A task waits.
  | poll_receiving (cx : Waker) (order : MemOrder) :
      Move (.waiting (.Task cx)) ⟨.load order, RECEIVING⟩ (.waiting (.Task cx))
  | poll_unparking (cx : Waker) (order : MemOrder) :
      Move (.waiting (.Task cx)) ⟨.load order, UNPARKING⟩ (.caught (.Task cx))
  | poll_late (cx : Waker) (order : MemOrder) {v : UInt8} {content : Content T}
      (hfinal : Final v content) :
      Move (.waiting (.Task cx)) ⟨.load order, v⟩ (.own ⟨v, content, none, sees order, true⟩)
  | retract (cx : Waker) :
      Move (.waiting (.Task cx))
        ⟨.compare_exchange RECEIVING EMPTY .Relaxed .Relaxed, .ok RECEIVING⟩ (.armed (.Task cx))
  | retract_unparking (cx : Waker) :
      Move (.waiting (.Task cx))
        ⟨.compare_exchange RECEIVING EMPTY .Relaxed .Relaxed, .error UNPARKING⟩ (.caught (.Task cx))
  | retract_late (cx : Waker) {v : UInt8} {content : Content T} (hfinal : Final v content) :
      Move (.waiting (.Task cx)) ⟨.compare_exchange RECEIVING EMPTY .Relaxed .Relaxed, .error v⟩
        (.own ⟨v, content, none, .relaxed, true⟩)
  -- The sender holds the waker.
  | caught_again (waker : ReceiverWaker) (order : MemOrder) :
      Move (.caught waker) ⟨.load order, UNPARKING⟩ (.caught waker)
  | caught (waker : ReceiverWaker) (order : MemOrder) {v : UInt8} {content : Content T}
      (hfinal : Final v content) :
      Move (.caught waker) ⟨.load order, v⟩ (.own ⟨v, content, none, sees order, true⟩)
  | caught_spin (waker : ReceiverWaker) : Move (.caught waker) ⟨.spin_loop, ()⟩ (.caught waker)
  | wake_self (waker : ReceiverWaker) (cx : Waker) :
      Move (.caught waker) ⟨.wake_by_ref cx, ()⟩ (.caught waker)
  | depart (waker : ReceiverWaker) :
      Move (.caught waker) ⟨.swap DISCONNECTED .AcqRel, UNPARKING⟩ (.leaving waker)
  | depart_late (waker : ReceiverWaker) {v : UInt8} {content : Content T}
      (hfinal : Final v content) :
      Move (.caught waker) ⟨.swap DISCONNECTED .AcqRel, v⟩
        (.own ⟨DISCONNECTED, content, none, .final, true⟩)
  | expired_park (current : Thread) (v : Wakeup) :
      Move (.expired (.Thread current)) ⟨.park current, v⟩ (.expired_woken (.Thread current))
  | expired_again (waker : ReceiverWaker) (order : MemOrder) :
      Move (.expired_woken waker) ⟨.load order, EMPTY⟩ (.expired waker)
  | expired (waker : ReceiverWaker) (order : MemOrder) {v : UInt8} {content : Content T}
      (hfinal : Final v content) :
      Move (.expired_woken waker) ⟨.load order, v⟩ (.own ⟨v, content, none, .message, true⟩)
  | leaving_spin (waker : ReceiverWaker) : Move (.leaving waker) ⟨.spin_loop, ()⟩ (.leaving waker)
  | quit (waker : ReceiverWaker) (order : MemOrder) :
      Move (.leaving waker) ⟨.load order, DISCONNECTED⟩ (.quitting waker)
  | receive_late (waker : ReceiverWaker) (order : MemOrder) :
      Move (.leaving waker) ⟨.load order, MESSAGE⟩ (.own ⟨MESSAGE, .full, none, .message, true⟩)
  | quit_fence (waker : ReceiverWaker) (order : MemOrder) :
      Move (.quitting waker) ⟨.fence order, ()⟩ (.quitting waker)
  | abandon (waker : ReceiverWaker) : Move (.quitting waker) ⟨.dealloc, ()⟩ (.abandoned waker)
  -- The channel is the receiver's.
  | own_load (x : Owned T) (order : MemOrder)
      (hstate : x.state = MESSAGE ∨ x.state = DISCONNECTED ∧ x.message.isFull = false) :
      Move (.own x) ⟨.load order, x.state⟩ (.own (x.read order))
  | own_store (x : Owned T) (val : UInt8) (hstate : x.state ≠ DISCONNECTED)
      (hwaker : x.waker = none) :
      Move (.own x) ⟨.store val .Relaxed, ()⟩ (.own { x with state := val, intact := false })
  | own_swap (x : Owned T) :
      Move (.own x) ⟨.swap DISCONNECTED .AcqRel, x.state⟩
        (.own { x.read .AcqRel with state := DISCONNECTED })
  | own_fence (x : Owned T) : Move (.own x) ⟨.fence .Acquire, ()⟩ (.own { x with seen := .final })
  | own_clock (x : Owned T) (now : Instant) : Move (.own x) ⟨.now, now⟩ (.own x)
  | own_take (x : Owned T) (message : T) (hfull : x.message.isFull = true)
      (hseen : x.seen ≠ .relaxed) (hwaker : x.waker = none) :
      Move (.own x) ⟨.take_message, message⟩ (.own { x with message := .taken message })
  | own_drop (x : Owned T) (hfull : x.message.isFull = true) (hseen : x.seen ≠ .relaxed) :
      Move (.own x) ⟨.drop_message, ()⟩ (.own { x with message := .dropped })
  | own_drop_waker (x : Owned T) (hwaker : x.waker.isSome = true) :
      Move (.own x) ⟨.drop_waker, ()⟩ (.own { x with waker := none })
  | release (x : Owned T) (hwaker : x.waker = none) (hfull : x.message.isFull = false)
      (hseen : x.seen ≠ .relaxed) (hintact : x.intact = true → x.seen = .final) :
      Move (.own x) ⟨.dealloc, ()⟩ (.released x.message x.seen)

section

variable {a : Access T} {v : a.Resp} {f : a.Resp → Role T → Prop} {r r' : Role T}

theorem Role.idle_moves (hon : idleOn a = some f) (hmove : f v r') :
    Move .idle ⟨a, v⟩ r' := by
  cases a with
  | load order =>
    cases hon
    obtain ⟨rfl, rfl⟩ | hfinal := hmove
    · exact .look_empty order
    · obtain ⟨content, hv, rfl⟩ := final_cases hfinal
      exact .look order hv
  | now =>
    cases hon; cases hmove
    exact .clock v
  | clone_waker waker =>
    cases hon
    obtain ⟨hclone, rfl⟩ := hmove
    cases hclone
    exact .clone waker
  | write_waker waker =>
    cases hon; cases hmove
    exact .store_waker waker
  | swap val order =>
    obtain ⟨⟨rfl, rfl⟩, ⟨⟩⟩ := Option.ite_none_right_eq_some.mp hon
    obtain ⟨rfl, rfl⟩ | hfinal := hmove
    · exact .leave
    · obtain ⟨content, hv, rfl⟩ := final_cases hfinal
      exact .close hv
  | _ => cases hon

theorem Role.armed_moves {waker : ReceiverWaker} (hon : armedOn waker a = some f)
    (hmove : f v r') : Move (.armed waker) ⟨a, v⟩ r' := by
  cases a with
  | swap val order =>
    obtain ⟨⟨rfl, rfl⟩, ⟨⟩⟩ := Option.ite_none_right_eq_some.mp hon
    obtain ⟨rfl, rfl⟩ | hfinal := hmove
    · exact .publish waker
    · obtain ⟨content, hv, rfl⟩ := final_cases hfinal
      exact .publish_late waker hv
  | compare_exchange current new success failure =>
    obtain ⟨⟨rfl, rfl, rfl, rfl⟩, ⟨⟩⟩ := Option.ite_none_right_eq_some.mp hon
    obtain ⟨rfl, rfl⟩ | ⟨b, rfl, hfinal⟩ := hmove
    · exact .exchange waker
    · obtain ⟨content, hv, rfl⟩ := final_cases hfinal
      exact .exchange_late waker hv
  | drop_waker =>
    cases hon; cases hmove
    exact .disarm waker
  | _ => cases hon

theorem Role.thread_moves {current : Thread} (hon : waitingOn (.Thread current) a = some f)
    (hmove : f v r') : Move (.waiting (.Thread current)) ⟨a, v⟩ r' := by
  cases a with
  | now =>
    cases hon; cases hmove
    exact .clock_waiting current v
  | park thread =>
    obtain ⟨rfl, ⟨⟩⟩ := Option.ite_none_right_eq_some.mp hon
    cases hmove
    exact .park thread v
  | park_timeout thread timeout =>
    obtain ⟨rfl, ⟨⟩⟩ := Option.ite_none_right_eq_some.mp hon
    cases hmove
    exact .park_timeout thread timeout v
  | swap val order =>
    obtain ⟨⟨rfl, rfl⟩, ⟨⟩⟩ := Option.ite_none_right_eq_some.mp hon
    obtain ⟨rfl, rfl⟩ | ⟨rfl, rfl⟩ | hfinal := hmove
    · exact .expire current
    · exact .expire_unparking current
    · obtain ⟨content, hv, rfl⟩ := final_cases hfinal
      exact .expire_late current hv
  | _ => cases hon

theorem Role.task_moves {cx : Waker} (hon : waitingOn (.Task cx) a = some f)
    (hmove : f v r') : Move (.waiting (.Task cx)) ⟨a, v⟩ r' := by
  cases a with
  | load order =>
    cases hon
    obtain ⟨rfl, rfl⟩ | ⟨rfl, rfl⟩ | hfinal := hmove
    · exact .poll_receiving cx order
    · exact .poll_unparking cx order
    · obtain ⟨content, hv, rfl⟩ := final_cases hfinal
      exact .poll_late cx order hv
  | compare_exchange current new success failure =>
    obtain ⟨⟨rfl, rfl, rfl, rfl⟩, ⟨⟩⟩ := Option.ite_none_right_eq_some.mp hon
    obtain ⟨rfl, rfl⟩ | ⟨rfl, rfl⟩ | ⟨b, rfl, hfinal⟩ := hmove
    · exact .retract cx
    · exact .retract_unparking cx
    · obtain ⟨content, hv, rfl⟩ := final_cases hfinal
      exact .retract_late cx hv
  | _ => cases hon

theorem Role.woken_moves {waker : ReceiverWaker} (hon : wokenOn waker a = some f)
    (hmove : f v r') : Move (.woken waker) ⟨a, v⟩ r' := by
  cases a with
  | load order =>
    cases hon
    obtain ⟨hv, rfl⟩ | hfinal := hmove
    · exact .woken_again waker order hv
    · obtain ⟨content, hv, rfl⟩ := final_cases hfinal
      exact .woken waker order hv
  | _ => cases hon

theorem Role.caught_moves {waker : ReceiverWaker} (hon : caughtOn waker a = some f)
    (hmove : f v r') : Move (.caught waker) ⟨a, v⟩ r' := by
  cases a with
  | load order =>
    cases hon
    obtain ⟨rfl, rfl⟩ | hfinal := hmove
    · exact .caught_again waker order
    · obtain ⟨content, hv, rfl⟩ := final_cases hfinal
      exact .caught waker order hv
  | spin_loop =>
    cases hon; cases hmove
    exact .caught_spin waker
  | wake_by_ref cx =>
    cases hon; cases hmove
    exact .wake_self waker cx
  | swap val order =>
    obtain ⟨⟨rfl, rfl⟩, ⟨⟩⟩ := Option.ite_none_right_eq_some.mp hon
    obtain ⟨rfl, rfl⟩ | hfinal := hmove
    · exact .depart waker
    · obtain ⟨content, hv, rfl⟩ := final_cases hfinal
      exact .depart_late waker hv
  | _ => cases hon

theorem Role.expired_moves {waker : ReceiverWaker} (hon : expiredOn waker a = some f)
    (hmove : f v r') : Move (.expired waker) ⟨a, v⟩ r' := by
  cases a with
  | park thread =>
    obtain ⟨rfl, ⟨⟩⟩ := Option.ite_none_right_eq_some.mp hon
    cases hmove
    exact .expired_park thread v
  | _ => cases hon

theorem Role.expired_woken_moves {waker : ReceiverWaker} (hon : expiredWokenOn waker a = some f)
    (hmove : f v r') : Move (.expired_woken waker) ⟨a, v⟩ r' := by
  cases a with
  | load order =>
    cases hon
    obtain ⟨rfl, rfl⟩ | hfinal := hmove
    · exact .expired_again waker order
    · obtain ⟨content, hv, rfl⟩ := final_cases hfinal
      exact .expired waker order hv
  | _ => cases hon

theorem Role.leaving_moves {waker : ReceiverWaker} (hon : leavingOn waker a = some f)
    (hmove : f v r') : Move (.leaving waker) ⟨a, v⟩ r' := by
  cases a with
  | spin_loop =>
    cases hon; cases hmove
    exact .leaving_spin waker
  | load order =>
    cases hon
    obtain ⟨rfl, rfl⟩ | ⟨rfl, rfl⟩ := hmove
    · exact .quit waker order
    · exact .receive_late waker order
  | _ => cases hon

theorem Role.quitting_moves {waker : ReceiverWaker} (hon : quittingOn waker a = some f)
    (hmove : f v r') : Move (.quitting waker) ⟨a, v⟩ r' := by
  cases a with
  | fence order =>
    cases hon; cases hmove
    exact .quit_fence waker order
  | dealloc =>
    cases hon; cases hmove
    exact .abandon waker
  | _ => cases hon

theorem Role.own_moves {x : Owned T} (hon : x.on a = some f)
    (hmove : f v r') : Move (.own x) ⟨a, v⟩ r' := by
  cases a with
  | load order =>
    obtain ⟨hstate, ⟨⟩⟩ := Option.ite_none_right_eq_some.mp hon
    obtain ⟨rfl, rfl⟩ := hmove
    exact .own_load x order hstate
  | store val order =>
    obtain ⟨⟨rfl, hstate, hwaker⟩, ⟨⟩⟩ := Option.ite_none_right_eq_some.mp hon
    cases hmove
    exact .own_store x val hstate (Option.isNone_iff_eq_none.mp hwaker)
  | swap val order =>
    obtain ⟨⟨rfl, rfl⟩, ⟨⟩⟩ := Option.ite_none_right_eq_some.mp hon
    obtain ⟨rfl, rfl⟩ := hmove
    exact .own_swap x
  | fence order =>
    obtain ⟨rfl, ⟨⟩⟩ := Option.ite_none_right_eq_some.mp hon
    cases hmove
    exact .own_fence x
  | now =>
    cases hon; cases hmove
    exact .own_clock x v
  | take_message =>
    obtain ⟨⟨hfull, hseen, hwaker⟩, ⟨⟩⟩ := Option.ite_none_right_eq_some.mp hon
    cases hmove
    exact .own_take x v hfull hseen (Option.isNone_iff_eq_none.mp hwaker)
  | drop_message =>
    obtain ⟨⟨hfull, hseen⟩, ⟨⟩⟩ := Option.ite_none_right_eq_some.mp hon
    cases hmove
    exact .own_drop x hfull hseen
  | drop_waker =>
    obtain ⟨hwaker, ⟨⟩⟩ := Option.ite_none_right_eq_some.mp hon
    cases hmove
    exact .own_drop_waker x hwaker
  | dealloc =>
    obtain ⟨⟨hwaker, hfull, hseen, hintact⟩, ⟨⟩⟩ := Option.ite_none_right_eq_some.mp hon
    cases hmove
    exact .release x (Option.isNone_iff_eq_none.mp hwaker) (by simpa using hfull) hseen hintact
  | _ => cases hon

/-- An access that a role has is one of the steps of that role. -/
theorem Role.move_of_on (hon : r.on a = some f) (hmove : f v r') : r.Move ⟨a, v⟩ r' := by
  cases r with
  | idle => exact idle_moves hon hmove
  | armed waker => exact armed_moves hon hmove
  | waiting waker =>
    cases waker with
    | Thread current => exact thread_moves hon hmove
    | Task cx => exact task_moves hon hmove
  | woken waker => exact woken_moves hon hmove
  | caught waker => exact caught_moves hon hmove
  | expired waker => exact expired_moves hon hmove
  | expired_woken waker => exact expired_woken_moves hon hmove
  | leaving waker => exact leaving_moves hon hmove
  | quitting waker => exact quitting_moves hon hmove
  | own x => exact own_moves hon hmove
  | abandoned waker | left | released content seen => cases hon

end

end Receiver

end oneshot
