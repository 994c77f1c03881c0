import Oneshot.Protocol.Observers

open conc

namespace oneshot.Receiver

variable {T : Type}

attribute [local simp] Makes Role.on Call.makes Call.waker Call.observes Call.polls Call.allows
  idleOn armedOn waitingOn wokenOn caughtOn leavingOn quittingOn Owned.on Progress.advance Progress.follow point loadPoint swapPoint exchangePoint final sees Owned.read
  MemOrder.acquires Owned.AtRest pollOutcome ReceiverWaker.task_waker or_imp forall_and

/-- An answer of a compare-exchange is a success or a failure. -/
@[local simp] theorem forall_except {ε α : Type} {P : Except ε α → Prop} :
    (∀ v, P v) ↔ (∀ a, P (.ok a)) ∧ ∀ e, P (.error e) :=
  ⟨fun h => ⟨fun a => h (.ok a), fun e => h (.error e)⟩, fun h v => v.casesOn h.2 h.1⟩

/-- A `poll` returns with the outcome it has settled on, and if it is pending its
    waker will be woken. -/
def Polls (cx : Waker) (v : Poll (Except RecvError T)) (r : Role T) (g : Progress T) : Prop :=
  Settles pollOutcome .async_receiver v r g ∧ ∀ (_ : v = .Pending), Registered cx r g

/-- A `poll` that has seen the message takes it. -/
theorem take_plays {cx : Waker} {seen : Seen} {intact : Bool} :
    Plays (.poll cx) (do
        state.store DISCONNECTED .Relaxed
        fence .Acquire
        return .Ready (.ok (← Channel.take_message)))
      (.own ⟨MESSAGE, .full, none, seen, intact⟩ : Role T) ⟨none, none⟩ (Polls cx) := by
  simp [Polls]

/-- A `poll` that finds the sender gone, or the message taken before, is done. -/
theorem disconnected_polls {cx : Waker} {x : Owned T} (hx : x.AtRest) :
    Polls cx (.Ready (.error {})) (.own x) ⟨some .disconnected, none⟩ :=
  ⟨⟨hx, rfl⟩, fun h => nomatch h⟩

/-- The only answers of the exchange are that the waker is published, and the two
    final states of the sender. -/
theorem write_async_waker_plays {cx : Waker} :
    Plays (.poll cx) (Channel.write_async_waker cx) (.idle : Role T) ⟨none, none⟩ (Polls cx) := by
  refine plays_access (a := .clone_waker cx) rfl ?_
  rintro (clone : Waker) _ ⟨rfl, rfl⟩
  refine ⟨⟨none, none⟩, by simp, ?_⟩
  refine plays_access (a := .write_waker (.Task clone)) rfl ?_
  rintro _ _ rfl
  refine ⟨⟨none, none⟩, by simp, ?_⟩
  refine plays_access (a := .compare_exchange EMPTY RECEIVING .Release .Relaxed) rfl ?_
  rintro _ _ (⟨rfl, rfl⟩ | ⟨_, rfl, ⟨rfl, rfl⟩ | ⟨rfl, rfl⟩⟩)
  · exact ⟨⟨some .open, none⟩, by simp, ⟨trivial, rfl⟩, fun _ => .inl rfl⟩
  · refine ⟨⟨none, none⟩, by simp, ?_⟩
    refine plays_access (a := .drop_waker) rfl ?_
    rintro _ _ rfl
    exact ⟨⟨none, none⟩, by simp, take_plays⟩
  · refine ⟨⟨some .disconnected, none⟩, by simp, ?_⟩
    refine plays_access (a := .drop_waker) rfl ?_
    rintro _ _ rfl
    exact ⟨⟨some .disconnected, none⟩, by simp, disconnected_polls (by simp)⟩

theorem poll_loop_plays {cx waker : Waker} :
    Plays (.poll cx) AsyncReceiver.poll_loop (.caught (.Task waker) : Role T) ⟨none, none⟩
      (Polls cx) := by
  refine keeps_loop (fun r g => r = .caught (.Task waker) ∧ g = ⟨none, none⟩) ⟨rfl, rfl⟩ ?_
  rintro _ _ ⟨rfl, rfl⟩
  simp [Role.waits, Polls]

theorem poll_plays {cx : Waker} {r : Role T} (hr : Ready .async_receiver r) :
    Plays (.poll cx) (AsyncReceiver.poll cx) r ⟨none, none⟩ (Polls cx) := by
  cases r with
  | idle =>
    refine plays_access (a := .load .Relaxed) rfl ?_
    rintro _ _ (⟨rfl, rfl⟩ | ⟨rfl, rfl⟩ | ⟨rfl, rfl⟩)
    · exact ⟨⟨none, none⟩, by simp, write_async_waker_plays⟩
    · exact ⟨⟨none, none⟩, by simp, take_plays⟩
    · exact ⟨⟨some .disconnected, none⟩, by simp, disconnected_polls (by simp)⟩
  | waiting waker =>
    cases waker with
    | Thread thread => cases hr
    | Task waker =>
      refine plays_access (a := .load .Relaxed) rfl ?_
      rintro _ _ (⟨rfl, rfl⟩ | ⟨rfl, rfl⟩ | ⟨rfl, rfl⟩ | ⟨rfl, rfl⟩)
      · -- The sender has done nothing yet. The waker may be replaced if that is still so.
        refine ⟨⟨none, none⟩, by simp, ?_⟩
        refine plays_access (a := .compare_exchange RECEIVING EMPTY .Relaxed .Relaxed) rfl ?_
        rintro _ _ (⟨rfl, rfl⟩ | ⟨rfl, rfl⟩ | ⟨_, rfl, ⟨rfl, rfl⟩ | ⟨rfl, rfl⟩⟩)
        · refine ⟨⟨none, none⟩, by simp, ?_⟩
          refine plays_access (a := .drop_waker) rfl ?_
          rintro _ _ rfl
          exact ⟨⟨none, none⟩, by simp, write_async_waker_plays⟩
        · refine ⟨⟨some .open, none⟩, by simp, ?_⟩
          refine plays_access (a := .wake_by_ref cx) rfl ?_
          rintro _ _ rfl
          exact ⟨⟨some .open, some cx⟩, by simp, ⟨trivial, rfl⟩, fun _ => .inr ⟨waker, rfl, rfl⟩⟩
        · exact ⟨⟨none, none⟩, by simp, take_plays⟩
        · exact ⟨⟨some .disconnected, none⟩, by simp, disconnected_polls (by simp)⟩
      · exact ⟨⟨none, none⟩, by simp, poll_loop_plays⟩
      · exact ⟨⟨none, none⟩, by simp, take_plays⟩
      · exact ⟨⟨some .disconnected, none⟩, by simp, disconnected_polls (by simp)⟩
  | caught waker =>
    cases waker with
    | Thread thread => cases hr
    | Task waker =>
      refine plays_access (a := .load .Relaxed) rfl ?_
      rintro _ _ (⟨rfl, rfl⟩ | ⟨rfl, rfl⟩ | ⟨rfl, rfl⟩)
      · exact ⟨⟨none, none⟩, by simp, poll_loop_plays⟩
      · exact ⟨⟨none, none⟩, by simp, take_plays⟩
      · exact ⟨⟨some .disconnected, none⟩, by simp, disconnected_polls (by simp)⟩
  | own x =>
    -- The channel is as an earlier call has left it.
    have hrest : x.AtRest := hr
    obtain ⟨state, message, waker, seen, intact⟩ := x
    obtain ⟨rfl, ⟨rfl, hm, rfl⟩ | ⟨rfl, hm, hseen⟩⟩ := hr
    · cases message with
      | full =>
        refine plays_access (a := .load .Relaxed) rfl ?_
        rintro _ _ ⟨rfl, rfl⟩
        exact ⟨⟨none, none⟩, by simp, take_plays⟩
      | _ => cases hm
    · have hon : (Role.own ⟨DISCONNECTED, message, none, seen, intact⟩).on (.load .Relaxed) =
          some fun (v : UInt8) r' => v = DISCONNECTED ∧
            r' = .own (Owned.read ⟨DISCONNECTED, message, none, seen, intact⟩ .Relaxed) :=
        if_pos (.inr ⟨rfl, hm⟩)
      refine plays_access hon ?_
      rintro _ _ ⟨rfl, rfl⟩
      exact ⟨⟨some .disconnected, none⟩, by simp, disconnected_polls (hrest.read .Relaxed)⟩
  | _ => cases hr

/-- The destructor first takes back `RECEIVING`, if that is the state. -/
theorem stop_receiving_plays {r : Role T} (hr : Ready .async_receiver r) :
    Plays .async_drop AsyncReceiver.stop_receiving r ⟨none, none⟩ fun _ r' g =>
      (r' = .idle ∨ (∃ waker, r' = .caught waker) ∨ ∃ x, r' = .own x ∧ x.AtRest) ∧
        g = ⟨none, none⟩ := by
  cases r with
  | idle => simp [AsyncReceiver.stop_receiving]
  | waiting waker =>
    cases waker with
    | Thread thread => cases hr
    | Task waker => simp [AsyncReceiver.stop_receiving]
  | caught waker => simp [AsyncReceiver.stop_receiving]
  | own x =>
    obtain ⟨state, message, waker, seen, intact⟩ := x
    obtain ⟨rfl, ⟨rfl, hm, rfl⟩ | ⟨rfl, hm, hseen⟩⟩ := hr
    · simp_all [AsyncReceiver.stop_receiving]
    · simp_all [AsyncReceiver.stop_receiving]
  | _ => cases hr

/-- The spin loop of the destructor ends at a final state of the sender, or at
    the `DISCONNECTED` the destructor stored itself. -/
theorem drop_loop_plays {waker : ReceiverWaker} :
    Plays .async_drop AsyncReceiver.drop_loop (.leaving waker : Role T) ⟨some .dropped, none⟩
      fun _ r' g => (r' = .quitting waker ∨ ∃ x, r' = .own x ∧ x.waker = none ∧
        x.message.isFull = false) ∧ g = ⟨some .dropped, none⟩ := by
  refine keeps_loop (fun r g => r = .leaving waker ∧ g = ⟨some .dropped, none⟩) ⟨rfl, rfl⟩ ?_
  rintro _ _ ⟨rfl, rfl⟩
  simp [Role.waits]

theorem async_drop_plays {r : Role T} (hr : Ready .async_receiver r) :
    Plays .async_drop AsyncReceiver.drop r ⟨none, none⟩ (Settles (fun _ => .dropped) .gone) := by
  refine keeps_bind.mpr ((stop_receiving_plays hr).mono ?_)
  rintro _ r' g ⟨rfl | ⟨waker, rfl⟩ | ⟨x, rfl, hx⟩, rfl⟩
  · simp
  · have hspin := @drop_loop_plays T waker
    simp
    refine hspin.mono ?_
    rintro _ r' g ⟨rfl | ⟨x, rfl, hwaker, hmessage⟩, rfl⟩
    · simp
    · simp [hwaker, hmessage]
  · obtain ⟨state, message, waker, seen, intact⟩ := x
    obtain ⟨rfl, ⟨rfl, hm, rfl⟩ | ⟨rfl, hm, hseen⟩⟩ := hx
    · simp_all
    · cases intact <;> simp_all

end oneshot.Receiver
