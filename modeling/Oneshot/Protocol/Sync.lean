import Oneshot.Protocol.Observers

open conc

namespace oneshot.Receiver

variable {T : Type}

attribute [local simp] Makes Role.on Call.makes idleOn armedOn waitingOn wokenOn caughtOn expiredOn
  expiredWokenOn Owned.on Progress.advance Progress.follow point loadPoint swapPoint final sees Owned.read
  MemOrder.acquires Owned.AtRest tryRecvOutcome recvOutcome timeoutOutcome
  ReceiverWaker.current_thread or_imp forall_and

/-- A call that parks a thread is a receive call, and no `try_recv`. -/
theorem Call.parks {c : Call} {current : Thread} (hc : c.waker = some (.Thread current)) :
    c ≠ .try_recv ∧ c ≠ .async_drop ∧ c.observes = false ∧ c.polls = false ∧
      c.allows (.disconnected : Outcome T) = true ∧
      ∀ message : T, c.allows (.message message) = true := by
  cases c <;> simp_all [Call.waker, Call.observes, Call.polls, Call.allows]

theorem try_recv_plays {r : Role T} (hr : Ready .receiver r) :
    Plays .try_recv Receiver.try_recv r ⟨none, none⟩ (Settles tryRecvOutcome .receiver) := by
  cases r with
  | idle => simp [Receiver.try_recv, Call.observes, Call.allows]
  | own x =>
    obtain ⟨state, message, waker, seen, intact⟩ := x
    obtain ⟨rfl, ⟨rfl, hm, rfl⟩ | ⟨rfl, hm, hseen⟩⟩ := hr
    · simp_all [Receiver.try_recv, Call.observes, Call.allows]
    · simp_all [Receiver.try_recv, Call.observes, Call.allows]
  | _ => cases hr

/-- `recv` returns with the outcome it has settled on, once it has freed the channel. -/
def Recvs (v : Except RecvError T) (r : Role T) (g : Progress T) : Prop :=
  (∃ content, r = .released content .final) ∧ g.settled = some (recvOutcome v)

theorem recv_loop_plays {current : Thread} :
    Plays (.recv current) (Receiver.recv_loop current) (.waiting (.Thread current))
      (⟨none, none⟩ : Progress T) Recvs := by
  refine keeps_loop (fun r g => r = .waiting (.Thread current) ∧ g = ⟨none, none⟩) ⟨rfl, rfl⟩ ?_
  rintro _ _ ⟨rfl, rfl⟩
  simp [Role.waits, Recvs, Call.observes, Call.allows]

theorem recv_plays {current : Thread} {r : Role T} (hr : Ready .receiver r) :
    Plays (.recv current) (Receiver.recv current) r ⟨none, none⟩ Recvs := by
  cases r with
  | idle =>
    simpa [Receiver.recv, Recvs, Call.waker, Call.observes, Call.polls, Call.allows]
      using recv_loop_plays
  | own x =>
    obtain ⟨state, message, waker, seen, intact⟩ := x
    obtain ⟨rfl, ⟨rfl, hm, rfl⟩ | ⟨rfl, hm, hseen⟩⟩ := hr
    · simp_all [Receiver.recv, Recvs, Call.observes, Call.allows]
    · simp_all [Receiver.recv, Recvs, Call.observes, Call.allows]
  | _ => cases hr

/-- `start_recv_ref` plays its part if `finish` does so once the waker is stored
    and published. -/
theorem start_recv_ref_plays {E : Type} {c : Call} {current : Thread}
    (hc : c.waker = some (.Thread current)) {error : E}
    {finish : Code T (Except E T)} {out : Except E T → Outcome T}
    (hok : ∀ message, out (.ok message) = .message message)
    (herror : out (.error error) = .disconnected)
    (hfinish : Plays c finish (.waiting (.Thread current)) ⟨none, none⟩ (Settles out .receiver))
    {r : Role T} (hr : Ready .receiver r) :
    Plays c (Receiver.start_recv_ref current error finish) r ⟨none, none⟩
      (Settles out .receiver) := by
  obtain ⟨htry, hasync, hobserves, hpolls, hdisconnected, hmessage⟩ := Call.parks (T := T) hc
  cases r with
  | idle =>
    simpa [Receiver.start_recv_ref, hc, htry, hasync, hobserves, hpolls, hdisconnected, hmessage,
      hok, herror] using hfinish
  | own x =>
    obtain ⟨state, message, waker, seen, intact⟩ := x
    obtain ⟨rfl, ⟨rfl, hm, rfl⟩ | ⟨rfl, hm, hseen⟩⟩ := hr
    · simp_all [Receiver.start_recv_ref]
    · cases intact <;> simp_all [Receiver.start_recv_ref]
  | _ => cases hr

theorem recv_ref_loop_plays {c : Call} {current : Thread}
    (hc : c.waker = some (.Thread current)) :
    Plays c (Receiver.recv_ref_loop current) (.waiting (.Thread current))
      (⟨none, none⟩ : Progress T) (Settles recvOutcome .receiver) := by
  obtain ⟨htry, hasync, hobserves, hpolls, hdisconnected, hmessage⟩ := Call.parks (T := T) hc
  refine keeps_loop (fun r g => r = .waiting (.Thread current) ∧ g = ⟨none, none⟩) ⟨rfl, rfl⟩ ?_
  rintro _ _ ⟨rfl, rfl⟩
  simp [Role.waits, htry, hasync, hobserves, hdisconnected, hmessage]

theorem wait_for_unpark_plays {c : Call} {current : Thread}
    (hc : c.waker = some (.Thread current)) :
    Plays c (Receiver.wait_for_unpark current) (.expired (.Thread current))
      (⟨none, none⟩ : Progress T) (Settles timeoutOutcome .receiver) := by
  obtain ⟨htry, hasync, hobserves, hpolls, hdisconnected, hmessage⟩ := Call.parks (T := T) hc
  refine keeps_loop (fun r g => r = .expired (.Thread current) ∧ g = ⟨none, none⟩) ⟨rfl, rfl⟩ ?_
  rintro _ _ ⟨rfl, rfl⟩
  simp [Role.waits, htry, hasync, hobserves, hdisconnected, hmessage]

theorem recv_deadline_loop_plays {c : Call} {current : Thread}
    (hc : c.waker = some (.Thread current)) (hopen : c.allows (.open : Outcome T) = true)
    {deadline : Instant} :
    Plays c (Receiver.recv_deadline_loop current deadline) (.waiting (.Thread current))
      (⟨none, none⟩ : Progress T) (Settles timeoutOutcome .receiver) := by
  have hunpark := @wait_for_unpark_plays T c current hc
  obtain ⟨htry, hasync, hobserves, hpolls, hdisconnected, hmessage⟩ := Call.parks (T := T) hc
  refine keeps_loop (fun r g => r = .waiting (.Thread current) ∧ g = ⟨none, none⟩) ⟨rfl, rfl⟩ ?_
  rintro _ _ ⟨rfl, rfl⟩
  refine ⟨trivial, plays_access (a := .now) rfl ?_⟩
  rintro (now : Instant) _ rfl
  refine ⟨⟨none, none⟩, by simp [hobserves], ?_⟩
  cases hnow : deadline.checked_duration_since now with
  | some timeout => simp [hnow, htry, hasync, hobserves, hdisconnected, hmessage]
  | none =>
    simp [hnow, hobserves, hpolls, hdisconnected, hmessage, hopen]
    exact hunpark.mono fun _ _ _ h => h

theorem recv_ref_plays {c : Call} {current : Thread}
    (hc : c.waker = some (.Thread current)) {r : Role T}
    (hr : Ready .receiver r) :
    Plays c (Receiver.recv_ref current) r ⟨none, none⟩ (Settles recvOutcome .receiver) :=
  start_recv_ref_plays hc (fun _ => rfl) rfl (recv_ref_loop_plays hc) hr

theorem recv_deadline_plays {c : Call} {current : Thread}
    (hc : c.waker = some (.Thread current)) (hopen : c.allows (.open : Outcome T) = true)
    {deadline : Instant}
    {r : Role T} (hr : Ready .receiver r) :
    Plays c (Receiver.recv_deadline current deadline) r ⟨none, none⟩
      (Settles timeoutOutcome .receiver) :=
  start_recv_ref_plays hc (fun _ => rfl) rfl (recv_deadline_loop_plays hc hopen) hr

/-- The clock is read first, and a timeout past the last instant is none at all. -/
theorem recv_timeout_plays {c : Call} {current : Thread}
    (hc : c.waker = some (.Thread current)) (hopen : c.allows (.open : Outcome T) = true)
    {timeout : Duration}
    {r : Role T} (hr : Ready .receiver r) :
    Plays c (Receiver.recv_timeout current timeout) r ⟨none, none⟩
      (Settles timeoutOutcome .receiver) := by
  -- Reading the clock leaves the role as it is.
  have hnow (now : Instant) :
      Progress.advance c (⟨none, none⟩ : Progress T) ⟨.now, now⟩ = some ⟨none, none⟩ := by
    simp [(Call.parks (T := T) hc).2.2.1]
  have hclock (hon : r.on .now = some fun _ r' => r' = r) :
      Plays c (Receiver.recv_timeout current timeout) r ⟨none, none⟩
        (Settles timeoutOutcome .receiver) := by
    refine plays_access hon ?_
    rintro (now : Instant) _ rfl
    refine ⟨⟨none, none⟩, hnow now, ?_⟩
    cases hadd : now.checked_add timeout with
    | some deadline =>
      simp only [Program.ret_bind, hadd]
      exact recv_deadline_plays hc hopen hr
    | none =>
      simp only [Program.ret_bind, hadd, Program.bind_eq, keeps_bind, Program.pure_eq, keeps_ret]
      refine (recv_ref_plays hc hr).mono fun v r' g h => ⟨h.1, ?_⟩
      cases v <;> exact h.2
  cases r with
  | idle => exact hclock rfl
  | own x => exact hclock rfl
  | _ => cases hr

theorem drop_plays {r : Role T} (hr : Ready .receiver r) :
    Plays .drop Receiver.drop r ⟨none, none⟩ (Settles (fun _ => .dropped) .gone) := by
  cases r with
  | idle => simp [Receiver.drop, Call.observes, Call.polls, Call.allows]
  | own x =>
    obtain ⟨state, message, waker, seen, intact⟩ := x
    obtain ⟨rfl, ⟨rfl, hm, rfl⟩ | ⟨rfl, hm, hseen⟩⟩ := hr
    · simp_all [Receiver.drop, Call.observes, Call.polls, Call.allows]
    · cases intact <;> simp_all [Receiver.drop, Call.observes, Call.polls, Call.allows]
  | _ => cases hr

end oneshot.Receiver
