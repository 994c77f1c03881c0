import Oneshot.Properties.Allocation
import Oneshot.Properties.Returns

open conc

namespace oneshot

variable {T : Type} {b : Behaviour (System.Step (T := T))}

/-! What the two sides share is freed in the end. -/

/-- The calls that consume the receiver. -/
def Receiver.Call.consumes : Receiver.Call → Bool
  | .recv _ | .drop | .async_drop => true
  | _ => false

/-- A `send` fails, and leaves its error to the caller. -/
def Label.fails : Label T → Bool
  | .sender (.ret (.send _) (.send (.error _))) => true
  | _ => false

/-- Both users give up what they hold: the sender is sent with or dropped, the error of a
    failed `send` is used up too, and the receiver is consumed. -/
structure System.LetsGo (b : Behaviour (System.Step (T := T))) : Prop where
  sender : SenderActs b
  send_error : ∀ n l, b.label n = some l → l.fails = true →
    ∃ m c, b.label m = some (.sender (.call c)) ∧ (c = .into_inner ∨ c = .drop_error)
  receiver : ∃ n c, b.label n = some (.receiver (.call c)) ∧ c.consumes = true

/-- No destructor of a future leaves its spin loop early; that of a plain `Receiver` has none. -/
def System.Patient (b : Behaviour (System.Step (T := T))) : Prop :=
  (∀ n l, b.label n = some l → (b.state n).earlyExit l = false) ∨
    (∃ token, b.state 0 = System.channel T token) ∧ ∀ n l, b.label n = some l → l.intoFuture = false

namespace System

variable {σ σ' : System T} {l : Label T}

/-- Who is gone stays so. -/
theorem sender_gone_step (h : σ.sender = .idle .gone) (hstep : Step σ l σ') :
    σ'.sender = .idle .gone := by
  obtain ⟨μ, s, r⟩ := σ
  obtain rfl : s = .idle .gone := h
  cases hstep with
  | receiver | stray => rfl
  | sender hstep =>
    cases hstep with
    | @call _ c _ haccepts => cases c <;> cases haccepts

theorem receiver_gone_step (h : σ.receiver = .idle .gone) (hstep : Step σ l σ') :
    σ'.receiver = .idle .gone := by
  obtain ⟨μ, s, r⟩ := σ
  obtain rfl : r = .idle .gone := h
  cases hstep with
  | sender | stray => rfl
  | receiver hstep =>
    cases hstep with
    | @call _ c _ haccepts => cases c <;> cases haccepts

end System

/-- The sender is gone in the end. -/
theorem sender_gone (hfair : b.Fair (System.Runnable .sender) fun l => l.ofSender = true)
    (hgo : System.LetsGo b) : ∃ n, ∀ m, n ≤ m → (b.state m).sender = .idle .gone := by
  have hgone {m : Nat} {c : Sender.Call T} {v : Sender.Ret T}
      (hl : b.label m = some (.sender (.ret c v))) (hafter : (sender T).after c v = .gone) :
      ∃ n, ∀ m, n ≤ m → (b.state m).sender = .idle .gone := by
    refine ⟨m + 1, fun i hi => Behaviour.keeps (P := fun σ => σ.sender = .idle .gone) hi ?_
      fun j l _ h hl => System.sender_gone_step h (b.step j l hl)⟩
    rw [System.sender_of_ret (b.step m _ hl), hafter]
  obtain ⟨n, c, hcall, hc⟩ := hgo.sender
  obtain ⟨m, v, _, hret⟩ := sender_returns hfair hcall
  obtain rfl | ⟨message, rfl⟩ := hc
  · exact hgone hret rfl
  · by_cases hfailed : ∃ error, v = .send (.error error)
    · obtain ⟨error, rfl⟩ := hfailed
      obtain ⟨n', c', hcall', hc'⟩ := hgo.send_error m _ hret rfl
      obtain ⟨m', v', _, hret'⟩ := sender_returns hfair hcall'
      obtain rfl | rfl := hc' <;> exact hgone hret' rfl
    · refine hgone hret ?_
      cases v with
      | send result =>
        cases result with
        | ok => rfl
        | error error => exact (hfailed ⟨error, rfl⟩).elim
      | _ => rfl

/-- So is the receiver. -/
theorem receiver_gone (hinitial : (b.state 0).Initial) (hfair : System.Fair b)
    (hgo : System.LetsGo b) : ∃ n, ∀ m, n ≤ m → (b.state m).receiver = .idle .gone := by
  obtain ⟨n, c, hcall, hc⟩ := hgo.receiver
  obtain ⟨m, v, _, hret⟩ := receiver_returns hinitial hfair hcall (.inl hgo.sender)
  refine ⟨m + 1, fun i hi => Behaviour.keeps (P := fun σ => σ.receiver = .idle .gone) hi ?_
    fun j l _ h hl => System.receiver_gone_step h (b.step j l hl)⟩
  rw [System.receiver_of_ret (b.step m _ hret)]
  cases c <;> first | rfl | cases hc

/-- What a patient behaviour has done to the allocation up to any moment. -/
theorem System.Patient.allocation_kept (hpatient : System.Patient b)
    (hinitial : (b.state 0).Initial) (n : Nat) : AllocationKept (b.labels n) (b.state n) := by
  obtain hlate | ⟨⟨token, hstart⟩, hsync⟩ := hpatient
  · have hrun : Run System.PatientStep (b.state 0) (b.labels n) (b.state n) :=
      Behaviour.run_of (fun m l hl => ⟨b.step m l hl, hlate m l hl⟩) n
    obtain ⟨h, token, hsim⟩ := Proto.simulates_initial hinitial
    obtain ⟨p, hp, hsim'⟩ := Proto.patient_run hsim (Proto.init_patient h token) hrun
    exact oneshot.allocation_kept hp hsim'
  · have hrun := b.run n
    rw [hstart] at hrun
    obtain ⟨p, hp, hsim⟩ := Proto.synchronous_run hrun fun l hl => by
      obtain ⟨m, _, hm⟩ := Behaviour.mem_labels.mp hl
      exact hsync m l hm
    exact oneshot.allocation_kept hp hsim

/-- A channel that both users let go of is freed in the end, and freed once, if no thread that
    can go on is left out for ever. -/
theorem channel_freed (hinitial : (b.state 0).Initial) (hfair : System.Fair b)
    (hgo : System.LetsGo b) (hpatient : System.Patient b) :
    ∃ n, ∀ m, n ≤ m → (b.state m).Completed ∧ AllocationSafe (b.labels m) ∧
      frees (b.labels m) = 1 := by
  obtain ⟨n₁, hsender⟩ := sender_gone hfair.sender hgo
  obtain ⟨n₂, hreceiver⟩ := receiver_gone hinitial hfair hgo
  refine ⟨max n₁ n₂, fun m hm => ?_⟩
  have hcompleted : (b.state m).Completed :=
    ⟨hsender m (Nat.le_trans (Nat.le_max_left _ _) hm),
      hreceiver m (Nat.le_trans (Nat.le_max_right _ _) hm)⟩
  obtain ⟨hsafe, _, honce⟩ := hpatient.allocation_kept hinitial m
  exact ⟨hcompleted, hsafe, honce hcompleted⟩

/-- A future that is polled and dropped, a `send` that fails, and what becomes of its error. -/
def System.given_back : List (Choice Nat) :=
  receives (.poll ⟨1⟩) 5 0 ++ receives .async_drop 5 0 ++ sends (.send 7) 3 ++ sends .into_inner 3

theorem channel_freed_given_back :
    ∃ b : Behaviour (System.Step (T := Nat)),
      b.state 0 = System.async_channel Nat (fun _ => false) ∧
      (∃ n l, b.label n = some l ∧ l.fails = true) ∧
      ∃ n, ∀ m, n ≤ m → (b.state m).Completed ∧ AllocationSafe (b.labels m) ∧
        frees (b.labels m) = 1 := by
  have hsome : ((System.async_channel Nat fun _ => false).play System.given_back).isSome = true := by
    decide
  have hrun := System.play_patient (System.play_eq hsome) (by decide)
  obtain ⟨b, hstart, hlabel, hend⟩ := hrun.exists_behaviour
  have hgo : System.LetsGo (b.mono fun _ _ _ h => h.1) := by
    refine ⟨⟨12, .send 7, (hlabel 12).trans rfl, .inr ⟨7, rfl⟩⟩, fun _ _ _ _ => ?_,
      ⟨6, .async_drop, (hlabel 6).trans rfl, rfl⟩⟩
    exact ⟨16, .into_inner, (hlabel 16).trans rfl, .inl rfl⟩
  have hfails : ((System.async_channel Nat fun _ => false).labels
      System.given_back)[15]?.any Label.fails = true := by decide
  obtain ⟨l, hl, hlfails⟩ := (Option.any_eq_true _ _).mp hfails
  refine ⟨b.mono fun _ _ _ h => h.1, hstart, ⟨15, l, (hlabel 15).trans hl, hlfails⟩,
    channel_freed ⟨_, .inr hstart⟩ (System.fair_of_rest hend rfl rfl) hgo (.inl fun n l hl => ?_)⟩
  exact (b.step n l hl).2

end oneshot
