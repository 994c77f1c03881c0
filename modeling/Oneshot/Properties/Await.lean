import Oneshot.Properties.Returns
import Oneshot.Properties.TaskWaker

open conc

namespace oneshot

variable {T : Type} {b : Behaviour (System.Step (T := T))} {n : Nat}

/-! A task that awaits the receiver gets its result. -/

/-- What an executor does with the future: it polls it a first time, and again when the
    waker of the last poll, if that was pending, has been woken since the poll began. It may
    poll it more often, with any wakers, and keeps it as long as it is pending. -/
structure System.Awaits (b : Behaviour (System.Step (T := T))) : Prop where
  first : ∃ n cx, b.label n = some (.receiver (.call (.poll cx)))
  again : ∀ n cx, b.label n = some (.receiver (.call (.poll cx))) →
    (∃ m, n < m ∧ b.label m = some (Label.pending cx)) →
    (∃ m l, n < m ∧ b.label m = some l ∧ l.wakes cx = true) →
    ∃ m cx', n < m ∧ b.label m = some (.receiver (.call (.poll cx')))
  keeps : ∀ n, b.label n = some (.receiver (.call .async_drop)) →
    ∃ m cx result, m < n ∧ b.label m = some (.receiver (.ret (.poll cx) (.poll (.Ready result))))

namespace Proto

/-- The poll that began when the sender was done has not looked at the state yet, or it has
    seen its final state. -/
def Looking (cx : Waker) (σ : System T) : Prop :=
  ∃ p, Reaches σ p ∧ p.s.ended = true ∧
    (σ.receiver = .busy (.poll cx) ((oneshot.receiver T).code (.poll cx)) ∨ p.r.ended = true)

theorem Looking.step {cx : Waker} {σ σ' : System T} {l : Label T} (h : Looking cx σ)
    (hstep : System.Step σ l σ') : Looking cx σ' := by
  obtain ⟨p, hp, hs, hlooking⟩ := h
  obtain ⟨p', hstep', hp'⟩ := hp.step hstep
  refine ⟨p', hp', hstep'.sender_ended hs, ?_⟩
  obtain hbegun | hended := hlooking
  · obtain ⟨μ, s, r⟩ := σ
    obtain rfl : r = _ := hbegun
    cases hstep with
    | sender | stray => exact .inl rfl
    | receiver hstep =>
      cases hstep with
      | act => exact .inr (hstep'.load_ended hs).2
  · exact .inr (hstep'.receiver_ended hended).1

/-- What a poll that returns has done. -/
theorem Step.poll_ret {p p' : Proto T} {cx : Waker} {v : Receiver.Ret T}
    (hstep : Step p (.receiver (.ret (.poll cx) v)) p') : ∃ g, Receiver.Post (.poll cx) v p.r g := by
  obtain ⟨μ, ss, rs, hagree⟩ := p
  obtain ⟨μ', ss', rs', hagree'⟩ := p'
  cases hstep with
  | receiver hsession =>
    cases hsession with
    | ret hpost => exact ⟨_, hpost⟩

/-- It does not return `Pending`. -/
theorem Looking.not_pending {cx : Waker} {σ σ' : System T} (h : Looking cx σ)
    (hstep : System.Step σ (Label.pending cx) σ') : False := by
  obtain ⟨p, hp, hs, hlooking⟩ := h
  obtain ⟨p', hstep', _⟩ := hp.step hstep
  obtain hbegun | hended := hlooking
  · obtain ⟨μ, s, r⟩ := σ
    obtain rfl : r = _ := hbegun
    cases hstep with
    | receiver hstep => cases hstep
  · obtain ⟨g, _, _, hr | ⟨waker, hr, _⟩⟩ := hstep'.poll_ret
    all_goals rw [hr] at hended; cases hended

end Proto

/-- What `poll` returns. -/
theorem poll_returns (hinitial : (b.state 0).Initial) {cx : Waker} {v : Receiver.Ret T}
    (hret : b.label n = some (.receiver (.ret (.poll cx) v))) :
    v = .poll .Pending ∨ ∃ result, v = .poll (.Ready result) := by
  obtain ⟨p, hp⟩ := Proto.reaches_of_run hinitial (b.run n)
  obtain ⟨p', hstep, _⟩ := hp.step (b.step n _ hret)
  obtain ⟨g, _, hpost⟩ := hstep.poll_ret
  cases v with
  | poll result =>
    cases result with
    | Pending => exact .inl rfl
    | Ready result => exact .inr ⟨result, rfl⟩
  | _ =>
    obtain ⟨o, houtcome, _⟩ := hpost
    cases houtcome

/-- A poll that begins when the sender has returned is ready when it returns. -/
theorem ready_of_returned (hinitial : (b.state 0).Initial)
    (hfair : b.Fair (System.Runnable .receiver) fun l => l.ofReceiver = true) {cx : Waker}
    (hcall : b.label n = some (.receiver (.call (.poll cx))))
    (hreturned : (b.state n).returned = true) :
    ∃ m result, b.label m = some (.receiver (.ret (.poll cx) (.poll (.Ready result)))) := by
  obtain ⟨m, v, hm, hret⟩ := returns_of_sender hinitial hfair hcall hreturned
  obtain rfl | ⟨result, rfl⟩ := poll_returns hinitial hret
  · obtain ⟨p, hp⟩ := Proto.reaches_of_run hinitial (b.run n)
    have hs := hp.simulates.ended hp.ended hreturned
    obtain ⟨p', hstep, hp'⟩ := hp.step (b.step n _ hcall)
    have hbegun : Proto.Looking cx (b.state (n + 1)) :=
      ⟨p', hp', hstep.sender_ended hs, .inl (System.receiver_of_call (b.step n _ hcall))⟩
    have hlooking : Proto.Looking cx (b.state m) :=
      Behaviour.keeps hm hbegun fun i l _ h hl => h.step (b.step i l hl)
    exact (hlooking.not_pending (b.step m _ hret)).elim
  · exact ⟨m, result, hret⟩

/-- A sender that has returned stays so. -/
theorem System.returned_step {σ σ' : System T} {l : Label T} (hstep : Step σ l σ')
    (hreturned : σ.returned = true) : σ'.returned = true := by
  obtain ⟨μ, s, r⟩ := σ
  cases hstep with
  | receiver | stray => exact hreturned
  | sender hstep =>
    cases hstep with
    | @call h c _ haccepts =>
      cases h with
      | sender => cases hreturned
      | send_error | gone => cases c <;> first | rfl | cases haccepts
    | @act c | @enter c | @ret c => cases c <;> first | rfl | cases hreturned

/-- A task that awaits the receiver comes to have its result, if the sender is sent with or
    dropped at some time. The executor need not poll but when a waker was woken. -/
theorem await_completes (hinitial : (b.state 0).Initial) (hfair : System.Fair b)
    (hacts : System.SenderActs b) (hawaits : System.Awaits b) :
    ∃ n cx result, b.label n = some (.receiver (.ret (.poll cx) (.poll (.Ready result)))) := by
  by_contra hno
  obtain ⟨n₁, hreturned⟩ := returned_of_acts hfair.sender hacts
  have hlater {m : Nat} (hm : n₁ ≤ m) : (b.state m).returned = true :=
    Behaviour.keeps (P := fun σ : System T => σ.returned = true) hm hreturned
      fun i l _ h hl => System.returned_step (b.step i l hl) h
  -- Every poll is followed by another, which cannot be so once the sender has returned.
  have hnext (n : Nat) (cx : Waker) (hcall : b.label n = some (.receiver (.call (.poll cx)))) :
      ∃ m cx', n < m ∧ b.label m = some (.receiver (.call (.poll cx'))) := by
    by_contra hlast
    obtain ⟨m, v, hm, hret⟩ := returns_of_sender hinitial hfair.receiver hcall hreturned
    obtain rfl | ⟨result, rfl⟩ := poll_returns hinitial hret
    · have hm' : m < max (m + 1) n₁ := Nat.le_max_left (m + 1) n₁
      obtain ⟨τ, hτ, hmem⟩ := b.labels_split (Nat.lt_trans hm hm') hcall
      have hquiet : ∀ l ∈ τ, l.supersedes = false := by
        intro l hl
        obtain ⟨i, hi, _, hl⟩ := (hmem l).mp hl
        by_contra hsupersedes
        cases l with
        | receiver e =>
          cases e with
          | call c =>
            cases c with
            | poll cx' => exact hlast ⟨i, cx', hi, hl⟩
            | async_drop =>
              obtain ⟨j, cx', result, _, hready⟩ := hawaits.keeps i hl
              exact hno ⟨j, cx', result, hready⟩
            | _ => exact hsupersedes rfl
          | _ => exact hsupersedes rfl
        | _ => exact hsupersedes rfl
      obtain ⟨h, token, hsim⟩ := Proto.simulates_initial hinitial
      obtain ⟨l, hl, hwakes⟩ := (hsim.latestWoken (b.run (max (m + 1) n₁))).latest _ cx τ hτ hquiet
        ((hmem _).mpr ⟨m, hm, hm', hret⟩) (hlater (Nat.le_max_right _ _))
      obtain ⟨i, hi, _, hl⟩ := (hmem l).mp hl
      exact hlast (hawaits.again n cx hcall ⟨m, hm, hret⟩ ⟨i, l, hi, hl, hwakes⟩)
    · exact hno ⟨m, cx, result, hret⟩
  have hbeyond (k : Nat) : ∃ n cx, k ≤ n ∧ b.label n = some (.receiver (.call (.poll cx))) := by
    induction k with
    | zero =>
      obtain ⟨n, cx, hcall⟩ := hawaits.first
      exact ⟨n, cx, Nat.zero_le n, hcall⟩
    | succ k ih =>
      obtain ⟨n, cx, hk, hcall⟩ := ih
      obtain ⟨m, cx', hm, hcall'⟩ := hnext n cx hcall
      exact ⟨m, cx', Nat.le_trans (Nat.succ_le_succ hk) hm, hcall'⟩
  obtain ⟨n, cx, hn, hcall⟩ := hbeyond n₁
  obtain ⟨m, result, hready⟩ := ready_of_returned hinitial hfair.receiver hcall (hlater hn)
  exact hno ⟨m, cx, result, hready⟩

/-- A future that is polled, woken by a send, and polled again. -/
def System.awaited : List (Choice Nat) :=
  receives (.poll ⟨1⟩) 5 0 ++ sends (.send 7) 6 ++ receives (.poll ⟨1⟩) 5 0

theorem await_completes_awaited :
    ∃ b : Behaviour (System.Step (T := Nat)), b.state 0 = System.async_channel Nat (fun _ => false) ∧
      ∃ n cx result, b.label n = some (.receiver (.ret (.poll cx) (.poll (.Ready result)))) := by
  obtain ⟨b, hstart, hlabel, hend⟩ := Run.exists_behaviour
    (@System.run_of_play Nat (System.async_channel Nat fun _ => false) System.awaited (by decide))
  have hfair : System.Fair b := System.fair_of_rest hend rfl rfl
  have hfirst : b.label 0 = some (.receiver (.call (.poll ⟨1⟩))) := by rw [hlabel]; rfl
  have hsecond : b.label 13 = some (.receiver (.call (.poll ⟨1⟩))) := by rw [hlabel]; rfl
  have hready : b.label 18 = some (.receiver (.ret (.poll ⟨1⟩) (.poll (.Ready (.ok 7))))) := by
    rw [hlabel]; rfl
  have hbound {n : Nat} {l : Label Nat} (hl : b.label n = some l) : n < 19 := by
    rw [hlabel] at hl
    exact (List.getElem?_eq_some_iff.mp hl).1
  have hcalls {n : Nat} {l : Label Nat} (hl : b.label n = some l) (hcall : l.supersedes = true) :
      n = 0 ∨ n = 13 := by
    have hall : ∀ n < 19, ((System.async_channel Nat fun _ => false).labels System.awaited)[n]?.any
        Label.supersedes = true → n = 0 ∨ n = 13 := by decide
    exact hall n (hbound hl) (by rw [← hlabel, hl]; exact hcall)
  have hreturns {n : Nat} {l : Label Nat} (hl : b.label n = some l) (hret : l.returns = true) :
      n = 5 ∨ n = 18 := by
    have hall : ∀ n < 19, ((System.async_channel Nat fun _ => false).labels System.awaited)[n]?.any
        Label.returns = true → n = 5 ∨ n = 18 := by decide
    exact hall n (hbound hl) (by rw [← hlabel, hl]; exact hret)
  refine ⟨b, hstart, await_completes ⟨_, .inr hstart⟩ hfair
    ⟨6, .send 7, by rw [hlabel]; rfl, .inr ⟨7, rfl⟩⟩ ⟨⟨0, _, hfirst⟩, ?_, ?_⟩⟩
  · rintro n cx hcall ⟨m, hm, hpending⟩ _
    obtain rfl | rfl := hcalls hcall rfl
    · exact ⟨13, _, by decide, hsecond⟩
    · obtain rfl | rfl := hreturns hpending rfl
      · exact absurd hm (by decide)
      · rw [hready] at hpending
        cases hpending
  · intro n hdrop
    obtain rfl | rfl := hcalls hdrop rfl
    · rw [hfirst] at hdrop
      cases hdrop
    · rw [hsecond] at hdrop
      cases hdrop

end oneshot
