import Oneshot.Shared
import Oneshot.Properties.Calls

open conc

namespace oneshot

variable {T : Type}

/-- What the observers promise, in a run that has come to `S`. -/
structure ObserversKept (τ : List (Shared.Label T)) (S : Shared T) : Prop where
  /-- A receiver that was closed stays so, and has nothing to receive. -/
  closed : ∀ τ₁ τ₂ c, Shared.sides τ = τ₁ ++ .receiver (.ret c (.observed true)) :: τ₂ →
    c.asksClosed = true → ∀ c' v, .receiver (.ret c' v) ∈ τ₂ →
      (c'.asksClosed = true → v = .observed true) ∧
      (c'.receives = true → Receiver.outcome c' v = some .disconnected)
  /-- A receiver that has a message receives it with its next receive call. -/
  message : ∀ τ₁ τ₂ τ₃ c c' v, Shared.sides τ =
      τ₁ ++ .receiver (.ret c (.observed true)) :: (τ₂ ++ .receiver (.ret c' v) :: τ₃) →
    c.asksMessage = true → c'.receives = true →
    (∀ d w, .receiver (.ret d w) ∈ τ₂ → d.receives = false) →
    ∃ m, sent (Shared.sides τ) = [m] ∧ Receiver.outcome c' v = some (.message m)
  /-- No receive call waits after either answer. -/
  waits : ∀ τ₁ τ₂ c, Shared.sides τ = τ₁ ++ .receiver (.ret c (.observed true)) :: τ₂ →
    (∀ l ∈ τ₂, l.waits = false) ∧ Prompt S.system
  /-- A sender that was closed stays so, whichever thread asks. -/
  asked : ∀ τ₁ τ₂ τ₃ τ₄ i j b, τ = τ₁ ++ .thread i (.ret () true) ::
      (τ₂ ++ .thread j (.call ()) :: (τ₃ ++ .thread j (.ret () b) :: τ₄)) →
    (∀ b, .thread j (.ret () b) ∉ τ₃) → b = true
  /-- And a send fails. -/
  send : ∀ τ₁ τ₂ i c result, τ = τ₁ ++ .thread i (.ret () true) :: τ₂ →
    .side (.sender (.ret c (.send result))) ∈ τ₂ → result = .error {}
  /-- The error has the message. -/
  held : S.system.sender = .idle .send_error →
    ∃ m, sent (Shared.sides τ) = [m] ∧ S.system.memory.channel.message = some m
  returned : ∀ c m, .side (.sender (.ret c (.into_inner m))) ∈ τ → sent (Shared.sides τ) = [m]
  unhindered : Unhindered S.system
  answers : ∀ i c p, S.threads i = .busy c p → p.Ends 1 ∧ ∃ e S', Shared.Step S (.thread i e) S'

namespace Proto

variable {p p' : Proto T} {l : Label T} {τ : List (Label T)} {o : Option T}

/-- An observer of the receiver that has answered `true` has seen the sender's final
    state. -/
theorem Step.observed {c : Receiver.Call} (hstep : Step p (.receiver (.ret c (.observed true))) p') :
    ∃ h x, p'.receiver = .between h (.own x) ∧ x.AtRest ∧
      (c.asksClosed = true → x.state = DISCONNECTED) ∧
      (c.asksMessage = true → x.state = MESSAGE) := by
  obtain ⟨μ, ss, rs, hagree⟩ := p
  obtain ⟨μ', ss', rs', hagree'⟩ := p'
  cases hstep with
  | receiver hsession =>
    generalize hv : Receiver.Ret.observed true = v at hsession
    cases hsession with
    | @ret c v r g hpost =>
      subst hv
      obtain ⟨hready, hpost⟩ := hpost
      cases c with
      | is_closed | async_is_closed =>
        obtain ⟨x, rfl, hstate⟩ := hpost.2 rfl
        exact ⟨_, x, rfl, hready, fun _ => hstate, by rintro ⟨⟩⟩
      | has_message | async_has_message =>
        obtain ⟨x, rfl, hstate⟩ := hpost.2 rfl
        exact ⟨_, x, rfl, hready, by rintro ⟨⟩, fun _ => hstate⟩
      | _ =>
        obtain ⟨o, houtcome, _⟩ := hpost
        cases houtcome

theorem Step.published_of_observed {c : Receiver.Call}
    (hstep : Step p (.receiver (.ret c (.observed true))) p') : ∃ o, p'.s.published = some o := by
  have hagree : Receiver.Role.Agree p'.receiver.role p'.s p'.memory.channel := p'.agree
  obtain ⟨h, x, hreceiver, _⟩ := hstep.observed
  rw [hreceiver] at hagree
  obtain ⟨_, _, sent, hsent, _⟩ := hagree
  exact ⟨sent, hsent⟩

/-- A receiver that has found the channel closed has nothing to receive. -/
theorem Step.over {c : Receiver.Call} (hstep : Step p (.receiver (.ret c (.observed true))) p')
    (hc : c.asksClosed = true) : Receiver.Over p'.receiver := by
  obtain ⟨h, x, hreceiver, ⟨_, ⟨hmessage, _⟩ | ⟨_, hfull, _⟩⟩, hclosed, _⟩ := hstep.observed
  · rw [hclosed hc] at hmessage
    simp at hmessage
  · rw [hreceiver]
    exact .inr (.inl ⟨x, rfl, hfull⟩)

/-- A receiver that has found a message is to receive it. -/
theorem Step.due {c : Receiver.Call} (hstep : Step p (.receiver (.ret c (.observed true))) p')
    (hc : c.asksMessage = true) :
    ∃ m, p'.s.published = some (some m) ∧ Receiver.Due (some m) p'.receiver := by
  have hagree : Receiver.Role.Agree p'.receiver.role p'.s p'.memory.channel := p'.agree
  obtain ⟨h, x, hreceiver, ⟨_, ⟨_, hfull, _⟩ | ⟨hclosed, _⟩⟩, _, hmessage⟩ := hstep.observed
  · rw [hreceiver] at hagree ⊢
    obtain ⟨_, _, sent, hsent, hmatches⟩ := hagree
    obtain ⟨m, rfl, _⟩ := hmatches.full hfull
    exact ⟨m, hsent, .inr (.inr (.inl ⟨x, rfl, hfull⟩))⟩
  · rw [hmessage hc] at hclosed
    simp at hclosed

end Proto

namespace Receiver

/-- A call that asks whether the channel is closed will answer that it is. -/
def Answering (st : (receiver T).State) (r : Role T) : Prop :=
  ∀ c q, st = .busy c q → c.asksClosed = true → q = .ret (.observed true) ∨
    (q = access (.load .Relaxed) >>= fun v => .ret (.observed (v == DISCONNECTED))) ∧
      ∃ x, r = .own x ∧ x.state = DISCONNECTED

/-- A receiver with nothing to receive that asks is about to read `DISCONNECTED`. -/
theorem answering_call {h : Handle} {c : Call} {r : Role T}
    (haccepts : (receiver T).accepts h c = true) (hready : Ready h r)
    (hover : Over (.between h r)) : Answering (.busy c ((receiver T).code c)) r := by
  rintro _ _ ⟨⟩ hc
  refine .inr ⟨?_, ?_⟩
  · cases c <;> first | rfl | cases hc
  · obtain rfl | ⟨x, rfl, hfull⟩ | ⟨content, seen, rfl⟩ := hover
    · cases c <;> cases haccepts
    · have hrest : x.AtRest := by cases h <;> first | exact hready | exact hready.elim
      obtain ⟨_, ⟨_, hfull', _⟩ | ⟨hstate, _⟩⟩ := hrest
      · rw [hfull] at hfull'
        cases hfull'
      · exact ⟨x, rfl, hstate⟩
    · cases h <;> first | exact hready.elim | (cases c <;> cases haccepts)

/-- Nothing but the drop of the receiver closes the channel to a sender that has done
    nothing. -/
theorem Role.Agree.left_of_fresh {r : Role T} {x : Channel T}
    (hagree : r.Agree .fresh x) (hstate : x.state = DISCONNECTED) : r = .left := by
  cases r <;>
    simp_all [Role.Agree, Sender.Role.Before, Sender.Role.Window, Sender.Role.Notified,
      Sender.Role.Finished, Sender.Role.published]

end Receiver

namespace Proto

variable {p p' : Proto T} {l : Label T} {τ : List (Label T)} {h : Receiver.Handle}
  {token : Thread → Bool}

/-- Once the receiver has nothing to receive, a question it asks is answered with
    `true`. -/
theorem Simulates.closed_step {σ σ' : System T} (hsim : Simulates σ p)
    (hover : Receiver.Over p.receiver) (hanswering : Receiver.Answering σ.receiver p.r)
    (hstep : System.Step σ l σ') : ∃ p', Simulates σ' p' ∧ Receiver.Over p'.receiver ∧
      Receiver.Answering σ'.receiver p'.r ∧ ∀ c v, l = .receiver (.ret c v) →
        (c.asksClosed = true → v = .observed true) ∧
        (c.receives = true → Receiver.outcome c v = some .disconnected) := by
  obtain ⟨p', hp, hsim'⟩ := hsim.step hstep
  obtain ⟨hover', hreceives⟩ := over_step hp hover
  refine ⟨p', hsim', hover', ?_⟩
  cases hstep with
  | sender | stray =>
    refine ⟨?_, by rintro _ _ ⟨⟩⟩
    rw [hp.role_of_other rfl]
    exact hanswering
  | @receiver e st' μ' hstep =>
    obtain ⟨memory, sender, receiver⟩ := σ
    obtain ⟨μ, ss, rs, hagree⟩ := p
    obtain ⟨rfl, _, hr⟩ := hsim
    cases hstep with
    | call haccepts =>
      refine ⟨?_, by rintro _ _ ⟨⟩⟩
      rw [hp.role_of_quiet rfl]
      cases hr with
      | idle hready => exact Receiver.answering_call haccepts hready hover
    | @act c a k v _ _ hacts =>
      refine ⟨?_, by rintro _ _ ⟨⟩⟩
      rintro _ _ ⟨⟩ hc
      obtain h | ⟨h, x, hx, hstate⟩ := hanswering _ _ rfl hc
      · cases h
      · cases h
        replace hx : Receiver.Role.own x = rs.role := hx.symm
        rw [← hx] at hagree
        refine .inl ?_
        rw [(Memory.acts_load hacts).1, hagree.1, hstate]
        rfl
    | enter =>
      refine ⟨?_, by rintro _ _ ⟨⟩⟩
      rintro _ _ ⟨⟩ hc
      obtain h | ⟨h, _⟩ := hanswering _ _ rfl hc <;> cases h
    | ret =>
      refine ⟨by rintro _ _ ⟨⟩, ?_⟩
      rintro _ _ ⟨⟩
      refine ⟨fun hc => ?_, hreceives _ _ rfl⟩
      obtain h | ⟨h, _⟩ := hanswering _ _ rfl hc <;> cases h
      rfl

theorem Simulates.closed_run {σ σ' : System T} (hsim : Simulates σ p)
    (hover : Receiver.Over p.receiver) (hanswering : Receiver.Answering σ.receiver p.r)
    (hrun : Run System.Step σ τ σ') {c : Receiver.Call} {v : Receiver.Ret T}
    (hmem : .receiver (.ret c v) ∈ τ) : (c.asksClosed = true → v = .observed true) ∧
      (c.receives = true → Receiver.outcome c v = some .disconnected) := by
  have hall := hrun.always
    (P := fun σ => ∃ p, Simulates σ p ∧ Receiver.Over p.receiver ∧ Receiver.Answering σ.receiver p.r)
    (Q := fun l => ∀ c v, l = .receiver (.ret c v) → (c.asksClosed = true → v = .observed true) ∧
      (c.receives = true → Receiver.outcome c v = some .disconnected))
    (fun σ l σ' h hstep => by
      obtain ⟨p, hsim, hover, hanswering⟩ := h
      obtain ⟨p', hsim', hover', hanswering', hl⟩ := hsim.closed_step hover hanswering hstep
      exact ⟨⟨p', hsim', hover', hanswering'⟩, hl⟩) ⟨p, hsim, hover, hanswering⟩
  exact hall.2 _ hmem c v rfl

/-- A receiver that was dropped before the sender was done is gone for good. -/
theorem Step.left (hstep : Step p l p') (hr : p.r = .left) : p'.r = .left := by
  cases hstep.moves with
  | still _ _ hr' => rw [hr', hr]
  | sender _ hr' => rw [hr', hr]
  | receiver hmove =>
    rw [hr] at hmove
    cases hmove

/-- A sender that is there reads `DISCONNECTED` if its receiver was dropped. -/
theorem Simulates.closed_iff {σ : System T} (hsim : Simulates σ p)
    (hsender : σ.sender = .idle .sender) :
    σ.memory.channel.state = DISCONNECTED ↔ p.r = .left := by
  obtain ⟨memory, sender, receiver⟩ := σ
  obtain ⟨μ, ss, rs, hagree⟩ := p
  obtain ⟨rfl, hs, _⟩ := hsim
  obtain rfl : sender = .idle .sender := hsender
  cases hs with
  | @idle _ s hready =>
    have hfresh : s = .fresh := by cases s <;> first | rfl | exact hready.elim
    subst hfresh
    replace hagree : Receiver.Role.Agree rs.role .fresh μ.channel := hagree
    constructor
    · exact hagree.left_of_fresh
    · intro hr
      replace hr : rs.role = .left := hr
      rw [hr] at hagree
      obtain h | h := hagree
      · exact h.holds.1
      · exact h.elim

/-- What there is after a call of the receiver has returned. -/
theorem Simulates.after_ret {σ₀ σ : System T} {p₀ : Proto T} {τ₁ τ₂ : List (Label T)}
    {c : Receiver.Call} {v : Receiver.Ret T} (hsim : Simulates σ₀ p₀)
    (hrun : Run System.Step σ₀ (τ₁ ++ .receiver (.ret c v) :: τ₂) σ) :
    ∃ p₁ p₂ σ₂ h, Run Step p₀ τ₁ p₁ ∧ Step p₁ (.receiver (.ret c v)) p₂ ∧ Simulates σ₂ p₂ ∧
      σ₂.receiver = .idle h ∧ Run System.Step σ₂ τ₂ σ := by
  obtain ⟨σ₁, hfirst, hrest⟩ := hrun.split
  obtain ⟨σ₂, hret, hrun₂⟩ := hrest.cons_inv
  obtain ⟨p₁, hp₁, hsim₁⟩ := hsim.run hfirst
  obtain ⟨p₂, hp₂, hsim₂⟩ := hsim₁.step hret
  have hidle : ∃ h, σ₂.receiver = .idle h := by
    cases hret with
    | receiver hstep =>
      generalize σ₁.receiver = st at hstep
      cases hstep with
      | ret => exact ⟨_, rfl⟩
  obtain ⟨h, hidle⟩ := hidle
  exact ⟨p₁, p₂, σ₂, h, hp₁, hp₂, hsim₂, hidle, hrun₂⟩

/-- A send fails once the receiver is gone. -/
theorem send_fails {c : Sender.Call T} {result : Except SendError Unit} (hrun : Run Step p τ p')
    (hr : p.r = .left) (hmem : .sender (.ret c (.send result)) ∈ τ) : result = .error {} := by
  have hall := hrun.always (P := fun p => p.r = .left)
    (Q := fun l => l = .sender (.ret c (.send result)) → result = .error {})
    (fun p l p' hr hstep => by
      refine ⟨hstep.left hr, ?_⟩
      rintro rfl
      obtain ⟨_, m, hs⟩ | ⟨hresult, _⟩ := hstep.send_ret
      · have hagree : Receiver.Role.Agree p.r p.s p.memory.channel := p.agree
        rw [hr, hs] at hagree
        obtain h | h := hagree <;> exact h.elim
      · exact hresult) hr
  exact hall.2 _ hmem rfl

/-- The error of a failed send has the message. -/
theorem Simulates.held {σ : System T} (hsim : Simulates σ p) (hledger : Ledger τ p)
    (hsender : σ.sender = .idle .send_error) :
    ∃ m, oneshot.sent τ = [m] ∧ σ.memory.channel.message = some m := by
  obtain ⟨sent, hsent, hcarried⟩ := hledger.sent
  obtain ⟨memory, sender, receiver⟩ := σ
  obtain ⟨μ, ss, rs, hagree⟩ := p
  obtain ⟨rfl, hs, _⟩ := hsim
  obtain rfl : sender = .idle .send_error := hsender
  cases hs with
  | @idle _ s hready =>
    have hfailed : ∃ m, s = .failed m := by
      cases s <;> first | exact ⟨_, rfl⟩ | exact hready.elim
    obtain ⟨m, rfl⟩ := hfailed
    obtain rfl : sent = some m := carries_role hcarried
    exact ⟨m, hsent, hagree.of_failed⟩

/-- A sender that has freed the channel is done with it. -/
theorem Step.freed {content : Content T} (hstep : Step p l p') (hs : p.s = .freed content) :
    p'.s = .freed content := by
  cases hstep.moves with
  | still _ hs' => rw [hs', hs]
  | receiver _ hs' => rw [hs', hs]
  | sender hmove =>
    rw [hs] at hmove
    cases hmove

/-- And gives it back. -/
theorem into_inner_run {c : Sender.Call T} {m : T} (hrun : Run Step (init h token) τ p)
    (hmem : .sender (.ret c (.into_inner m)) ∈ τ) : oneshot.sent τ = [m] := by
  obtain ⟨sent, hsent, hcarried⟩ := (ledger_run hrun).sent
  obtain ⟨τ₁, τ₂, rfl⟩ := List.append_of_mem hmem
  obtain ⟨p₁, _, hrest⟩ := hrun.split
  obtain ⟨p₂, hret, hp⟩ := hrest.cons_inv
  have hs₂ : p₂.s = .freed (.taken m) := by
    obtain ⟨μ, ss, rs, _⟩ := p₁
    obtain ⟨μ', ss', rs', _⟩ := p₂
    cases hret with
    | sender hsession =>
      generalize hv : Sender.Ret.into_inner m = v at hsession
      cases hsession with
      | @ret c _ s g hpost =>
        subst hv
        cases c with
        | into_inner => exact hpost.1
        | _ => exact hpost.elim
  have hs : p.s = .freed (.taken m) :=
    hp.keeps (P := fun p => p.s = .freed (.taken m)) (fun _ _ _ h hstep => hstep.freed h) hs₂
  have hcarries : Sender.Role.Carries sent p.s := carries_role hcarried
  rw [hs] at hcarries
  obtain rfl : sent = some m := hcarries.1
  exact hsent

end Proto

namespace Shared

variable {S S' : Shared T} {p : Proto T} {l : Label T}

/-- A thread that asks is not about to answer `true` unless the receiver was dropped. -/
def Truthful (r : Receiver.Role T) : (Sender.shared T).State → Prop
  | .idle _ => True
  | .busy _ q => q = Sender.is_closed ∨ ∃ b, q = .ret b ∧ (b = true → r = .left)

/-- The protocol as the sides and the threads see it. -/
structure Simulates (S : Shared T) (p : Proto T) : Prop where
  system : Proto.Simulates S.system p
  threads : ∀ i, Truthful p.r (S.threads i)

theorem Truthful.asking {r : Receiver.Role T} {st : (Sender.shared T).State}
    (htruthful : Truthful r st) : Asking st := by
  cases st with
  | idle => trivial
  | busy _ q => exact htruthful.imp id fun ⟨b, hq, _⟩ => ⟨b, hq⟩

theorem Truthful.of_left {r r' : Receiver.Role T} {st : (Sender.shared T).State}
    (htruthful : Truthful r st) (hr : r = .left → r' = .left) : Truthful r' st := by
  cases st with
  | idle => trivial
  | busy _ q => exact htruthful.imp id fun ⟨b, hq, hb⟩ => ⟨b, hq, fun h => hr (hb h)⟩

theorem Truthful.step {r : Receiver.Role T} {st st' : (Sender.shared T).State} {μ μ' : Memory T}
    {e : (Sender.shared T).Event} (htruthful : Truthful r st)
    (hclosed : μ.channel.state = DISCONNECTED → r = .left)
    (hstep : (Sender.shared T).Step Memory.Acts st μ e st' μ') :
    μ' = μ ∧ Truthful r st' ∧ (e = .ret () true → r = .left) := by
  cases hstep with
  | call => exact ⟨rfl, .inl rfl, by rintro ⟨⟩⟩
  | @act c a k v _ _ hacts =>
    obtain h | ⟨b, h, _⟩ := htruthful
    · cases h
      obtain ⟨hv, rfl⟩ := Memory.acts_load hacts
      refine ⟨rfl, .inr ⟨_, rfl, fun hb => hclosed ?_⟩, by rintro ⟨⟩⟩
      rw [← hv]
      exact eq_of_beq hb
    · cases h
  | enter => obtain h | ⟨b, h, _⟩ := htruthful <;> cases h
  | ret =>
    refine ⟨rfl, trivial, fun he => ?_⟩
    cases he
    obtain h | ⟨b, h, hb⟩ := htruthful
    · cases h
    · cases h
      exact hb rfl

/-- Once a thread has answered `true` the receiver is gone for good. -/
theorem Simulates.step (hsim : Simulates S p) (hstep : Step S l S') :
    ∃ p', Simulates S' p' ∧ (p.r = .left → p'.r = .left) ∧
      ∀ i, l = .thread i (.ret () true) → p'.r = .left := by
  cases hstep with
  | side hstep =>
    obtain ⟨p', hp, hsystem⟩ := hsim.system.step hstep
    exact ⟨p', ⟨hsystem, fun i => (hsim.threads i).of_left hp.left⟩, hp.left, by rintro _ ⟨⟩⟩
  | @thread i e st' μ' hsender hstep =>
    obtain ⟨rfl, htruthful, hret⟩ :=
      (hsim.threads i).step (hsim.system.closed_iff hsender).mp hstep
    refine ⟨p, ⟨hsim.system, fun j => ?_⟩, id, ?_⟩
    · by_cases hj : j = i
      · simpa [setThread, hj] using htruthful
      · simpa [setThread, hj] using hsim.threads j
    · rintro _ ⟨⟩
      exact hret rfl

/-- The receiver is gone, and a thread that has asked since will be told so. -/
def Told (j : Nat) (S : Shared T) : Prop :=
  ∃ p, Simulates S p ∧ p.r = .left ∧
    (S.threads j = .busy () Sender.is_closed ∨ S.threads j = .busy () (.ret true))

theorem Told.step {j : Nat} (htold : Told j S) (hstep : Step S l S')
    (hl : ∀ b, l ≠ .thread j (.ret () b)) : Told j S' := by
  obtain ⟨p, hsim, hr, hj⟩ := htold
  obtain ⟨p', hsim', hleft, _⟩ := hsim.step hstep
  refine ⟨p', hsim', hleft hr, ?_⟩
  cases hstep with
  | side => exact hj
  | @thread i e st' μ' hsender hstep =>
    by_cases hi : j = i
    · subst hi
      have hset : (S.setThread j st' μ').threads j = st' := by simp [setThread]
      rw [hset]
      obtain hj | hj := hj
      · rw [hj] at hstep
        cases hstep with
        | act hacts =>
          have hstate := (hsim.system.closed_iff hsender).mpr hr
          refine .inr ?_
          rw [(Memory.acts_load hacts).1, hstate]
          rfl
      · rw [hj] at hstep
        cases hstep with
        | ret => exact (hl _ rfl).elim
    · simpa [setThread, hi] using hj

/-- What is asked after the answer `true` is answered with `true`. -/
theorem Simulates.asked {τ₂ τ₃ τ₄ : List (Label T)} {j : Nat} {b : Bool} (hsim : Simulates S p)
    (hr : p.r = .left)
    (hrun : Run Step S (τ₂ ++ .thread j (.call ()) :: (τ₃ ++ .thread j (.ret () b) :: τ₄)) S')
    (hτ₃ : ∀ b, .thread j (.ret () b) ∉ τ₃) : b = true := by
  have hleft (S : Shared T) (l : Label T) (S' : Shared T)
      (h : ∃ p, Simulates S p ∧ p.r = .left) (hstep : Step S l S') :
      ∃ p, Simulates S' p ∧ p.r = .left := by
    obtain ⟨p, hsim, hr⟩ := h
    obtain ⟨p', hsim', hkeep, _⟩ := hsim.step hstep
    exact ⟨p', hsim', hkeep hr⟩
  obtain ⟨S₁, hbefore, hrest₁⟩ := hrun.split
  obtain ⟨S₂, hcall, hrest₂⟩ := hrest₁.cons_inv
  obtain ⟨S₃, hduring, hrest₃⟩ := hrest₂.split
  obtain ⟨S₄, hret, _⟩ := hrest₃.cons_inv
  have hleft₂ := hleft _ _ _ (hbefore.keeps hleft ⟨p, hsim, hr⟩) hcall
  have htold₂ : Told j S₂ := by
    obtain ⟨p₂, hsim₂, hr₂⟩ := hleft₂
    refine ⟨p₂, hsim₂, hr₂, .inl ?_⟩
    cases hcall with
    | thread _ hstep =>
      generalize S₁.threads j = st at hstep
      cases hstep with
      | call => exact if_pos rfl
  have htold₃ : Told j S₃ :=
    (hduring.attach (Q := fun l => ∀ b, l ≠ .thread j (.ret () b))
      fun l hl b heq => hτ₃ b (heq ▸ hl)).keeps (fun _ _ _ h hstep => h.step hstep.1 hstep.2) htold₂
  obtain ⟨p₃, _, _, hj⟩ := htold₃
  cases hret with
  | thread _ hstep =>
    obtain hj | hj := hj
    · rw [hj] at hstep
      cases hstep
    · rw [hj] at hstep
      cases hstep
      rfl

/-- What there is after a thread has been told that the receiver is gone. -/
theorem Simulates.after_told {S₀ : Shared T} {τ₁ τ₂ : List (Label T)} {i : Nat}
    (hsim : Simulates S₀ p) (hrun : Run Step S₀ (τ₁ ++ .thread i (.ret () true) :: τ₂) S) :
    ∃ S₂ p₂, Simulates S₂ p₂ ∧ p₂.r = .left ∧ Run Step S₂ τ₂ S := by
  obtain ⟨S₁, hfirst, hrest⟩ := hrun.split
  obtain ⟨S₂, hret, hrun₂⟩ := hrest.cons_inv
  obtain ⟨p₁, hsim₁⟩ : ∃ p, Simulates S₁ p :=
    hfirst.keeps (P := fun S => ∃ p, Simulates S p) (fun _ _ _ ⟨_, h⟩ hstep => by
      obtain ⟨p', h', _⟩ := h.step hstep
      exact ⟨p', h'⟩) ⟨p, hsim⟩
  obtain ⟨p₂, hsim₂, _, hleft⟩ := hsim₁.step hret
  exact ⟨S₂, p₂, hsim₂, hleft i rfl, hrun₂⟩

/-- A thread that asks gets its answer. -/
theorem answers_run {S₀ : Shared T} {τ : List (Label T)} (hidle : ∀ i, S₀.threads i = .idle ())
    (hrun : Run Step S₀ τ S) {i : Nat} {q : Code T Bool} (hbusy : S.threads i = .busy () q) :
    q.Ends 1 ∧ ∃ e S', Step S (.thread i e) S' := by
  have hsender := sender_of_busy hrun hidle hbusy
  have hasking := (sides_run hrun fun i => by rw [hidle i]; trivial).2 i
  rw [hbusy] at hasking
  obtain rfl | ⟨b, rfl⟩ := hasking
  · obtain ⟨v, μ', hacts⟩ := @Memory.exists_acts T S.system.memory (.load .Relaxed) trivial
    have hstep : (Sender.shared T).Step Memory.Acts (.busy () Sender.is_closed) S.system.memory
      (.act ⟨.load .Relaxed, v⟩) (.busy () (.ret (v == DISCONNECTED))) μ' := .act hacts
    rw [← hbusy] at hstep
    exact ⟨Sender.is_closed_ends, _, _, .thread hsender hstep⟩
  · have hstep : (Sender.shared T).Step Memory.Acts (.busy () (.ret b)) S.system.memory
      (.ret () b) (.idle ()) S.system.memory := .ret
    rw [← hbusy] at hstep
    exact ⟨Program.ends_ret b 1, _, _, .thread hsender hstep⟩

theorem observers_of_run {S₀ : Shared T} {h : Receiver.Handle} {token : Thread → Bool}
    {τ : List (Label T)} (hsim : Proto.Simulates S₀.system (Proto.init h token))
    (hidle : ∀ i, S₀.threads i = .idle ()) (hrun : Run Step S₀ τ S)
    (hpaced : S₀.system.receiver.Paced Access.reads 10 10 true)
    (hunhindered : Unhindered S.system) : ObserversKept τ S := by
  have hasking (i : Nat) : Asking (S₀.threads i) := by rw [hidle i]; trivial
  have hsim₀ : Simulates S₀ (Proto.init h token) := ⟨hsim, fun i => by rw [hidle i]; trivial⟩
  obtain ⟨hsides, hasking'⟩ := sides_run hrun hasking
  obtain ⟨p, hp, hsim'⟩ := hsim.run hsides
  refine ⟨?_, ?_, ?_, ?_, ?_, ?_, ?_, hunhindered, fun i c q hbusy => answers_run hidle hrun hbusy⟩
  · intro τ₁ τ₂ c hτ hc c' v hmem
    rw [hτ] at hsides
    obtain ⟨_, p₂, σ₂, _, _, hret, hsim₂, hidle₂, hrun₂⟩ := hsim.after_ret hsides
    refine hsim₂.closed_run (hret.over hc) ?_ hrun₂ hmem
    rw [hidle₂]
    rintro _ _ ⟨⟩
  · intro τ₁ τ₂ τ₃ c c' v hτ hc hc' hτ₂
    rw [hτ] at hsides
    obtain ⟨_, p₂, σ₂, _, hp₁, hret, hsim₂, _, hrun₂⟩ := hsim.after_ret hsides
    obtain ⟨m, hs, hdue⟩ := hret.due hc
    obtain ⟨p', hp', _⟩ := hsim₂.run hrun₂
    have hledger := Proto.ledger_run ((hp₁.snoc hret).trans hp')
    rw [← List.append_cons, ← hτ] at hledger
    refine ⟨m, hledger.sent_of_published (Proto.published_run hp' hs), ?_⟩
    refine Proto.due_return hp' hs hdue ?_ hc'
    rintro _ hl d w rfl
    exact hτ₂ d w hl
  · intro τ₁ τ₂ c hτ
    obtain ⟨n, looked, hn, hpaced'⟩ := Proto.paced_run hsides hpaced
    rw [hτ] at hsides
    obtain ⟨_, p₂, σ₂, h₂, _, hret, hsim₂, hidle₂, hrun₂⟩ := hsim.after_ret hsides
    obtain ⟨o, ho⟩ := hret.published_of_observed
    obtain ⟨p', hp', hsim'⟩ := hsim₂.run hrun₂
    exact ⟨Proto.swift_run hsim₂ ho (.inr (.inr (.inl ⟨h₂, hidle₂⟩))) hrun₂,
      hsim'.prompt hn hpaced' (Proto.published_run hp' ho)⟩
  · rintro τ₁ τ₂ τ₃ τ₄ i j b rfl hτ₃
    obtain ⟨S₂, p₂, hsim₂, hr₂, hrun₂⟩ := hsim₀.after_told hrun
    exact hsim₂.asked hr₂ hrun₂ hτ₃
  · rintro τ₁ τ₂ i c result rfl hmem
    obtain ⟨S₂, p₂, hsim₂, hr₂, hrun₂⟩ := hsim₀.after_told hrun
    obtain ⟨hsides₂, _⟩ := sides_run hrun₂ fun i => (hsim₂.threads i).asking
    obtain ⟨p', hp', _⟩ := hsim₂.system.run hsides₂
    exact Proto.send_fails hp' hr₂ (List.mem_filterMap.mpr ⟨_, hmem, rfl⟩)
  · exact hsim'.held (Proto.ledger_run hp)
  · intro c m hmem
    exact Proto.into_inner_run hp (List.mem_filterMap.mpr ⟨_, hmem, rfl⟩)

end Shared

/-- In every run of a channel of either kind, whose sender any number of threads share:
    what an observer has answered stays true. -/
theorem observers_kept {S₀ S : Shared T} {τ : List (Shared.Label T)} (hinitial : S₀.Initial)
    (hrun : Run Shared.Step S₀ τ S) : ObserversKept τ S := by
  obtain ⟨⟨token, hsystem⟩, hidle⟩ := hinitial
  have hsides := (Shared.sides_run hrun fun i => by rw [hidle i]; trivial).1
  obtain ⟨σ₀, threads⟩ := S₀
  obtain rfl | rfl := hsystem
  · have hsim := Proto.simulates_channel (T := T) token
    exact Shared.observers_of_run hsim hidle hrun (fun _ _ h => by cases h)
      (hsim.wakeup hsides fun _ _ h => by cases h).2
  · have hsim := Proto.simulates_async_channel (T := T) token
    exact Shared.observers_of_run hsim hidle hrun (fun _ _ h => by cases h)
      (hsim.wakeup hsides fun _ _ h => by cases h).2

/-- A channel whose receiver was dropped at once. -/
def closed_channel : System Nat :=
  (System.channel Nat fun _ => false).reached (System.receives .drop 2 0)

theorem observers_kept_closed_channel :
    ObserversKept
      (((System.channel Nat fun _ => false).labels (System.receives .drop 2 0)).map .side ++
        Shared.question 0 closed_channel.memory.channel.state ++
        Shared.question 1 closed_channel.memory.channel.state ++
        (closed_channel.labels (System.sends (.send 5) 3)).map .side)
      (Shared.quiet (closed_channel.reached (System.sends (.send 5) 3))) := by
  have hdrop := @Shared.quiet_run Nat (System.channel Nat fun _ => false) closed_channel _
    (System.run_of_play (by decide)) (by decide)
  have hask := (@Shared.question_run Nat closed_channel 0 rfl).trans (Shared.question_run 1 rfl)
  have hsend := @Shared.quiet_run Nat closed_channel
    (closed_channel.reached (System.sends (.send 5) 3)) _ (System.run_of_play (by decide)) (by decide)
  have hrun := (hdrop.trans hask).trans hsend
  rw [← List.append_assoc] at hrun
  exact observers_kept ⟨⟨_, .inl rfl⟩, fun _ => rfl⟩ hrun

end oneshot
