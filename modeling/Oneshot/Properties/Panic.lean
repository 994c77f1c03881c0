import Oneshot.Protocol.Recovery
import Oneshot.Properties.Calls

open conc

namespace oneshot

variable {T : Type}

/-- What an action does with the message cell. -/
def messageOp : (interface T).Action → Option (CellOp T)
  | ⟨.write_message message, _⟩ => some (.put message)
  | ⟨.take_message, message⟩ => some (.take message)
  | ⟨.drop_message, _⟩ => some .drop
  | _ => none

def Label.messageOp (l : Label T) : Option (CellOp T) := l.action.bind oneshot.messageOp

/-- What a run has done with the message cell. -/
def messageLog (τ : List (Label T)) : List (CellOp T) := τ.filterMap Label.messageOp

/-- What a run in which wakers may panic says of a channel that has come to `σ`. -/
structure PanicsContained (τ : List (Unwinding.Label T)) (σ : System T) : Prop where
  /-- Each cell is filled only while it is empty, and emptied only while it is full. -/
  wakers : CellLog (wakerLog (Unwinding.plain τ)) σ.memory.channel.waker
  messages : CellLog (messageLog (Unwinding.plain τ)) σ.memory.channel.message
  provides : ∀ a, σ.sender.next = some a ∨ σ.receiver.next = some a → σ.memory.channel.Provides a
  /-- A `poll` that was left by an access that unwinds has put nothing into the channel, and
      the waker of an earlier one is the sender's. -/
  thrown : ∀ τ₁ α τ₂, τ = τ₁ ++ .receiver α :: τ₂ → (∀ l ∈ τ₂, l.plain.ofReceiver = false) →
    σ.memory.channel.state ≠ RECEIVING ∧
      (σ.memory.channel.waker = none ∨ σ.sender.next = some .take_waker)
  /-- Neither side is in an `unreachable!()` arm. -/
  sender : ∀ c, σ.sender ≠ .busy c .unreachable
  receiver : ∀ c, σ.receiver ≠ .busy c .unreachable
  /-- A `poll` that starts once the sender has written its final state, and returns, returns
      the message, unless it was received before. -/
  received : ∀ τ₁ cx τ₂ c v τ₃ message,
    τ = τ₁ ++ .step (.receiver (.call (.poll cx))) :: (τ₂ ++ .step (.receiver (.ret c v)) :: τ₃) →
    (∀ l ∈ τ₂, l.leaves = false) → (∃ l ∈ τ₁, l.plain.finishes = true) →
    sent (Unwinding.plain τ₁) = [message] →
    (∀ m, Fate.received m ∉ fates (Unwinding.plain τ₁)) →
    c = .poll cx ∧ v = .poll (.Ready (.ok message))
  /-- It returns or unwinds soon, and is never kept from its next step. -/
  soon : ∀ τ₁ cx τ₂, τ = τ₁ ++ .step (.receiver (.call (.poll cx))) :: τ₂ →
    (∀ l ∈ τ₂, l.leaves = false) → (∃ l ∈ τ₁, l.plain.finishes = true) →
    τ₂.countP (fun l => l.plain.ofReceiver) ≤ 22 ∧ ∃ e σ', System.Step σ (.receiver e) σ'

/-- The sender writes its message into an empty cell. -/
theorem Sender.Role.Move.write_empty {s s' : Role T} {r : Receiver.Role T} {x : Channel T}
    {message : T} (hmove : s.Move ⟨.write_message message, ()⟩ s') (hagree : r.Agree s x) :
    x.message = none := by
  cases hmove with
  | write =>
    cases r <;>
      simp_all [Receiver.Role.Agree, Role.Before, Role.Window, Role.Notified, Role.Finished,
        Role.Failed, Role.published]

theorem Receiver.Role.Move.no_write {r r' : Role T} {message : T}
    (hmove : r.Move ⟨.write_message message, ()⟩ r') : False := by
  cases hmove

/-- An access goes on with the log of the message cell, if it fills only an empty one. -/
theorem messageLog_act {x : Channel T} {log : List (CellOp T)} {α : (interface T).Action}
    (hlog : CellLog log x.message)
    (hempty : ∀ message, α = ⟨.write_message message, ()⟩ → x.message = none)
    (hanswers : x.Answers α.access α.resp) :
    CellLog (log ++ (messageOp α).toList) (x.update α.access).message := by
  obtain ⟨a, v⟩ := α
  cases a with
  | write_message message =>
    rw [hempty message rfl] at hlog
    exact hlog.put message
  | take_message =>
    have hmessage : x.message = some v := hanswers
    rw [hmessage] at hlog
    exact hlog.take
  | drop_message =>
    obtain ⟨message, hmessage⟩ := Option.isSome_iff_exists.mp hanswers
    rw [hmessage] at hlog
    exact hlog.drop
  | compare_exchange current new success failure =>
    have hkeep : (x.update (.compare_exchange current new success failure)).message = x.message := by
      simp only [Channel.update]
      split <;> rfl
    rw [hkeep]
    simpa [messageOp] using hlog
  | _ => simpa [messageOp, Channel.update] using hlog

/-- A receiver that was left by an access that unwinds has done nothing with the message. -/
theorem Receiver.Role.Thrown.fates {r : Role T} (hr : r.Thrown) : r.fates = [] := by
  cases r with
  | own x =>
    obtain ⟨state, message, waker, seen, intact⟩ := x
    obtain ⟨_, _, hfinal⟩ := hr
    cases hfinal <;> rfl
  | idle | caught => rfl
  | _ => exact hr.elim

/-- What a `poll` that takes the message returns. -/
theorem poll_of_outcome {cx : Waker} {v : Receiver.Ret T} {message : T}
    (houtcome : Receiver.outcome (.poll cx) v = some (.message message)) :
    v = .poll (.Ready (.ok message)) := by
  cases v with
  | poll result =>
    obtain (_ | m) | _ := result
    · cases houtcome
    · cases houtcome
      rfl
    · cases houtcome
  | _ => cases houtcome

namespace Proto

variable {p p' : Proto T} {τ : List (Label T)} {l : Label T}

theorem Step.messages (hstep : Step p l p')
    (hlog : CellLog (messageLog τ) p.memory.channel.message) :
    CellLog (messageLog (τ ++ [l])) p'.memory.channel.message := by
  have hagree : Receiver.Role.Agree p.r p.s p.memory.channel := p.agree
  have hτ : messageLog (τ ++ [l]) = messageLog τ ++ l.messageOp.toList := filterMap_snoc _ _ _
  cases hstep.moves with
  | still hl _ _ hchannel =>
    rw [hτ, hchannel, Label.messageOp, hl]
    simpa using hlog
  | @sender α _ hmove _ hacts =>
    obtain ⟨env, hexec⟩ := hacts
    obtain ⟨hanswers, hupdate⟩ := Memory.exec_channel hexec
    rw [hτ, hupdate]
    refine messageLog_act hlog ?_ hanswers
    rintro message rfl
    exact hmove.write_empty hagree
  | @receiver α _ hmove _ hacts =>
    obtain ⟨env, hexec⟩ := hacts
    obtain ⟨hanswers, hupdate⟩ := Memory.exec_channel hexec
    rw [hτ, hupdate]
    refine messageLog_act hlog ?_ hanswers
    rintro message rfl
    exact hmove.no_write.elim

/-- What the receiver has told of the message is among the fates that a run shows. -/
theorem Step.told (hstep : Step p l p') (hremembers : Receiver.Remembers p.receiver)
    (htold : Receiver.told p.receiver ⊆ fates τ) :
    Receiver.told p'.receiver ⊆ fates (τ ++ [l]) ∧ Receiver.Remembers p'.receiver := by
  have hτ : fates (τ ++ [l]) = fates τ ++ l.fate.toList := filterMap_snoc _ _ _
  have hmore : fates τ ⊆ fates (τ ++ [l]) := by
    rw [hτ]
    exact List.subset_append_left _ _
  cases hstep with
  | sender _ _ hreceiver | stray _ _ _ hreceiver =>
    rw [hreceiver]
    exact ⟨List.Subset.trans htold hmore, hremembers⟩
  | receiver hsession =>
    obtain ⟨hsame, hremembers'⟩ := Receiver.told_step hsession hremembers
    refine ⟨?_, hremembers'⟩
    rw [hsame]
    refine List.append_subset.mpr ⟨List.Subset.trans htold hmore, ?_⟩
    rw [hτ]
    exact List.subset_append_right _ _

/-- What a run has done with the two cells and with the message, as far as it is the same
    whether or not an access unwinds. -/
structure Held (τ : List (Label T)) (p : Proto T) : Prop where
  wakers : WakerLedger τ p
  messages : CellLog (messageLog τ) p.memory.channel.message
  sent : ∃ o : Option T, sent τ = o.toList ∧ Sender.Carries o p.sender
  told : Receiver.told p.receiver ⊆ fates τ
  remembers : Receiver.Remembers p.receiver
  spared : Receiver.Spared p.receiver
  published : p.s.published.isSome = true ↔ ∃ l ∈ τ, l.finishes = true

theorem Held.step (hheld : Held τ p) (hstep : Step p l p') : Held (τ ++ [l]) p' := by
  obtain ⟨htold, hremembers⟩ := hstep.told hheld.remembers hheld.told
  refine ⟨hheld.wakers.step hstep, hstep.messages hheld.messages, hstep.sent hheld.sent, htold,
    hremembers, hstep.spared hheld.spared, ?_⟩
  rw [hstep.shows.2, Bool.or_eq_true, hheld.published]
  simp [or_and_right, exists_or]

/-- A wake that unwinds leaves the sending side as one that returns. -/
theorem Held.abandon_sender (hheld : Held τ p)
    (habandons : (Sender.recovery T).Abandons p.sender p'.sender) (hmemory : p'.memory = p.memory)
    (hreceiver : p'.receiver = p.receiver) : Held τ p' := by
  obtain ⟨⟨hlog, htaken⟩, hmessages, hsent, htold, hremembers, hspared, hpublished⟩ := hheld
  have hs : p'.s = p.s := habandons.role
  have hsent' : ∃ o : Option T, oneshot.sent τ = o.toList ∧ Sender.Carries o p'.sender := by
    obtain ⟨o, ho, hcarries⟩ := hsent
    refine ⟨o, ho, ?_⟩
    generalize p.sender = ss at habandons hcarries
    generalize p'.sender = ss' at habandons
    cases habandons with
    | abandon hthrown =>
      obtain ⟨rfl, _⟩ := hthrown
      exact ⟨by rintro ⟨⟩, hcarries.2⟩
  refine ⟨⟨?_, ?_⟩, ?_, hsent', ?_, ?_, ?_, ?_⟩
  · rw [hmemory]
    exact hlog
  · rw [hs]
    exact htaken
  · rw [hmemory]
    exact hmessages
  · rw [hreceiver]
    exact htold
  · rw [hreceiver]
    exact hremembers
  · rw [hreceiver]
    exact hspared
  · rw [hs]
    exact hpublished

/-- A `poll` that is left by an access that unwinds has not taken the message. -/
theorem Held.abandon_receiver (hheld : Held τ p)
    (habandons : (Receiver.recovery T).Abandons p.receiver p'.receiver)
    (hmemory : p'.memory = p.memory) (hsender : p'.sender = p.sender) : Held τ p' := by
  obtain ⟨⟨hlog, htaken⟩, hmessages, hsent, htold, hremembers, hspared, hpublished⟩ := hheld
  have hs : p'.s = p.s := by rw [Proto.s, hsender]; rfl
  have hnothing : Receiver.told p'.receiver = [] ∧ Receiver.Remembers p'.receiver ∧
      Receiver.Spared p'.receiver := by
    generalize p.receiver = rs at habandons
    generalize p'.receiver = rs' at habandons
    cases habandons with
    | abandon hthrown =>
      have hfates := hthrown.2.fates
      exact ⟨hfates, trivial, .inr (by rw [hfates]; rintro ⟨⟩)⟩
  obtain ⟨htold', hremembers', hspared'⟩ := hnothing
  refine ⟨⟨?_, ?_⟩, ?_, ?_, ?_, hremembers', hspared', ?_⟩
  · rw [hmemory]
    exact hlog
  · rw [hs]
    exact htaken
  · rw [hmemory]
    exact hmessages
  · rw [hsender]
    exact hsent
  · rw [htold']
    exact List.nil_subset _
  · rw [hs]
    exact hpublished

section

variable {m : oneshot.Unwinding.Label T} {o : Option T}

theorem Held.unwinding (hheld : Held τ p) (hstep : Unwinding p m p') : Held (τ ++ [m.plain]) p' := by
  cases hstep with
  | step hstep => exact hheld.step hstep
  | sender hstep habandons hmemory hreceiver =>
    exact (hheld.step hstep).abandon_sender habandons hmemory hreceiver
  | receiver hstep habandons hmemory hsender =>
    exact (hheld.step hstep).abandon_receiver habandons hmemory hsender

theorem held_run {h : Receiver.Handle} {token : Thread → Bool}
    {τ : List (oneshot.Unwinding.Label T)} (hrun : Run Unwinding (init h token) τ p) :
    Held (oneshot.Unwinding.plain τ) p := by
  induction hrun with
  | nil =>
    refine ⟨⟨.nil, rfl⟩, .nil, ⟨none, rfl, fun _ => rfl, trivial⟩, List.nil_subset _, trivial, ?_, ?_⟩
    · exact .inr (by rintro ⟨⟩)
    · exact ⟨by rintro ⟨⟩, by rintro ⟨_, h, _⟩; cases h⟩
  | snoc _ hstep ih =>
    rw [oneshot.Unwinding.plain_append]
    exact ih.unwinding hstep

theorem Unwinding.thrown {α : (interface T).Action} (hstep : Unwinding p (.receiver α) p') :
    p'.r.Thrown := by
  cases hstep with
  | @receiver p₁ _ _ _ habandons =>
    rw [Proto.r]
    generalize p₁.receiver = rs₁ at habandons
    generalize p'.receiver = rs at habandons
    cases habandons with
    | abandon hthrown => exact hthrown.2

/-- Only a step of the receiver changes its role. -/
theorem Unwinding.role_of_other (hstep : Unwinding p m p') (hm : m.plain.ofReceiver = false) :
    p'.r = p.r := by
  obtain ⟨p₁, hplain, _, _, hr⟩ := hstep.plain
  rw [hr]
  exact hplain.role_of_other hm

/-- What the sender has published stays so. -/
theorem Unwinding.published (hstep : Unwinding p m p') (hs : p.s.published = some o) :
    p'.s.published = some o := by
  obtain ⟨p₁, hplain, _, hs', _⟩ := hstep.plain
  rw [hs']
  exact hplain.published hs

/-- Where a `poll` has been left there is no waker, unless it is the sender's. -/
theorem agree_of_thrown (hr : p.r.Thrown) : p.memory.channel.state ≠ RECEIVING ∧
    (p.memory.channel.waker = none ∨ ∃ message, p.s = .unparking message) := by
  have hagree : Receiver.Role.Agree p.r p.s p.memory.channel := p.agree
  have hfinal (message : Option T) : Sender.final message ≠ RECEIVING := by
    cases message <;> simp
  cases hpr : p.r with
  | idle =>
    rw [hpr] at hagree
    obtain hbefore | hfinished := hagree
    · obtain ⟨hstate, hwaker⟩ := hbefore.holds
      exact ⟨by rw [hstate]; decide, .inl hwaker⟩
    · obtain ⟨message, _, hchannel⟩ := hfinished.published
      rw [hchannel]
      exact ⟨hfinal message, .inl rfl⟩
  | caught waker =>
    rw [hpr] at hagree
    obtain hwindow | hnotified := hagree
    · refine ⟨by rw [hwindow.holds]; decide, ?_⟩
      cases hps : p.s with
      | unparking message => exact .inr ⟨message, rfl⟩
      | taken message waker' =>
        rw [hps] at hwindow
        rw [hwindow.2]
        exact .inl rfl
      | _ =>
        rw [hps] at hwindow
        exact hwindow.elim
    · obtain ⟨message, _, hchannel⟩ := hnotified.published
      rw [hchannel]
      exact ⟨hfinal message, .inl rfl⟩
  | own x =>
    rw [hpr] at hagree hr
    obtain ⟨hstate, hwaker, _⟩ := hagree
    obtain ⟨hnone, _, hx⟩ := hr
    refine ⟨?_, .inl (hwaker.trans hnone)⟩
    rw [hstate]
    generalize x.state = v at hx
    generalize x.message = content at hx
    cases hx <;> decide
  | _ =>
    rw [hpr] at hr
    exact hr.elim

/-- A sender that has found a waker is about to take it. -/
theorem Simulates.next_of_unparking {σ : System T} (hsim : Simulates σ p) {message : Option T}
    (hs : p.s = .unparking message) : σ.sender.next = some .take_waker := by
  have hready (h : Sender.Handle) : ¬ Sender.Ready h p.s := by
    rw [hs]
    cases h <;> exact id
  obtain ⟨a, f, hnext, hon⟩ := hsim.sender.next_of_unready hready id
  replace hon : p.s.on a = some f := hon
  rw [hs] at hon
  cases a with
  | take_waker => exact hnext
  | _ => cases hon

/-- A receiver in a call stays in it until it is left. -/
theorem Unwinding.during {c : Receiver.Call} (hstep : Unwinding p m p')
    (hduring : ∃ r g, p.receiver = .during c r g) (hm : m.leaves = false) :
    ∃ r g, p'.receiver = .during c r g := by
  obtain ⟨r, g, hr⟩ := hduring
  cases hstep with
  | step hstep =>
    cases hstep with
    | sender _ _ hreceiver | stray _ _ _ hreceiver => exact ⟨r, g, hreceiver.trans hr⟩
    | receiver hsession =>
      rw [hr] at hsession
      generalize p'.receiver = rs at hsession
      cases hsession with
      | act | enter => exact ⟨_, _, rfl⟩
      | ret => cases hm
  | @sender p₁ _ α hstep _ _ hreceiver =>
    cases hstep with
    | sender _ _ hreceiver₁ => exact ⟨r, g, (hreceiver.trans hreceiver₁).trans hr⟩
  | receiver => cases hm

/-- What the sender has left is there to be found, as long as the receiver is in its
    call. -/
theorem Unwinding.due (hstep : Unwinding p m p') (hs : p.s.published = some o)
    (hdue : Receiver.Due o p.receiver) (hm : m.leaves = false) : Receiver.Due o p'.receiver := by
  cases hstep with
  | step hstep =>
    refine (due_step hstep hs hdue).2 ?_
    rintro c v rfl
    cases hm
  | sender hstep _ _ hreceiver =>
    rw [hreceiver]
    refine (due_step hstep hs hdue).2 ?_
    rintro c v ⟨⟩
  | receiver => cases hm

/-- Every step of the receiver uses up one of those it has left, until it is left. -/
theorem Recovers.left_run {σ σ' : System T} {τ : List (oneshot.Unwinding.Label T)} {k : Nat}
    (hrecovers : Recovers σ p) (hs : p.s.published = some o)
    (hleft : Receiver.Left σ.receiver p.r k) (hrun : Run oneshot.Unwinding.Step σ τ σ')
    (hτ : ∀ m ∈ τ, m.leaves = false) :
    ∃ p' k', Recovers σ' p' ∧ p'.s.published = some o ∧ Receiver.Left σ'.receiver p'.r k' ∧
      τ.countP (fun m => m.plain.ofReceiver) + k' ≤ k := by
  induction hrun with
  | nil => exact ⟨p, k, hrecovers, hs, hleft, by simp⟩
  | @snoc τ σ₁ σ₂ m _ hstep ih =>
    obtain ⟨p₁, k₁, hrecovers₁, hs₁, hleft₁, hk₁⟩ :=
      ih fun m hm => hτ m (List.mem_append_left _ hm)
    have hm : m.leaves = false := hτ m (List.mem_append_right _ (List.mem_singleton_self m))
    obtain ⟨p₂, hp, hrecovers₂⟩ := hrecovers₁.step hstep
    have hs₂ := hp.published hs₁
    -- A step that is not the receiver's leaves its code and its role alone.
    have hother (hσ : σ₂.receiver = σ₁.receiver) (hl : m.plain.ofReceiver = false) :
        ∃ p' k', Recovers σ₂ p' ∧ p'.s.published = some o ∧ Receiver.Left σ₂.receiver p'.r k' ∧
          (τ ++ [m]).countP (fun m => m.plain.ofReceiver) + k' ≤ k := by
      refine ⟨p₂, k₁, hrecovers₂, hs₂, ?_, ?_⟩
      · rw [hσ, hp.role_of_other hl]
        exact hleft₁
      · simpa [List.countP_append, hl] using hk₁
    cases hstep with
    | step hstep =>
      cases hstep with
      | sender | stray => exact hother rfl rfl
      | @receiver e r' μ' hstep =>
        cases hp with
        | step hp =>
          have he : (Label.receiver e : Label T).returns = false := by
            cases e <;> first | rfl | cases hm
          obtain ⟨k₂, hk₂, hleft₂⟩ := left_step hleft₁ hstep hp hs₁ he
          refine ⟨p₂, k₂, hrecovers₂, hs₂, hleft₂, ?_⟩
          have hcount : (τ ++ [oneshot.Unwinding.Label.step (.receiver e)]).countP
              (fun m => m.plain.ofReceiver) = τ.countP (fun m => m.plain.ofReceiver) + 1 := by
            rw [List.countP_append]
            rfl
          omega
    | sender => exact hother rfl rfl
    | receiver => cases hm

/-- A `poll` that starts once the sender has written its final state is in its call, and what
    the sender has left is there to be found. -/
theorem Unwinding.poll {cx : Waker} {τ : List (oneshot.Unwinding.Label T)}
    (hstep : Unwinding p (.step (.receiver (.call (.poll cx)))) p')
    (hheld : Held (oneshot.Unwinding.plain τ) p) (hfinishes : ∃ m ∈ τ, m.plain.finishes = true) :
    (∃ o : Option T, oneshot.sent (oneshot.Unwinding.plain τ) = o.toList ∧
      p'.s.published = some o ∧
      ((∀ message, Fate.received message ∉ fates (oneshot.Unwinding.plain τ)) →
        Receiver.Due o p'.receiver)) ∧
    ∃ r g, p'.receiver = .during (.poll cx) r g := by
  have hplain : ∃ l ∈ oneshot.Unwinding.plain τ, l.finishes = true := by
    obtain ⟨m, hm, hl⟩ := hfinishes
    exact ⟨m.plain, List.mem_map_of_mem hm, hl⟩
  obtain ⟨o, ho⟩ := Option.isSome_iff_exists.mp (hheld.published.mpr hplain)
  obtain ⟨sent, hsent, hcarries⟩ := hheld.sent
  obtain rfl : sent = o := carries_published (carries_role hcarries) ho
  cases hstep with
  | step hstep =>
    refine ⟨⟨sent, hsent, hstep.published ho, fun hfates => ?_⟩, ?_⟩
    · exact hstep.due_call hheld.spared ho fun message hm => hfates message (hheld.told hm)
    · cases hstep with
      | receiver hsession =>
        generalize p.receiver = rs at hsession
        generalize p'.receiver = rs' at hsession
        cases hsession with
        | call => exact ⟨_, _, rfl⟩

/-- The first part of a run, up to a `poll` that starts once the sender has written its final
    state, and the rest of it. -/
theorem Recovers.poll {σ₀ σ : System T} {h : Receiver.Handle} {token : Thread → Bool}
    {τ₁ τ₂ : List (oneshot.Unwinding.Label T)} {cx : Waker} (hsim : Simulates σ₀ (init h token))
    (hrun : Run oneshot.Unwinding.Step σ₀ (τ₁ ++ .step (.receiver (.call (.poll cx))) :: τ₂) σ)
    (hfinishes : ∃ m ∈ τ₁, m.plain.finishes = true) :
    ∃ (σ₁ : System T) (p₁ : Proto T) (o : Option T), Recovers σ₁ p₁ ∧
      Run oneshot.Unwinding.Step σ₁ τ₂ σ ∧
      oneshot.sent (oneshot.Unwinding.plain τ₁) = o.toList ∧ p₁.s.published = some o ∧
      ((∀ message, Fate.received message ∉ fates (oneshot.Unwinding.plain τ₁)) →
        Receiver.Due o p₁.receiver) ∧
      (∃ r g, p₁.receiver = .during (.poll cx) r g) ∧
      ∃ k, k ≤ 22 ∧ Receiver.Left σ₁.receiver p₁.r k := by
  obtain ⟨σ₂, hfirst, hrest⟩ := hrun.split
  obtain ⟨σ₁, hcall, hrest⟩ := hrest.cons_inv
  obtain ⟨p₂, hp₂, hrecovers₂⟩ := (Recovers.of_init hsim).run hfirst
  obtain ⟨p₁, hp₁, hrecovers₁⟩ := hrecovers₂.step hcall
  obtain ⟨⟨o, hsent, hs, hdue⟩, hduring⟩ := hp₁.poll (held_run hp₂) hfinishes
  refine ⟨σ₁, p₁, o, hrecovers₁, hrest, hsent, hs, hdue, hduring, ?_⟩
  cases hcall with
  | step hcall =>
    cases hcall with
    | receiver hstep =>
      generalize σ₂.receiver = st at hstep
      cases hstep with
      | call =>
        refine ⟨_, ?_, .busy p₁.r (Nat.le_refl 10) (Receiver.code_brisk _)⟩
        unfold Receiver.budget
        split <;> omega

/-- As long as the receiver makes no step, it stays as an access that unwinds has left it. -/
theorem Simulates.left_thrown {σ₀ σ : System T} {h : Receiver.Handle} {token : Thread → Bool}
    {τ₁ τ₂ : List (oneshot.Unwinding.Label T)} {α : (interface T).Action}
    (hsim : Simulates σ₀ (init h token))
    (hrun : Run oneshot.Unwinding.Step σ₀ (τ₁ ++ .receiver α :: τ₂) σ)
    (hτ₂ : ∀ m ∈ τ₂, m.plain.ofReceiver = false) :
    σ.memory.channel.state ≠ RECEIVING ∧
      (σ.memory.channel.waker = none ∨ σ.sender.next = some .take_waker) := by
  obtain ⟨σ₁, hfirst, hrest⟩ := hrun.split
  obtain ⟨σ₂, hunwind, hrest⟩ := hrest.cons_inv
  obtain ⟨p₁, _, hrecovers₁⟩ := (Recovers.of_init hsim).run hfirst
  obtain ⟨p₂, hp₂, hrecovers₂⟩ := hrecovers₁.step hunwind
  obtain ⟨p₃, hp₃, hrecovers₃⟩ := hrecovers₂.run hrest
  have hr : p₃.r = p₂.r := (hp₃.attach hτ₂).keeps (P := fun q => q.r = p₂.r)
    (fun _ _ _ h hstep => (hstep.1.role_of_other hstep.2).trans h) rfl
  have hthrown : p₃.r.Thrown := by
    rw [hr]
    exact hp₂.thrown
  obtain ⟨hstate, hwaker⟩ := agree_of_thrown hthrown
  rw [← hrecovers₃.simulates.memory]
  refine ⟨hstate, hwaker.imp id ?_⟩
  rintro ⟨message, hs⟩
  exact hrecovers₃.simulates.next_of_unparking hs

/-- A `poll` that starts once the sender has written its final state, and returns, returns
    the message that was sent. -/
theorem Simulates.poll_receives {σ₀ σ : System T} {h : Receiver.Handle} {token : Thread → Bool}
    {τ₁ τ₂ τ₃ : List (oneshot.Unwinding.Label T)} {cx : Waker} {c : Receiver.Call}
    {v : Receiver.Ret T} {message : T} (hsim : Simulates σ₀ (init h token))
    (hrun : Run oneshot.Unwinding.Step σ₀ (τ₁ ++ .step (.receiver (.call (.poll cx))) ::
      (τ₂ ++ .step (.receiver (.ret c v)) :: τ₃)) σ)
    (hτ₂ : ∀ m ∈ τ₂, m.leaves = false) (hfinishes : ∃ m ∈ τ₁, m.plain.finishes = true)
    (hsent : oneshot.sent (oneshot.Unwinding.plain τ₁) = [message])
    (hfates : ∀ m, Fate.received m ∉ fates (oneshot.Unwinding.plain τ₁)) :
    c = .poll cx ∧ v = .poll (.Ready (.ok message)) := by
  obtain ⟨σ₁, p₁, o, hrecovers₁, hrest, hsent₁, hs₁, hdue₁, hduring₁, _⟩ :=
    Recovers.poll hsim hrun hfinishes
  obtain rfl : o = some message := by
    rw [hsent₁] at hsent
    exact Option.toList_eq_singleton_iff.mp hsent
  obtain ⟨σ₂, hpoll, hrest⟩ := hrest.split
  obtain ⟨σ₃, hret, _⟩ := hrest.cons_inv
  obtain ⟨p₂, hp₂, hrecovers₂⟩ := hrecovers₁.run hpoll
  obtain ⟨p₃, hp₃, _⟩ := hrecovers₂.step hret
  have hkept : p₂.s.published = some (some message) ∧ Receiver.Due (some message) p₂.receiver ∧
      ∃ r g, p₂.receiver = .during (.poll cx) r g :=
    (hp₂.attach hτ₂).keeps (P := fun q => q.s.published = some (some message) ∧
        Receiver.Due (some message) q.receiver ∧ ∃ r g, q.receiver = .during (.poll cx) r g)
      (fun _ _ _ h hstep => ⟨hstep.1.published h.1, hstep.1.due h.1 h.2.1 hstep.2,
        hstep.1.during h.2.2 hstep.2⟩)
      ⟨hs₁, hdue₁ hfates, hduring₁⟩
  obtain ⟨hs₂, hdue₂, r, g, hr⟩ := hkept
  cases hp₃ with
  | step hp₃ =>
    have hc : c = .poll cx := by
      cases hp₃ with
      | receiver hsession =>
        rw [hr] at hsession
        generalize p₃.receiver = rs at hsession
        cases hsession
        rfl
    subst hc
    exact ⟨rfl, poll_of_outcome ((due_step hp₃ hs₂ hdue₂).1 _ _ rfl rfl)⟩

/-- It has few steps to make, and its next one can be made. -/
theorem Simulates.poll_ends {σ₀ σ : System T} {h : Receiver.Handle} {token : Thread → Bool}
    {τ₁ τ₂ : List (oneshot.Unwinding.Label T)} {cx : Waker} (hsim : Simulates σ₀ (init h token))
    (hrun : Run oneshot.Unwinding.Step σ₀ (τ₁ ++ .step (.receiver (.call (.poll cx))) :: τ₂) σ)
    (hτ₂ : ∀ m ∈ τ₂, m.leaves = false) (hfinishes : ∃ m ∈ τ₁, m.plain.finishes = true) :
    τ₂.countP (fun m => m.plain.ofReceiver) ≤ 22 ∧ ∃ e σ', System.Step σ (.receiver e) σ' := by
  obtain ⟨σ₁, p₁, o, hrecovers₁, hrest, _, hs₁, _, hduring₁, k, hk, hleft⟩ :=
    Recovers.poll hsim hrun hfinishes
  obtain ⟨p₂, hp₂, hrecovers₂⟩ := hrecovers₁.run hrest
  obtain ⟨_, k', _, _, _, hcount⟩ := hrecovers₁.left_run hs₁ hleft hrest hτ₂
  refine ⟨by omega, ?_⟩
  obtain ⟨r, g, hr⟩ : ∃ r g, p₂.receiver = .during (.poll cx) r g :=
    (hp₂.attach hτ₂).keeps (P := fun q => ∃ r g, q.receiver = .during (.poll cx) r g)
      (fun _ _ _ h hstep => hstep.1.during h hstep.2) hduring₁
  have htracks := hrecovers₂.simulates.receiver
  rw [hr] at htracks
  generalize hst : σ.receiver = st at htracks
  cases htracks with
  | busy => exact hrecovers₂.simulates.receiver_step hst

theorem Simulates.panicsContained {σ₀ σ : System T} {h : Receiver.Handle} {token : Thread → Bool}
    {τ : List (oneshot.Unwinding.Label T)} (hsim₀ : Simulates σ₀ (init h token))
    (hrun : Run oneshot.Unwinding.Step σ₀ τ σ) : PanicsContained τ σ := by
  obtain ⟨p, hp, hsim, _, _⟩ := (Recovers.of_init hsim₀).run hrun
  have hheld := held_run hp
  have hagree : Receiver.Role.Agree p.r p.s p.memory.channel := p.agree
  refine ⟨?_, ?_, ?_, ?_, not_unreachable hsim.sender, not_unreachable hsim.receiver, ?_, ?_⟩
  · rw [← hsim.memory]
    exact hheld.wakers.log
  · rw [← hsim.memory]
    exact hheld.messages
  · rintro a (hnext | hnext)
    · obtain ⟨f, hon⟩ := hsim.sender.on_next hnext
      rw [← hsim.memory]
      exact Sender.provides hagree hon
    · obtain ⟨f, hon⟩ := hsim.receiver.on_next hnext
      rw [← hsim.memory]
      exact Receiver.provides hagree hon
  · rintro τ₁ α τ₂ rfl hτ₂
    exact hsim₀.left_thrown hrun hτ₂
  · rintro τ₁ cx τ₂ c v τ₃ message rfl hτ₂ hfinishes hsent hfates
    exact hsim₀.poll_receives hrun hτ₂ hfinishes hsent hfates
  · rintro τ₁ cx τ₂ rfl hτ₂ hfinishes
    exact hsim₀.poll_ends hrun hτ₂ hfinishes

end

end Proto

/-- Wakers that panic leave either kind of channel as it was meant to be. -/
theorem panics_contained {σ₀ σ : System T} {τ : List (Unwinding.Label T)}
    (hinitial : σ₀.Initial) (hrun : Run Unwinding.Step σ₀ τ σ) : PanicsContained τ σ := by
  obtain ⟨token, rfl | rfl⟩ := hinitial
  · exact (Proto.simulates_channel token).panicsContained hrun
  · exact (Proto.simulates_async_channel token).panicsContained hrun

theorem panics_contained_thrown :
    ∃ τ σ, Unwinding.play (System.async_channel Nat fun _ => false) Unwinding.thrown = some (τ, σ) ∧
      PanicsContained τ σ := by
  have hplay : (Unwinding.play (System.async_channel Nat fun _ => false)
    Unwinding.thrown).isSome = true := by decide
  obtain ⟨⟨τ, σ⟩, hplay⟩ := Option.isSome_iff_exists.mp hplay
  exact ⟨τ, σ, hplay, panics_contained ⟨_, .inr rfl⟩ (Unwinding.play_sound hplay)⟩

end oneshot
