import Oneshot.Properties.HappensBefore
import Oneshot.Properties.WakerCell

open conc

namespace oneshot

variable {T : Type}

/-- What the memory orderings of a run guarantee to whoever empties a cell. -/
structure SendBeforeReceive (τ : List (Label T)) : Prop where
  /-- A receiver that takes or drops the message has seen the sender write it, and all
      that the sender did before. -/
  message : ∀ τ₁ α τ₂, τ = τ₁ ++ .receiver (.act α) :: τ₂ →
    α.access = .take_message ∨ α.access = .drop_message →
    (∃ m, .sender (.act ⟨.write_message m, ()⟩) ∈ τ₁) ∧
      writing τ₁ ⊆ (views false τ₁).view .receiver
  /-- A sender that takes the waker has seen the receiver write it. -/
  waker : ∀ τ₁ waker τ₂, τ = τ₁ ++ .sender (.act ⟨.take_waker, waker⟩) :: τ₂ →
    (wakerLog τ₁).getLast? = some (.put waker) ∧
      positions Label.writesWaker τ₁ ⊆ (views false τ₁).view .sender

section

variable (parking : Bool) {τ : List (Label T)} {α : (interface T).Action}

theorem views_sender : views parking (τ ++ [.sender (.act α)]) =
    (views parking τ).step .sender (syncOp parking α) := Views.run_snoc_some _ τ rfl

theorem views_receiver : views parking (τ ++ [.receiver (.act α)]) =
    (views parking τ).step .receiver (syncOp parking α) := Views.run_snoc_some _ τ rfl

/-- A releasing read-modify-write attaches every event of its side. -/
theorem sent_released {order : MemOrder} (hα : syncOp parking α = .update order)
    (hreleases : order.releases = true) : positions Label.ofSender (τ ++ [.sender (.act α)]) ⊆
      (views parking (τ ++ [.sender (.act α)])).attached := by
  have hsent := sent_subset parking (τ := τ ++ [.sender (.act α)])
  rw [views_sender, hα] at hsent ⊢
  exact hsent.trans (Views.attached_release hreleases)

theorem received_released {order : MemOrder} (hα : syncOp parking α = .update order)
    (hreleases : order.releases = true) : positions Label.ofReceiver (τ ++ [.receiver (.act α)]) ⊆
      (views parking (τ ++ [.receiver (.act α)])).attached := by
  have hreceived := received_subset parking (τ := τ ++ [.receiver (.act α)])
  rw [views_receiver, hα] at hreceived ⊢
  exact hreceived.trans (Views.attached_release hreleases)

end

namespace Sender

/-- The message that was written, and is the sender's to tell of. -/
def Role.message : Role T → Option T
  | .wrote message | .failed message => some message
  | .unparking message | .taken message _ | .notify message _ | .finished message => message
  | _ => none

theorem Role.Move.message {s s' : Role T} {α : (interface T).Action} (hmove : s.Move α s') {m : T}
    (hm : s'.message = some m) : s.message = some m ∨ α = ⟨.write_message m, ()⟩ := by
  cases hmove with
  | write =>
    cases hm
    exact .inr rfl
  | _ => first | exact .inl hm | cases hm

theorem Role.message_of_published {s : Role T} {o : Option T} (hs : s.published = some o) :
    s.message = o := by
  cases s <;> cases hs <;> rfl

theorem Role.Move.unparking {s s' : Role T} {waker : ReceiverWaker}
    (hmove : s.Move ⟨.take_waker, waker⟩ s') : ∃ message, s = .unparking message := by
  cases hmove with
  | take_waker message => exact ⟨message, rfl⟩

end Sender

/-- Only a receiver that owns the channel, and has synchronised with the sender,
    empties the message cell. -/
theorem Receiver.Role.Move.empties {r r' : Role T} {α : (interface T).Action}
    (hmove : r.Move α r') (hα : α.access = .take_message ∨ α.access = .drop_message) :
    ∃ x, r = .own x ∧ x.message.isFull = true ∧ x.seen ≠ .relaxed := by
  cases hmove with
  | own_take x message hfull hseen => exact ⟨x, rfl, hfull, hseen⟩
  | own_drop x hfull hseen => exact ⟨x, rfl, hfull, hseen⟩
  | _ => obtain h | h := hα <;> cases h

namespace Proto

/-! What the sender released. -/

/-- What the sender has released is still attached to the state byte, until the
    receiver knows of it, and the receiver knows what its role says. -/
structure Informed (parking : Bool) (τ : List (Label T)) (p : Proto T) : Prop where
  written : p.s.announced = true → p.r.carries = true →
    writing τ ⊆ (views parking τ).attached
  published : p.s.published ≠ none → p.r.carries = true →
    publishing τ ⊆ (views parking τ).attached
  knows : p.r.Knows (writing τ) (publishing τ) ((views parking τ).view .receiver)
    ((views parking τ).pending .receiver)

section

variable {parking : Bool} {τ : List (Label T)} {p p' : Proto T} {α : (interface T).Action}

theorem Informed.still {l : Label T} (h : Informed parking τ p) (hl : l.action = none)
    (hs : p'.s = p.s) (hr : p'.r = p.r) : Informed parking (τ ++ [l]) p' := by
  obtain ⟨hview, hpending, hattached, _⟩ := views_of_still parking (τ := τ) hl
  have hW : writing (τ ++ [l]) = writing τ := by
    refine writing_snoc ?_
    cases l with
    | sender e => cases e <;> first | rfl | cases hl
    | _ => rfl
  have hF : publishing (τ ++ [l]) = publishing τ :=
    publishing_snoc (by simp [Label.senderTouches, touches_of_still hl])
  refine ⟨?_, ?_, ?_⟩
  · rw [hs, hr, hW]
    exact fun hannounced hcarries => (h.written hannounced hcarries).trans hattached
  · rw [hs, hr, hF]
    exact fun hpublished hcarries => (h.published hpublished hcarries).trans hattached
  · rw [hr, hW, hF]
    exact h.knows.mono (hview _) (hpending _)

theorem Informed.sender (h : Informed parking τ p) (hmove : p.s.Move α p'.s) (hr : p'.r = p.r) :
    Informed parking (τ ++ [.sender (.act α)]) p' := by
  have hagree : Receiver.Role.Agree p.r p.s p.memory.channel := p.agree
  obtain ⟨hannounced, hpublished, hstore, hwrites, htouches⟩ := hmove.releases parking
  have hattached : (views parking τ).attached ⊆
      (views parking (τ ++ [.sender (.act α)])).attached := by
    rw [views_sender]
    exact Views.attached_mono hstore
  refine ⟨fun hs' hcarries => ?_, fun hs' hcarries => ?_, ?_⟩
  · obtain hs | hα := hannounced hs'
    · rw [writing_snoc (hwrites hs)]
      exact (h.written hs (hr ▸ hcarries)).trans hattached
    · exact upTo_subset.trans (sent_released parking hα rfl)
  · obtain hs | hα := hpublished hs'
    · rw [publishing_snoc (by simp [Label.senderTouches, Label.touches, Label.action, htouches hs])]
      exact (h.published hs (hr ▸ hcarries)).trans hattached
    · exact upTo_subset.trans (sent_released parking hα rfl)
  · rw [hr, views_sender]
    have hmono := h.knows.mono
      (Views.view_mono (i := Side.sender) (o := syncOp parking α))
      (Views.pending_mono (i := Side.sender) (o := syncOp parking α))
    cases hs : p.s.announced with
    | false => exact Receiver.Role.knows_of_unannounced hagree hs _ _ _ _
    | true =>
      rw [writing_snoc (hwrites hs)]
      by_cases hnone : p.s.published = none
      · exact hmono.of_agree hagree hnone
      · rwa [publishing_snoc
          (by simp [Label.senderTouches, Label.touches, Label.action, htouches hnone])]

theorem Informed.receiver (h : Informed parking τ p) (hmove : p.r.Move α p'.r) (hs : p'.s = p.s) :
    Informed parking (τ ++ [.receiver (.act α)]) p' := by
  have hagree' : Receiver.Role.Agree p'.r p'.s p'.memory.channel := p'.agree
  rw [hs] at hagree'
  have hW : writing (τ ++ [.receiver (.act α)]) = writing τ := writing_snoc rfl
  have hF : publishing (τ ++ [.receiver (.act α)]) = publishing τ := publishing_snoc rfl
  refine ⟨?_, ?_, ?_⟩
  · rw [hs, hW, views_receiver]
    intro hannounced hcarries'
    obtain ⟨hcarries, hstore⟩ := hmove.carries parking hcarries'
    exact (h.written hannounced hcarries).trans (Views.attached_mono hstore)
  · rw [hs, hF, views_receiver]
    intro hpublished hcarries'
    obtain ⟨hcarries, hstore⟩ := hmove.carries parking hcarries'
    exact (h.published hpublished hcarries).trans (Views.attached_mono hstore)
  · rw [hW, hF, views_receiver]
    exact hmove.knows parking hagree' writing_subset_publishing h.written h.published h.knows

theorem Informed.step {l : Label T} (h : Informed parking τ p) (hstep : Step p l p') :
    Informed parking (τ ++ [l]) p' := by
  cases hstep.moves with
  | still hl hs hr => exact h.still hl hs hr
  | sender hmove hr => exact h.sender hmove hr
  | receiver hmove hs => exact h.receiver hmove hs

theorem informed_run {h : Receiver.Handle} {token : Thread → Bool} (parking : Bool)
    (hrun : Run Step (init h token) τ p) : Informed parking τ p := by
  have hinit : Informed parking [] (init h token : Proto T) := by
    exact ⟨by rintro ⟨⟩, fun hs => (hs rfl).elim, trivial⟩
  exact hrun.invariant (P := Informed parking) hinit fun _ _ _ _ _ h hstep => h.step hstep

end

/-! What the receiver released. -/

/-- The receiver hands its accesses of a kind `P` over to the sender: as long as its
    role is in `R`, and the sender has not announced itself, they are attached to the
    state byte, and a sender whose role is in `S` has seen them. -/
structure Handed (parking : Bool) (P : Label T → Bool) (R : Receiver.Role T → Prop)
    (S : Sender.Role T → Prop) (τ : List (Label T)) (p : Proto T) : Prop where
  stored : R p.r → p.s.announced = false → positions P τ ⊆ (views parking τ).attached
  taken : S p.s → positions P τ ⊆ (views parking τ).view .sender

/-- What the roles have to do for that: a receiver comes to `R` only by a release, and
    a sender to `S` only by an acquiring announcement to a receiver in `R`, which then
    makes no more such accesses. -/
structure Handover (parking : Bool) (P : Label T → Bool) (R : Receiver.Role T → Prop)
    (S : Sender.Role T → Prop) : Prop where
  accesses : ∀ l, P l = true → ∃ α, l = .receiver (.act α)
  release : ∀ r α r', r.Move α r' → R r' →
    (R r ∧ P (.receiver (.act α)) = false ∧ ∀ order, syncOp parking α ≠ .store order) ∨
      ∃ order, syncOp parking α = .update order ∧ order.releases = true
  acquire : ∀ s α s' r x, Sender.Role.Move s α s' → Receiver.Role.Agree r s x →
    x.Answers α.access α.resp → S s' →
    S s ∨ (s.announced = false ∧ R r ∧ syncOp parking α = .update .AcqRel)
  quiet : ∀ s r x α r', S s → Receiver.Role.Agree r s x → r.Move α r' →
    P (.receiver (.act α)) = false

/-- A sender does not take its announcement back. -/
theorem announced_move {s s' : Sender.Role T} {α : (interface T).Action} (hmove : s.Move α s')
    (hs' : s'.announced = false) : s.announced = false := by
  cases hmove <;> first | rfl | cases hs'

section

variable {parking : Bool} {P : Label T → Bool} {R : Receiver.Role T → Prop}
  {S : Sender.Role T → Prop} {τ : List (Label T)} {p p' : Proto T} {α : (interface T).Action}

theorem positions_keep {l : Label T} (hl : P l = false) : positions P (τ ++ [l]) = positions P τ := by
  simp [positions_snoc, hl]

theorem Handover.subset (hand : Handover parking P R S) (τ : List (Label T)) :
    positions P τ ⊆ positions Label.ofReceiver τ := by
  refine (positions_subset_upTo fun l hl => ?_).trans upTo_subset
  obtain ⟨α, rfl⟩ := hand.accesses l hl
  rfl

theorem Handed.still {l : Label T} (hand : Handover parking P R S) (h : Handed parking P R S τ p)
    (hl : l.action = none) (hs : p'.s = p.s) (hr : p'.r = p.r) :
    Handed parking P R S (τ ++ [l]) p' := by
  obtain ⟨hview, _, hattached, _⟩ := views_of_still parking (τ := τ) hl
  have hP : P l = false := by
    by_contra hP
    obtain ⟨α, rfl⟩ := hand.accesses l (by simpa using hP)
    cases hl
  refine ⟨fun hR hannounced => ?_, fun hS => ?_⟩
  · rw [positions_keep hP]
    exact (h.stored (hr ▸ hR) (hs ▸ hannounced)).trans hattached
  · rw [positions_keep hP]
    exact (h.taken (hs ▸ hS)).trans (hview _)

theorem Handed.sender (hand : Handover parking P R S) (h : Handed parking P R S τ p)
    (hmove : p.s.Move α p'.s) (hr : p'.r = p.r)
    (hanswers : p.memory.channel.Answers α.access α.resp) :
    Handed parking P R S (τ ++ [.sender (.act α)]) p' := by
  have hagree : Receiver.Role.Agree p.r p.s p.memory.channel := p.agree
  have hP : P (.sender (.act α)) = false := by
    by_contra hP
    obtain ⟨_, hl⟩ := hand.accesses _ (by simpa using hP)
    cases hl
  refine ⟨fun hR hannounced => ?_, fun hS => ?_⟩
  · obtain ⟨_, _, hstore, _⟩ := hmove.releases parking
    rw [positions_keep hP, views_sender]
    exact (h.stored (hr ▸ hR) (announced_move hmove hannounced)).trans (Views.attached_mono hstore)
  · rw [positions_keep hP, views_sender]
    obtain hS | ⟨hannounced, hR, hα⟩ := hand.acquire _ _ _ _ _ hmove hagree hanswers hS
    · exact (h.taken hS).trans Views.view_mono
    · rw [hα]
      exact (h.stored hR hannounced).trans (Views.view_acquire (.inr rfl) rfl)

theorem Handed.receiver (hand : Handover parking P R S) (h : Handed parking P R S τ p)
    (hmove : p.r.Move α p'.r) (hs : p'.s = p.s) :
    Handed parking P R S (τ ++ [.receiver (.act α)]) p' := by
  have hagree : Receiver.Role.Agree p.r p.s p.memory.channel := p.agree
  refine ⟨fun hR hannounced => ?_, fun hS => ?_⟩
  · rw [hs] at hannounced
    obtain ⟨hR, hP, hstore⟩ | ⟨order, hα, hreleases⟩ := hand.release _ _ _ hmove hR
    · rw [positions_keep hP, views_receiver]
      exact (h.stored hR hannounced).trans (Views.attached_mono hstore)
    · exact (hand.subset _).trans (received_released parking hα hreleases)
  · rw [hs] at hS
    rw [positions_keep (hand.quiet _ _ _ _ _ hS hagree hmove), views_receiver]
    exact (h.taken hS).trans Views.view_mono

theorem handed_run {h : Receiver.Handle} {token : Thread → Bool}
    (hand : Handover parking P R S) (hR : ¬ R .idle) (hS : ¬ S .fresh)
    (hrun : Run Step (init h token) τ p) : Handed parking P R S τ p := by
  have hinit : Handed parking P R S [] (init h token : Proto T) :=
    ⟨fun h => (hR h).elim, fun h => (hS h).elim⟩
  refine hrun.invariant (P := Handed parking P R S) hinit ?_
  intro τ p l p' _ h hstep
  cases hstep.moves with
  | still hl hs hr => exact h.still hand hl hs hr
  | sender hmove hr hacts =>
    obtain ⟨env, hexec⟩ := hacts
    exact h.sender hand hmove hr (Memory.exec_channel hexec).1
  | receiver hmove hs => exact h.receiver hand hmove hs

end

/-- The wakers the receiver has written are handed over with `RECEIVING`. -/
theorem waker_handover (parking : Bool) : Handover (T := T) parking Label.writesWaker
    (fun r => ∃ waker, r = .waiting waker ∨ r = .woken waker)
    (fun s => ∃ message, s = .unparking message) where
  accesses l hl := by
    unfold Label.writesWaker at hl
    split at hl
    · exact ⟨_, rfl⟩
    · cases hl
  release r α r' hmove hR := by
    obtain ⟨waker, hr'⟩ := hR
    cases hmove with
    | publish | exchange => exact .inr ⟨.Release, rfl, rfl⟩
    | clock_waiting | poll_receiving =>
      exact .inl ⟨⟨_, .inl rfl⟩, rfl, fun order => by simp [syncOp]⟩
    | park current v | park_timeout current timeout v =>
      refine .inl ⟨⟨_, .inl rfl⟩, rfl, fun order => ?_⟩
      cases v <;> cases parking <;> simp [syncOp]
    | woken_again => exact .inl ⟨⟨_, .inr rfl⟩, rfl, fun order => by simp [syncOp]⟩
    | _ => obtain h | h := hr' <;> cases h
  acquire s α s' r x hmove hagree hanswers hS := by
    obtain ⟨message, hs'⟩ := hS
    have hreceiving (hs : s.announced = false) (hstate : x.state = RECEIVING) :
        ∃ waker, r = .waiting waker ∨ r = .woken waker := by
      cases s with
      | fresh | wrote =>
        cases r <;>
          simp_all [Receiver.Role.Agree, Sender.Role.Before, Sender.Role.Window,
            Sender.Role.Notified, Sender.Role.Finished, Sender.Role.published, Sender.Role.Failed]
      | _ => cases hs
    cases hmove with
    | send_receiving | drop_receiving => exact .inr ⟨rfl, hreceiving rfl (Eq.symm hanswers), rfl⟩
    | _ => cases hs'
  quiet s r x α r' hS hagree hmove := by
    obtain ⟨message, rfl⟩ := hS
    cases hmove with
    | store_waker => obtain h | h := hagree <;> exact h.elim
    | _ => rfl

section

variable {τ : List (Label T)} {p : Proto T}

/-- What the sender has to tell the receiver, it has written. -/
theorem written_run {h : Receiver.Handle} {token : Thread → Bool}
    (hrun : Run Step (init h token) τ p) :
    ∀ m, p.s.message = some m → .sender (.act ⟨.write_message m, ()⟩) ∈ τ := by
  have hinit : ∀ m, (init h token : Proto T).s.message = some m →
      .sender (.act ⟨.write_message m, ()⟩) ∈ ([] : List (Label T)) := by
    rintro m ⟨⟩
  refine hrun.invariant
    (P := fun τ p => ∀ m, p.s.message = some m → .sender (.act ⟨.write_message m, ()⟩) ∈ τ) hinit ?_
  intro τ p l p' _ hwritten hstep m hm
  cases hstep.moves with
  | still _ hs => exact List.mem_append_left _ (hwritten m (hs ▸ hm))
  | sender hmove =>
    obtain hsame | rfl := hmove.message hm
    · exact List.mem_append_left _ (hwritten m hsame)
    · exact List.mem_append_right _ (List.mem_singleton_self _)
  | receiver _ hs => exact List.mem_append_left _ (hwritten m (hs ▸ hm))

end

theorem Simulates.sendBeforeReceive {σ₀ σ : System T} {h : Receiver.Handle}
    {token : Thread → Bool} {τ : List (Label T)} (hsim : Simulates σ₀ (init h token))
    (hrun : Run System.Step σ₀ τ σ) : SendBeforeReceive τ := by
  obtain ⟨p, hp, _⟩ := hsim.run hrun
  refine ⟨?_, ?_⟩
  · rintro τ₁ α τ₂ rfl hα
    obtain ⟨p₁, hp₁, hrest⟩ := hp.split
    obtain ⟨p₂, htake, _⟩ := hrest.cons_inv
    have hknows := (informed_run false hp₁).knows
    have hwritten := written_run hp₁
    have hagree : Receiver.Role.Agree p₁.r p₁.s p₁.memory.channel := p₁.agree
    cases htake.moves with
    | still hl => cases hl
    | receiver hmove =>
      obtain ⟨x, hr, hfull, hseen⟩ := hmove.empties hα
      rw [hr] at hknows hagree
      obtain ⟨_, _, sent, hsent, hmatches⟩ := hagree
      obtain ⟨m, rfl, _⟩ := hmatches.full hfull
      exact ⟨⟨m, hwritten m (Sender.Role.message_of_published hsent)⟩, hknows.2.1 hseen⟩
  · rintro τ₁ waker τ₂ rfl
    obtain ⟨p₁, hp₁, hrest⟩ := hp.split
    obtain ⟨p₂, htake, _⟩ := hrest.cons_inv
    have hlog := (wakerLedger_run hp₁).log
    have htaken := (handed_run (waker_handover false) (by rintro ⟨_, h | h⟩ <;> cases h)
      (by rintro ⟨_, h⟩; cases h) hp₁).taken
    cases htake.moves with
    | still hl => cases hl
    | sender hmove _ hacts =>
      obtain ⟨env, hexec⟩ := hacts
      have hwaker : p₁.memory.channel.waker = some waker := (Memory.exec_channel hexec).1
      rw [hwaker] at hlog
      obtain ⟨message, hs⟩ := hmove.unparking
      exact ⟨hlog.last, htaken ⟨message, hs⟩⟩

end Proto

/-- The receiver receives, and the sender wakes, only what the other side has written
    before. -/
theorem send_before_receive {σ₀ σ : System T} {τ : List (Label T)} (hinitial : σ₀.Initial)
    (hrun : Run System.Step σ₀ τ σ) : SendBeforeReceive τ := by
  obtain ⟨token, rfl | rfl⟩ := hinitial
  · exact (Proto.simulates_channel token).sendBeforeReceive hrun
  · exact (Proto.simulates_async_channel token).sendBeforeReceive hrun

theorem send_before_receive_timed_out :
    SendBeforeReceive ((System.channel Nat fun _ => false).labels System.timed_out) :=
  send_before_receive ⟨_, .inl rfl⟩ (System.run_of_play (by decide))

end oneshot
