import Oneshot.Protocol.Staleness
import Oneshot.Properties.Deallocation

open conc

namespace oneshot

variable {T : Type}

/-- A step that comes after the run `τ` races with none of the accesses the other side
    has made: if it is an access to a cell, its side has seen them all happen. -/
structure Ordered (τ : List (Label T)) (V : Views Side Thread) (l : Label T) : Prop where
  sender : ∀ cell, l.accesses .sender cell = true →
    positions (Label.accesses .receiver cell) τ ⊆ V.view .sender
  receiver : ∀ cell, l.accesses .receiver cell = true →
    positions (Label.accesses .sender cell) τ ⊆ V.view .receiver

/-- An event of a run after which nobody has lost sight of anything. -/
structure Grown (V : Views Side Thread) (l : Label T) (V' : Views Side Thread) : Prop where
  time : V'.time = V.time + 1
  view : ∀ side, V.view side ⊆ V'.view side
  pending : ∀ side, V.pending side ⊆ V'.pending side
  sender : l.ofSender = true → V.time ∈ V'.view .sender
  receiver : l.ofReceiver = true → V.time ∈ V'.view .receiver

/-- Each side sees its own events. -/
structure Timed (τ : List (Label T)) (V : Views Side Thread) : Prop where
  time : V.time = τ.length
  sent : positions Label.ofSender τ ⊆ V.view .sender
  received : positions Label.ofReceiver τ ⊆ V.view .receiver

section

variable {τ : List (Label T)} {l : Label T} {V V' : Views Side Thread} {α : (interface T).Action}

theorem seen_sender : (Label.sender (.act α)).seen V = V.step .sender (syncOp true α) := rfl

theorem seen_receiver : (Label.receiver (.act α)).seen V = V.step .receiver (syncOp true α) := rfl

theorem seen_some {side : Side} {o : SyncOp Thread} (hl : l.sync true = some (side, o)) :
    l.seen V = V.step side o := by
  rw [Label.seen, hl]

theorem sync_of_sender (e : (sender T).Event) :
    ∃ o, (Label.sender e).sync true = some (.sender, o) := by
  cases e <;> exact ⟨_, rfl⟩

theorem sync_of_receiver (e : (receiver T).Event) :
    ∃ o, (Label.receiver e).sync true = some (.receiver, o) := by
  cases e <;> exact ⟨_, rfl⟩

theorem grown_seen (l : Label T) (V : Views Side Thread) : Grown V l (l.seen V) := by
  cases l with
  | sender e =>
    obtain ⟨o, ho⟩ := sync_of_sender e
    have hown : V.time ∈ (V.step .sender o).view .sender :=
      Views.view_step (Finset.mem_insert_self _ _)
    rw [seen_some ho]
    exact ⟨Views.step_time V .sender o, fun _ => Views.view_mono, fun _ => Views.pending_mono,
      fun _ => hown, by rintro ⟨⟩⟩
  | receiver e =>
    obtain ⟨o, ho⟩ := sync_of_receiver e
    have hown : V.time ∈ (V.step .receiver o).view .receiver :=
      Views.view_step (Finset.mem_insert_self _ _)
    rw [seen_some ho]
    exact ⟨Views.step_time V .receiver o, fun _ => Views.view_mono, fun _ => Views.pending_mono,
      by rintro ⟨⟩, fun _ => hown⟩
  | stray thread =>
    exact ⟨rfl, fun _ => Finset.Subset.refl _, fun _ => Finset.Subset.refl _, by rintro ⟨⟩,
      by rintro ⟨⟩⟩

theorem Timed.step (h : Timed τ V) (hgrown : Grown V l V') : Timed (τ ++ [l]) V' := by
  refine ⟨?_, ?_, ?_⟩
  · rw [hgrown.time, h.time, List.length_append, List.length_singleton]
  · rw [positions_snoc]
    split
    · refine Finset.insert_subset ?_ (h.sent.trans (hgrown.view _))
      rw [← h.time]
      exact hgrown.sender ‹_›
    · exact h.sent.trans (hgrown.view _)
  · rw [positions_snoc]
    split
    · refine Finset.insert_subset ?_ (h.received.trans (hgrown.view _))
      rw [← h.time]
      exact hgrown.receiver ‹_›
    · exact h.received.trans (hgrown.view _)

end

/-- A receiver that misses a write learns nothing. -/
theorem Receiver.Role.Misses.knows {r r' : Role T} {α : (interface T).Action}
    {W F view pending : Finset ℕ} (hmisses : r.Misses α r') (hknows : r.Knows W F view pending) :
    r'.Knows W F view pending := by
  cases hmisses <;> exact hknows

section

variable {τ : List (Label T)} {l : Label T} {V V' : Views Side Thread} {p p' : Proto T}
  {α : (interface T).Action}

/-- What the sender has released is attached to the latest value, until the receiver
    knows of it, and the receiver knows what its role says. -/
structure Aware (τ : List (Label T)) (V : Views Side Thread) (p : Proto T) : Prop where
  written : p.s.announced = true → p.r.carries = true → writing τ ⊆ V.attached
  published : p.s.published ≠ none → p.r.carries = true → publishing τ ⊆ V.attached
  knows : p.r.Knows (writing τ) (publishing τ) (V.view .receiver) (V.pending .receiver)

/-- A step that makes no access leaves what is attached. -/
theorem attached_still (hl : l.action = none) : V.attached ⊆ (l.seen V).attached := by
  obtain hnone | ⟨side, hsome⟩ := sync_of_still true hl
  · rw [Label.seen, hnone]
    exact Finset.Subset.refl _
  · rw [seen_some hsome]
    exact Views.attached_mono (by simp)

theorem writing_still (hl : l.action = none) : writing (τ ++ [l]) = writing τ := by
  refine writing_snoc ?_
  cases l with
  | sender e => cases e <;> first | rfl | cases hl
  | _ => rfl

theorem Aware.sender (h : Aware τ V p) (htimed : Timed τ V) (hmove : p.s.Move α p'.s)
    (hr : p'.r = p.r) :
    Aware (τ ++ [.sender (.act α)]) (V.step .sender (syncOp true α)) p' := by
  have hagree : Receiver.Role.Agree p.r p.s p.memory.channel := p.agree
  obtain ⟨hannounced, hpublished, hstore, hwrites, htouches⟩ := hmove.releases true
  have hattached : V.attached ⊆ (V.step .sender (syncOp true α)).attached :=
    Views.attached_mono hstore
  have hreleased (hα : syncOp true α = .update .AcqRel) :
      positions Label.ofSender (τ ++ [.sender (.act α)]) ⊆
        (V.step .sender (syncOp true α)).attached := by
    have hsent := (htimed.step (grown_seen (.sender (.act α)) V)).sent
    rw [seen_sender, hα] at hsent
    rw [hα]
    exact hsent.trans (Views.attached_release rfl)
  have hquiet (hs : p.s.published ≠ none) :
      publishing (τ ++ [.sender (.act α)]) = publishing τ :=
    publishing_snoc (by simp [Label.senderTouches, Label.touches, Label.action, htouches hs])
  refine ⟨fun hs' hcarries => ?_, fun hs' hcarries => ?_, ?_⟩
  · obtain hs | hα := hannounced hs'
    · rw [writing_snoc (hwrites hs)]
      exact (h.written hs (hr ▸ hcarries)).trans hattached
    · exact upTo_subset.trans (hreleased hα)
  · obtain hs | hα := hpublished hs'
    · rw [hquiet hs]
      exact (h.published hs (hr ▸ hcarries)).trans hattached
    · exact upTo_subset.trans (hreleased hα)
  · rw [hr]
    have hmono := h.knows.mono
      (Views.view_mono (V := V) (i := Side.sender) (o := syncOp true α))
      (Views.pending_mono (V := V) (i := Side.sender) (o := syncOp true α))
    cases hs : p.s.announced with
    | false => exact Receiver.Role.knows_of_unannounced hagree hs _ _ _ _
    | true =>
      rw [writing_snoc (hwrites hs)]
      by_cases hnone : p.s.published = none
      · exact hmono.of_agree hagree hnone
      · rwa [hquiet hnone]

theorem Aware.receiver (h : Aware τ V p) (hmove : p.r.Move α p'.r) (hs : p'.s = p.s) :
    Aware (τ ++ [.receiver (.act α)]) (V.step .receiver (syncOp true α)) p' := by
  have hagree' : Receiver.Role.Agree p'.r p'.s p'.memory.channel := p'.agree
  rw [hs] at hagree'
  have hW : writing (τ ++ [.receiver (.act α)]) = writing τ := writing_snoc rfl
  have hF : publishing (τ ++ [.receiver (.act α)]) = publishing τ := publishing_snoc rfl
  have hkept (hcarries' : p'.r.carries = true) : p.r.carries = true ∧
      V.attached ⊆ (V.step .receiver (syncOp true α)).attached := by
    obtain ⟨hcarries, hstore⟩ := hmove.carries true hcarries'
    exact ⟨hcarries, Views.attached_mono hstore⟩
  refine ⟨fun hs' hcarries' => ?_, fun hs' hcarries' => ?_, ?_⟩
  · rw [hW]
    obtain ⟨hcarries, hattached⟩ := hkept hcarries'
    exact (h.written (hs ▸ hs') hcarries).trans hattached
  · rw [hF]
    obtain ⟨hcarries, hattached⟩ := hkept hcarries'
    exact (h.published (hs ▸ hs') hcarries).trans hattached
  · rw [hW, hF]
    exact hmove.knows true hagree' writing_subset_publishing h.written h.published h.knows

theorem Aware.prompt (h : Aware τ V p) (htimed : Timed τ V) (hstep : Proto.Step p l p') :
    Aware (τ ++ [l]) (l.seen V) p' := by
  cases hstep.moves with
  | sender hmove hr => exact h.sender htimed hmove hr
  | receiver hmove hs => exact h.receiver hmove hs
  | still hl hs hr =>
    have hgrown := grown_seen l V
    have hF : publishing (τ ++ [l]) = publishing τ :=
      publishing_snoc (by simp [Label.senderTouches, touches_of_still hl])
    refine ⟨?_, ?_, ?_⟩
    · rw [hs, hr, writing_still hl]
      exact fun hs hr => (h.written hs hr).trans (attached_still hl)
    · rw [hs, hr, hF]
      exact fun hs hr => (h.published hs hr).trans (attached_still hl)
    · rw [hr, writing_still hl, hF]
      exact h.knows.mono (hgrown.view _) (hgrown.pending _)

theorem Aware.missed (h : Aware τ V p) (hmissed : p.Missed l p') (hgrown : Grown V l V')
    (hattached : V'.attached = V.attached) : Aware (τ ++ [l]) V' p' := by
  have hmono := h.knows.mono (hgrown.view .receiver) (hgrown.pending .receiver)
  obtain ⟨hmemory, hs, ⟨hfresh, hr, order, v, rfl⟩ | ⟨α, rfl, hmisses⟩⟩ := hmissed.cases
  · have hagree : Receiver.Role.Agree p.r p.s p.memory.channel := p.agree
    refine ⟨?_, ?_, ?_⟩
    · rw [hs, hfresh]
      rintro ⟨⟩
    · rw [hs, hfresh]
      exact fun h => (h rfl).elim
    · rw [hr]
      exact Receiver.Role.knows_of_unannounced hagree (by rw [hfresh]; rfl) _ _ _ _
  · have hW : writing (τ ++ [.receiver (.act α)]) = writing τ := writing_snoc rfl
    have hF : publishing (τ ++ [.receiver (.act α)]) = publishing τ := publishing_snoc rfl
    obtain ⟨order, hload⟩ := hmisses.load true
    refine ⟨?_, ?_, ?_⟩
    · rw [hs, hW, hattached]
      exact fun hs hr' => h.written hs (hmisses.move.carries true hr').1
    · rw [hs, hF, hattached]
      exact fun hs hr' => h.published hs (hmisses.move.carries true hr').1
    · rw [hW, hF]
      exact hmisses.knows hmono

end

section

variable {P : Label T → Bool} {R : Receiver.Role T → Prop} {S : Sender.Role T → Prop}
  {τ : List (Label T)} {l : Label T} {V V' : Views Side Thread} {p p' : Proto T}
  {α : (interface T).Action}

/-- The receiver hands its accesses of a kind over to the sender, when the views of the
    two sides are `V`. -/
structure Hands (P : Label T → Bool) (R : Receiver.Role T → Prop) (S : Sender.Role T → Prop)
    (τ : List (Label T)) (V : Views Side Thread) (p : Proto T) : Prop where
  stored : R p.r → p.s.announced = false → positions P τ ⊆ V.attached
  taken : S p.s → positions P τ ⊆ V.view .sender

theorem Handover.not_act (hand : Proto.Handover true P R S) (hl : ∀ α, l ≠ .receiver (.act α)) :
    positions P (τ ++ [l]) = positions P τ := by
  refine Proto.positions_keep ?_
  by_contra hP
  obtain ⟨α, hα⟩ := hand.accesses l (by simpa using hP)
  exact hl α hα

theorem Hands.sender (h : Hands P R S τ V p) (hand : Proto.Handover true P R S)
    (hmove : p.s.Move α p'.s) (hr : p'.r = p.r)
    (hanswers : p.memory.channel.Answers α.access α.resp) :
    Hands P R S (τ ++ [.sender (.act α)]) (V.step .sender (syncOp true α)) p' := by
  have hagree : Receiver.Role.Agree p.r p.s p.memory.channel := p.agree
  have hP : positions P (τ ++ [.sender (.act α)]) = positions P τ :=
    Handover.not_act hand fun _ h => by cases h
  refine ⟨fun hR hs' => ?_, fun hS => ?_⟩
  · obtain ⟨_, _, hstore, _⟩ := hmove.releases true
    rw [hP]
    exact (h.stored (hr ▸ hR) (Proto.announced_move hmove hs')).trans (Views.attached_mono hstore)
  · rw [hP]
    obtain hS | ⟨hs, hR, hα⟩ := hand.acquire _ _ _ _ _ hmove hagree hanswers hS
    · exact (h.taken hS).trans Views.view_mono
    · rw [hα]
      exact (h.stored hR hs).trans (Views.view_acquire (.inr rfl) rfl)

theorem Hands.receiver (h : Hands P R S τ V p) (hand : Proto.Handover true P R S)
    (htimed : Timed τ V) (hmove : p.r.Move α p'.r) (hs : p'.s = p.s) :
    Hands P R S (τ ++ [.receiver (.act α)]) (V.step .receiver (syncOp true α)) p' := by
  have hagree : Receiver.Role.Agree p.r p.s p.memory.channel := p.agree
  refine ⟨fun hR hs' => ?_, fun hS => ?_⟩
  · obtain ⟨hR, hP, hstore⟩ | ⟨order, hα, hreleases⟩ := hand.release _ _ _ hmove hR
    · rw [Proto.positions_keep hP]
      exact (h.stored hR (hs ▸ hs')).trans (Views.attached_mono hstore)
    · have hreceived := (htimed.step (grown_seen (.receiver (.act α)) V)).received
      rw [seen_receiver, hα] at hreceived
      rw [hα]
      exact (hand.subset _).trans (hreceived.trans (Views.attached_release hreleases))
  · rw [hs] at hS
    rw [Proto.positions_keep (hand.quiet _ _ _ _ _ hS hagree hmove)]
    exact (h.taken hS).trans Views.view_mono

theorem Hands.prompt (h : Hands P R S τ V p) (hand : Proto.Handover true P R S)
    (htimed : Timed τ V) (hstep : Proto.Step p l p') : Hands P R S (τ ++ [l]) (l.seen V) p' := by
  cases hstep.moves with
  | sender hmove hr hacts =>
    obtain ⟨env, hexec⟩ := hacts
    exact h.sender hand hmove hr (Memory.exec_channel hexec).1
  | receiver hmove hs => exact h.receiver hand htimed hmove hs
  | still hl hs hr =>
    have hP : positions P (τ ++ [l]) = positions P τ := by
      refine Handover.not_act hand ?_
      rintro α rfl
      cases hl
    refine ⟨fun hR hs' => ?_, fun hS => ?_⟩
    · rw [hP]
      exact (h.stored (hr ▸ hR) (hs ▸ hs')).trans (attached_still hl)
    · rw [hP]
      exact (h.taken (hs ▸ hS)).trans ((grown_seen l V).view _)

theorem Hands.missed (h : Hands P R S τ V p) (hand : Proto.Handover true P R S)
    (hmissed : p.Missed l p') (hgrown : Grown V l V') (hattached : V'.attached = V.attached) :
    Hands P R S (τ ++ [l]) V' p' := by
  have hagree : Receiver.Role.Agree p.r p.s p.memory.channel := p.agree
  obtain ⟨hmemory, hs, ⟨hfresh, hr, order, v, rfl⟩ | ⟨α, rfl, hmisses⟩⟩ := hmissed.cases
  · have hP : positions P (τ ++ [.sender (.act ⟨.load order, v⟩)]) = positions P τ :=
      Handover.not_act hand fun _ h => by cases h
    refine ⟨fun hR hs' => ?_, fun hS => ?_⟩
    · rw [hP, hattached]
      exact h.stored (hr ▸ hR) (hs ▸ hs')
    · rw [hP]
      exact (h.taken (hs ▸ hS)).trans (hgrown.view _)
  · obtain ⟨order, hload⟩ := hmisses.load true
    refine ⟨fun hR hs' => ?_, fun hS => ?_⟩
    · obtain ⟨hR, hP, _⟩ | ⟨_, hα, _⟩ := hand.release _ _ _ hmisses.move hR
      · rw [Proto.positions_keep hP, hattached]
        exact h.stored hR (hs ▸ hs')
      · rw [hload] at hα
        cases hα
    · rw [hs] at hS
      rw [Proto.positions_keep (hand.quiet _ _ _ _ _ hS hagree hmisses.move)]
      exact (h.taken hS).trans (hgrown.view _)

end

/-- The receiver's accesses to the waker cell are handed over with `RECEIVING`. -/
theorem waker_cell_handover : Proto.Handover (T := T) true (Label.accesses .receiver .waker)
    (fun r => ∃ waker, r = .waiting waker ∨ r = .woken waker)
    (fun s => ∃ message, s = .unparking message) where
  accesses l hl := by
    cases l with
    | receiver e =>
      cases e with
      | act α => exact ⟨α, rfl⟩
      | _ => cases hl
    | sender e => cases e <;> cases hl
    | stray => cases hl
  release r α r' hmove hR := by
    obtain ⟨hR₀, _, hstore⟩ | hrelease := (Proto.waker_handover true).release r α r' hmove hR
    · refine .inl ⟨hR₀, ?_, hstore⟩
      obtain ⟨waker, rfl | rfl⟩ := hR₀ <;> cases hmove <;> rfl
    · exact .inr hrelease
  acquire := (Proto.waker_handover true).acquire
  quiet s r x α r' hS hagree hmove := by
    obtain ⟨message, rfl⟩ := hS
    have hno (b : UInt8) (waker : ReceiverWaker)
        (hs : (Sender.Role.unparking message).Window b waker x) :
        (Label.receiver (.act α)).accesses .receiver .waker = false := by
      have hop := hmove.window hagree hs
      obtain ⟨a, v⟩ := α
      cases a <;> first | rfl | cases hop
    cases r with
    | idle | armed => obtain h | h := hagree <;> exact h.elim
    | waiting | woken =>
      obtain h | h | h := hagree
      · exact h.elim
      · exact hno _ _ h
      · exact h.elim
    | caught | expired | expired_woken | leaving | quitting | abandoned =>
      obtain h | h := hagree
      · exact hno _ _ h
      · exact h.elim
    | own y =>
      obtain ⟨_, _, _, h, _⟩ := hagree
      cases h
    | left => cases hmove
    | released => cases hmove

/-- The sender has not emptied the waker cell. -/
def Sender.Role.untaken : Sender.Role T → Bool
  | .taken _ _ | .notify _ _ | .finished _ => false
  | _ => true

/-- The receiver may write a waker, or has one in the cell that the sender does not know of. -/
def Receiver.Role.spare : Receiver.Role T → Bool
  | .idle | .armed _ => true
  | .own y => y.waker.isSome
  | _ => false

/-- How far the two cells were used. -/
structure Cells (τ : List (Label T)) (p : Proto T) : Prop where
  unread : p.s.published = none → positions (Label.accesses .receiver .message) τ = ∅
  unsent : p.s.lost = false →
    positions (Label.accesses .sender .message) τ ⊆ positions Label.writesMessage τ
  untaken : p.r.spare = true ∨ p.s.untaken = true →
    positions (Label.accesses .sender .waker) τ = ∅

section

variable {τ : List (Label T)} {l : Label T} {p p' : Proto T} {α : (interface T).Action}

theorem Sender.Role.Move.untaken {s s' : Role T} (hmove : s.Move α s') (hs' : s'.untaken = true) :
    s.untaken = true ∧ (Label.sender (.act α)).accesses .sender .waker = false := by
  cases hmove <;> first | exact ⟨rfl, rfl⟩ | cases hs'

theorem Sender.Role.Move.takes {s s' : Role T} (hmove : s.Move α s')
    (hα : (Label.sender (.act α)).accesses .sender .waker = true) :
    ∃ message, s = .unparking message := by
  cases hmove <;> first | exact ⟨_, rfl⟩ | cases hα

theorem Sender.Role.Move.unsent {s s' : Role T} (hmove : s.Move α s') (hs' : s'.lost = false) :
    s.lost = false ∧ ((Label.sender (.act α)).accesses .sender .message = true →
      (Label.sender (.act α)).writesMessage = true) := by
  cases hmove with
  | send_disconnected | drop_disconnected | take_back | discard | free => cases hs'
  | write => exact ⟨rfl, fun _ => rfl⟩
  | _ => exact ⟨rfl, by rintro ⟨⟩⟩

theorem Receiver.Role.Move.reads_message {r r' : Role T} (hmove : r.Move α r')
    (hα : (Label.receiver (.act α)).accesses .receiver .message = true) :
    ∃ x, r = .own x ∧ x.seen ≠ .relaxed := by
  cases hmove with
  | own_take x message hfull hseen => exact ⟨x, rfl, hseen⟩
  | own_drop x hfull hseen => exact ⟨x, rfl, hseen⟩
  | _ => cases hα

/-- A receiver comes to have a spare waker only before the sender has announced itself. -/
theorem Receiver.Role.Move.spare {r r' : Role T} {s : Sender.Role T} {x : Channel T}
    (hmove : r.Move α r') (hagree : r.Agree s x) (hanswers : x.Answers α.access α.resp)
    (hr' : r'.spare = true) : r.spare = true ∨ s.untaken = true := by
  have hbefore {waker : ReceiverWaker} (hagree : (Role.waiting waker).Agree s x)
      (hstate : x.state = RECEIVING) : s.untaken = true := by
    obtain h | h | h := hagree
    · cases s <;> first | rfl | exact h.elim
    · have hbyte := h.holds
      rw [hstate] at hbyte
      cases hbyte
    · obtain ⟨o, _, rfl⟩ := h.published
      cases o <;> cases hstate
  cases hmove with
  | expire => exact .inr (hbefore hagree (Eq.symm hanswers))
  | retract => exact .inr (hbefore hagree (Channel.answers_ok hanswers))
  | own_load | own_store | own_swap | own_fence | own_clock | own_take | own_drop =>
    exact .inl hr'
  | look_empty | clock | clone | store_waker | publish_late | exchange_late | disarm => exact .inl rfl
  | _ => cases hr'

theorem Receiver.Role.Misses.spare {r r' : Role T} (hmisses : r.Misses α r') :
    r'.spare = r.spare ∧ α.access.cell = none := by
  cases hmisses <;> exact ⟨rfl, rfl⟩

theorem accesses_still (hl : l.action = none) (side : Side) (cell : Cell) :
    l.accesses side cell = false := by
  cases l with
  | sender e => cases e <;> first | rfl | cases hl
  | receiver e => cases e <;> first | rfl | cases hl
  | stray => rfl

theorem Cells.still (h : Cells τ p) (hcell : ∀ side cell, l.accesses side cell = false)
    (hs : p'.s = p.s) (hr : p'.r.spare = p.r.spare) : Cells (τ ++ [l]) p' := by
  refine ⟨?_, ?_, ?_⟩
  · rw [hs, Proto.positions_keep (hcell _ _)]
    exact h.unread
  · rw [hs, Proto.positions_keep (hcell _ _), positions_snoc]
    intro hlost
    split
    · exact (h.unsent hlost).trans (Finset.subset_insert _ _)
    · exact h.unsent hlost
  · rw [hs, hr, Proto.positions_keep (hcell _ _)]
    exact h.untaken

theorem Cells.sender (h : Cells τ p) (hmove : p.s.Move α p'.s) (hr : p'.r = p.r) :
    Cells (τ ++ [.sender (.act α)]) p' := by
  have hagree : Receiver.Role.Agree p.r p.s p.memory.channel := p.agree
  refine ⟨fun hs' => ?_, fun hs' => ?_, fun huntaken => ?_⟩
  · rw [Proto.positions_keep rfl]
    refine h.unread ?_
    by_contra hs
    exact Proto.published_kept hmove hs hs'
  · obtain ⟨hs, hwrites⟩ := hmove.unsent hs'
    have hold := h.unsent hs
    rw [positions_snoc, positions_snoc]
    split
    · rw [if_pos (hwrites ‹_›)]
      exact Finset.insert_subset_insert _ hold
    · split
      · exact hold.trans (Finset.subset_insert _ _)
      · exact hold
  · have hspoiled (hspare : p.r.spare = true) : ¬ ∃ message, p.s = .unparking message := by
      rintro ⟨message, hs⟩
      rw [hs] at hagree
      cases hr : p.r <;> rw [hr] at hspare hagree <;> try cases hspare
      case idle | armed => obtain h | h := hagree <;> exact h.elim
      case own =>
        obtain ⟨_, _, _, h, _⟩ := hagree
        cases h
    have hquiet : (Label.sender (.act α)).accesses .sender .waker = false ∧
        (p.r.spare = true ∨ p.s.untaken = true) := by
      obtain hspare | huntaken := huntaken
      · rw [hr] at hspare
        refine ⟨?_, .inl hspare⟩
        by_contra hα
        exact hspoiled hspare (hmove.takes (by simpa using hα))
      · obtain ⟨hs, hα⟩ := hmove.untaken huntaken
        exact ⟨hα, .inr hs⟩
    rw [Proto.positions_keep hquiet.1]
    exact h.untaken hquiet.2

theorem Cells.receiver (h : Cells τ p) (hmove : p.r.Move α p'.r) (hs : p'.s = p.s)
    (hanswers : p.memory.channel.Answers α.access α.resp) :
    Cells (τ ++ [.receiver (.act α)]) p' := by
  have hagree : Receiver.Role.Agree p.r p.s p.memory.channel := p.agree
  refine ⟨fun hs' => ?_, fun hs' => ?_, fun huntaken => ?_⟩
  · rw [hs] at hs'
    rw [Proto.positions_keep ?_]
    · exact h.unread hs'
    · by_contra hα
      obtain ⟨x, hr, _⟩ := hmove.reads_message (by simpa using hα)
      rw [hr] at hagree
      obtain ⟨_, _, _, hpublished, _⟩ := hagree
      rw [hs'] at hpublished
      cases hpublished
  · rw [Proto.positions_keep rfl, Proto.positions_keep rfl]
    exact h.unsent (hs ▸ hs')
  · rw [Proto.positions_keep rfl]
    refine h.untaken ?_
    obtain hspare | huntaken := huntaken
    · exact hmove.spare hagree hanswers hspare
    · exact .inr (hs ▸ huntaken)

theorem Cells.prompt (h : Cells τ p) (hstep : Proto.Step p l p') : Cells (τ ++ [l]) p' := by
  cases hstep.moves with
  | still hl hs hr => exact h.still (accesses_still hl) hs (by rw [hr])
  | sender hmove hr => exact h.sender hmove hr
  | receiver hmove hs hacts =>
    obtain ⟨env, hexec⟩ := hacts
    exact h.receiver hmove hs (Memory.exec_channel hexec).1

theorem Cells.missed (h : Cells τ p) (hmissed : p.Missed l p') : Cells (τ ++ [l]) p' := by
  obtain ⟨hmemory, hs, ⟨hfresh, hr, order, v, rfl⟩ | ⟨α, rfl, hmisses⟩⟩ := hmissed.cases
  · refine h.still (fun side cell => ?_) hs (by rw [hr])
    simp [Label.accesses, Access.cell]
  · obtain ⟨hr, hcell⟩ := hmisses.spare
    refine h.still (fun side cell => ?_) hs hr
    cases side <;> simp [Label.accesses, hcell]

end

namespace WeakProto

/-- What a run on a weakly ordered machine keeps: whatever a side may need to have seen is
    in its view, or comes with the latest value of the byte. -/
structure Guarded (τ : List (Label T)) (q : WeakProto T) : Prop where
  timed : Timed τ q.history.current
  aware : Aware τ q.history.current q.proto
  cells : Cells τ q.proto
  waker : Hands (Label.accesses .receiver .waker)
    (fun r => ∃ waker, r = .waiting waker ∨ r = .woken waker)
    (fun s => ∃ message, s = .unparking message) τ q.history.current q.proto
  left : Hands Label.receiverTouches (fun r => r = .left) (fun s => s.lost = true) τ
    q.history.current q.proto

/-- A stale load leaves the views as they were, but for the load itself. -/
theorem grown_stale {H H' : History Side Thread UInt8} {l : Label T} {side : Side}
    {order : MemOrder} {u : UInt8} (hl : l.sync true = some (side, .load order))
    (hstale : H.Stale side (.load order) u u H') :
    Grown H.current l H'.current ∧ H'.current.attached = H.current.attached := by
  refine ⟨⟨hstale.time, hstale.view, hstale.pending, fun hby => ?_, fun hby => ?_⟩, hstale.released⟩
  · cases l with
    | sender e =>
      obtain ⟨o, ho⟩ := sync_of_sender e
      rw [ho] at hl
      cases hl
      exact hstale.own
    | _ => cases hby
  · cases l with
    | receiver e =>
      obtain ⟨o, ho⟩ := sync_of_receiver e
      rw [ho] at hl
      cases hl
      exact hstale.own
    | _ => cases hby

theorem Guarded.step {τ : List (Label T)} {q q' : WeakProto T} {l : Label T} (h : Guarded τ q)
    (hstep : Step q l q') : Guarded (τ ++ [l]) q' := by
  have hprompt (hstep : Proto.Step q.proto l q'.proto)
      (hviews : q'.history.current = l.seen q.history.current) : Guarded (τ ++ [l]) q' := by
    rw [show q' = ⟨q'.proto, q'.history⟩ from rfl]
    refine ⟨?_, ?_, h.cells.prompt hstep, ?_, ?_⟩ <;> rw [hviews]
    · exact h.timed.step (grown_seen _ _)
    · exact h.aware.prompt h.timed hstep
    · exact h.waker.prompt waker_cell_handover h.timed hstep
    · exact h.left.prompt (Proto.left_handover true) h.timed hstep
  cases hstep with
  | prompt hstep hl hfresh => exact hprompt hstep (by rw [hfresh.current, seen_some hl])
  | stray thread hstep hhistory => exact hprompt hstep (by rw [hhistory]; rfl)
  | missed hmissed hl hstale =>
    obtain ⟨hgrown, hattached⟩ := grown_stale hl hstale
    exact ⟨h.timed.step hgrown, h.aware.missed hmissed hgrown hattached, h.cells.missed hmissed,
      h.waker.missed waker_cell_handover hmissed hgrown hattached,
      h.left.missed (Proto.left_handover true) hmissed hgrown hattached⟩

theorem guarded_run {h : Receiver.Handle} {token : Thread → Bool} {τ : List (Label T)}
    {q : WeakProto T} (hrun : Run Step (init h token) τ q) : Guarded τ q := by
  have hnone (P : Label T → Bool) : positions P [] = ∅ := rfl
  have hinit : Guarded [] (init h token : WeakProto T) := by
    refine ⟨⟨rfl, by simp [hnone], by simp [hnone]⟩, ⟨?_, ?_, trivial⟩, ⟨?_, ?_, ?_⟩, ⟨?_, ?_⟩,
      ⟨?_, ?_⟩⟩ <;> simp [hnone, init, Proto.init, Proto.s, Proto.r, Contract.Session.role,
        Sender.Role.announced, Sender.Role.published, Sender.Role.lost]
  exact hrun.invariant (P := Guarded) hinit fun _ _ _ _ _ h hstep => h.step hstep

theorem Guarded.sender_ordered {τ : List (Label T)} {q : WeakProto T} {s' : Sender.Role T}
    {α : (interface T).Action} (h : Guarded τ q) (hmove : q.proto.s.Move α s') {cell : Cell}
    (hcell : (Label.sender (.act α)).accesses .sender cell = true) :
    positions (Label.accesses .receiver cell) τ ⊆ q.history.view .sender := by
  have hunread := h.cells.unread
  have htaken := h.waker.taken
  generalize q.proto.s = s at hmove hunread htaken
  cases cell with
  | message =>
    have hnone : s.published = none := by
      cases hmove <;> first | rfl | cases hcell
    rw [hunread hnone]
    exact Finset.empty_subset _
  | waker => exact htaken (hmove.takes hcell)

theorem Guarded.receiver_ordered {τ : List (Label T)} {q : WeakProto T} {r' : Receiver.Role T}
    {α : (interface T).Action} (h : Guarded τ q) (hmove : q.proto.r.Move α r') {cell : Cell}
    (hcell : (Label.receiver (.act α)).accesses .receiver cell = true) :
    positions (Label.accesses .sender cell) τ ⊆ q.history.view .receiver := by
  have hagree : Receiver.Role.Agree q.proto.r q.proto.s q.proto.memory.channel := q.proto.agree
  cases cell with
  | message =>
    obtain ⟨x, hr, hseen⟩ := hmove.reads_message hcell
    have hknows := h.aware.knows
    rw [hr] at hknows hagree
    obtain ⟨_, _, sent, hsent, _⟩ := hagree
    have hlost : q.proto.s.lost = false := by
      generalize q.proto.s = s at hsent
      cases s <;> first | rfl | cases hsent
    have hwrites : positions Label.writesMessage τ ⊆ writing τ := by
      refine positions_subset_upTo fun l hl => ?_
      unfold Label.writesMessage at hl
      split at hl
      · rfl
      · cases hl
    exact (h.cells.unsent hlost).trans (hwrites.trans (hknows.2.1 hseen))
  | waker =>
    have hspare : q.proto.r.spare = true := by
      generalize q.proto.r = r at hmove
      cases hmove with
      | own_drop_waker x hwaker => exact hwaker
      | _ => first | rfl | cases hcell
    rw [h.cells.untaken (.inl hspare)]
    exact Finset.empty_subset _

/-- No access to a cell races with one that was made before. -/
theorem Guarded.ordered {τ : List (Label T)} {q q' : WeakProto T} {l : Label T} (h : Guarded τ q)
    (hstep : Step q l q') : Ordered τ q.history.current l := by
  have hno (hl : ∀ side cell, l.accesses side cell = false) :
      Ordered τ q.history.current l := by
    constructor <;> intro cell hcell <;> rw [hl] at hcell <;> cases hcell
  cases hstep with
  | prompt hstep =>
    cases hstep.moves with
    | still hl => exact hno (accesses_still hl)
    | sender hmove => exact ⟨fun _ hcell => h.sender_ordered hmove hcell, by rintro _ ⟨⟩⟩
    | receiver hmove => exact ⟨by rintro _ ⟨⟩, fun _ hcell => h.receiver_ordered hmove hcell⟩
  | stray => exact hno fun _ _ => rfl
  | missed hmissed =>
    refine hno fun side cell => ?_
    obtain ⟨_, _, ⟨_, _, order, v, rfl⟩ | ⟨α, rfl, hmisses⟩⟩ := hmissed.cases
    · simp [Label.accesses, Access.cell]
    · cases side <;> simp [Label.accesses, hmisses.spare.2]

end WeakProto

/-- On a machine that orders the accesses to the state byte only as the code asks for, the
    two cells are used without a data race. -/
theorem weak_race_free {σ₀ σ σ' : WeakSystem T} {τ : List (Label T)} {l : Label T}
    (hinitial : σ₀.Initial) (hrun : Run WeakSystem.Step σ₀ τ σ) (hstep : WeakSystem.Step σ l σ') :
    Ordered τ σ.memory.history.current l := by
  obtain ⟨h, token, hrenders⟩ := WeakProto.exists_init hinitial
  obtain ⟨q, hq, hrenders⟩ := hrenders.run hrun
  obtain ⟨q', hstep, _⟩ := hrenders.step (hrenders.finds hstep)
  rw [← hrenders.history]
  exact (WeakProto.guarded_run hq).ordered hstep

/-- A message that is sent, and then received by `try_recv`, up to the step that takes it. -/
def System.handed : List (Choice Nat) := sends (.send 5) 2 ++ receives .try_recv 4 0

theorem weak_race_free_handed :
    ∃ σ, Run WeakSystem.Step (.ofSystem (System.channel Nat fun _ => false))
        ((System.channel Nat fun _ => false).labels System.handed).dropLast σ ∧
      Ordered ((System.channel Nat fun _ => false).labels System.handed).dropLast
        σ.memory.history.current (.receiver (.act ⟨.take_message, (5 : Nat)⟩)) := by
  obtain ⟨H, hrun, _⟩ := WeakSystem.exists_run
    (@System.run_of_play Nat (System.channel Nat fun _ => false) System.handed (by decide))
  have hlabels : (System.channel Nat fun _ => false).labels System.handed =
      ((System.channel Nat fun _ => false).labels System.handed).dropLast ++
        [.receiver (.act ⟨.take_message, (5 : Nat)⟩)] := rfl
  rw [hlabels] at hrun
  obtain ⟨σ, hbefore, hstep⟩ := hrun.snoc_inv
  exact ⟨σ, hbefore, weak_race_free ⟨_, ⟨_, .inl rfl⟩, rfl⟩ hbefore hstep⟩

end oneshot
