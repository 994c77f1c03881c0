import Oneshot.Properties.Ordering
import Oneshot.Properties.Unreachable

open conc

namespace oneshot

variable {T : Type}

/-- Whichever side frees the channel has seen every access that the other side ever
    makes to it. -/
structure DeallocSynchronised (τ : List (Label T)) : Prop where
  receiver : ∀ τ₁ τ₂, τ = τ₁ ++ .receiver (.act ⟨.dealloc, ()⟩) :: τ₂ →
    positions Label.senderTouches τ ⊆ (views true τ₁).view .receiver
  sender : ∀ τ₁ τ₂, τ = τ₁ ++ .sender (.act ⟨.dealloc, ()⟩) :: τ₂ →
    positions Label.receiverTouches τ ⊆ (views true τ₁).view .sender

/-- How a receiver has come by the message in `wait_for_unpark`, as far as a run shows
    it: the threads the sender has unparked; whether the receiver's last step was a
    park that consumed no unpark of the sender; whether the relaxed load after such a
    park has found the message; and whether the receiver was dropped since. -/
structure Exits where
  unparked : List Thread
  idle : Bool
  early : Bool
  dropped : Bool

def Exits.step (e : Exits) : Label T → Exits
  | .sender (.act ⟨.unpark thread, _⟩) => { e with unparked := thread :: e.unparked }
  | .receiver (.act ⟨.park thread, w⟩) =>
    { e with idle := !(decide ((w : Wakeup) = .unparked) && e.unparked.contains thread) }
  | .receiver (.act ⟨.load order, v⟩) =>
    { e with
      idle := false
      early := e.early || (e.idle && !order.acquires && decide ((v : UInt8) = MESSAGE)) }
  | .receiver (.call .drop) => { e with idle := false, dropped := e.dropped || e.early }
  | .receiver _ => { e with idle := false }
  | _ => e

def exits (τ : List (Label T)) : Exits := τ.foldl Exits.step ⟨[], false, false, false⟩

theorem exits_snoc (τ : List (Label T)) (l : Label T) : exits (τ ++ [l]) = (exits τ).step l := by
  simp [exits, List.foldl_append]

theorem Exits.dropped_step {e : Exits} {l : Label T} (he : e.dropped = true) :
    (e.step l).dropped = true := by
  unfold Exits.step
  split <;> simp [he]

theorem dropped_append {τ τ' : List (Label T)} (h : (exits (τ ++ τ')).dropped = false) :
    (exits τ).dropped = false := by
  induction τ' using List.reverseRecOn with
  | nil => rwa [List.append_nil] at h
  | append_singleton τ' l ih =>
    refine ih ?_
    rw [← List.append_assoc, exits_snoc] at h
    by_contra hd
    rw [Exits.dropped_step (by simpa using hd)] at h
    cases h

namespace Proto

/-- A receiver that is dropped hands all its accesses over to the sender. -/
theorem left_handover (parking : Bool) : Handover (T := T) parking Label.receiverTouches
    (fun r => r = .left) (fun s => s.lost = true) where
  accesses l hl := by
    cases l with
    | receiver e =>
      cases e with
      | act α => exact ⟨α, rfl⟩
      | _ => cases hl
    | _ => cases hl
  release r α r' hmove hr' := by
    cases hmove with
    | leave => exact .inr ⟨.AcqRel, rfl, rfl⟩
    | _ => cases hr'
  acquire s α s' r x hmove hagree hanswers hs' := by
    have hleft (hs : s.announced = false) (hstate : x.state = DISCONNECTED) : r = .left := by
      cases s with
      | fresh | wrote =>
        cases r <;>
          simp_all [Receiver.Role.Agree, Sender.Role.Before, Sender.Role.Window,
            Sender.Role.Notified, Sender.Role.Finished, Sender.Role.published]
      | _ => cases hs
    cases hmove with
    | send_disconnected | drop_disconnected => exact .inr ⟨rfl, hleft rfl (Eq.symm hanswers), rfl⟩
    | take_back | discard | free => exact .inl rfl
    | _ => cases hs'
  quiet s r x α r' hs hagree hmove := by
    rw [hagree.left_of_lost hs] at hmove
    cases hmove

/-- A step of the receiver that is no access is made where a handle is held, or where
    a loop is begun. -/
theorem Step.pauses {p p' : Proto T} {e : (oneshot.receiver T).Event}
    (hstep : Step p (.receiver e) p') (he : ∀ α, e ≠ .act α) :
    p.r.waits ∨ ∃ h, Receiver.Ready h p.r := by
  obtain ⟨μ, ss, rs, hagree⟩ := p
  obtain ⟨μ', ss', rs', hagree'⟩ := p'
  cases hstep with
  | receiver hsession =>
    cases hsession with
    | call haccepts hready => exact .inr ⟨_, hready⟩
    | act => exact (he _ rfl).elim
    | enter hwaits => exact .inl hwaits
    | ret hpost => exact .inr ⟨_, hpost.1⟩

/-- The roles of a receiver that has stored no waker. -/
def unarmed : Receiver.Role T → Bool
  | .idle | .own _ | .left | .released _ _ => true
  | _ => false

theorem unarmed_move {r r' : Receiver.Role T} {α : (interface T).Action} (hmove : r.Move α r')
    (hr : unarmed r = true) (hα : ∀ waker, α ≠ ⟨.write_waker waker, ()⟩) : unarmed r' = true := by
  cases hmove with
  | store_waker waker => exact (hα waker rfl).elim
  | _ => first | rfl | cases hr

/-- An access belongs to the call that was going on before it. -/
theorem Step.during {p p' : Proto T} {α : (interface T).Action} {c : Receiver.Call}
    {r : Receiver.Role T} {g : Receiver.Progress T} (hstep : Step p (.receiver (.act α)) p')
    (hreceiver : p'.receiver = .during c r g) : ∃ r₀ g₀, p.receiver = .during c r₀ g₀ := by
  obtain ⟨μ, ss, rs, hagree⟩ := p
  obtain ⟨μ', ss', rs', hagree'⟩ := p'
  cases hstep with
  | receiver hsession =>
    cases hsession with
    | act =>
      cases hreceiver
      exact ⟨_, _, rfl⟩

/-- The destructor of a `Receiver` stores no waker, and so never waits. -/
def Unarmed : (Receiver.contract T).Session → Prop
  | .during .drop r _ => unarmed r = true
  | _ => True

theorem Unarmed.step {p p' : Proto T} {l : Label T} (h : Unarmed p.receiver) (hstep : Step p l p') :
    Unarmed p'.receiver := by
  cases hstep with
  | sender _ _ hreceiver =>
    rw [hreceiver]
    exact h
  | stray _ _ _ hreceiver =>
    rw [hreceiver]
    exact h
  | receiver hsession =>
    obtain ⟨μ, ss, rs, hagree⟩ := p
    obtain ⟨μ', ss', rs', hagree'⟩ := p'
    cases hsession with
    | @call h' c r haccepts hready =>
      cases c with
      | drop =>
        cases h' <;> cases haccepts
        cases r <;> first | rfl | exact hready.elim
      | _ => trivial
    | @act c r r' g g' α f hon hmove htrack =>
      cases c with
      | drop =>
        refine unarmed_move (Receiver.Role.move_of_on hon hmove) h ?_
        intro waker hα
        obtain rfl : α = ⟨.write_waker waker, ()⟩ := hα
        have hadvance : Receiver.Progress.advance .drop g ⟨.write_waker waker, ()⟩ = some g' := htrack
        cases Receiver.Progress.waker_of_write hadvance
      | _ => trivial
    | enter => exact h
    | ret => trivial

theorem unarmed_run {h : Receiver.Handle} {token : Thread → Bool} {τ : List (Label T)} {p : Proto T}
    (hrun : Run Step (init h token) τ p) : Unarmed p.receiver := by
  have hinit : Unarmed (init h token : Proto T).receiver := trivial
  exact hrun.keeps (P := fun p => Unarmed p.receiver) (fun _ _ _ h hstep => h.step hstep) hinit

/-- What a receiver that comes by the message in `wait_for_unpark` has seen of the
    sender: all of it, unless it left its loop early. -/
structure Paid (τ : List (Label T)) (p : Proto T) : Prop where
  given : ∀ thread ∈ (exits τ).unparked, p.s.published ≠ none ∧
    (publishing τ ⊆ (views true τ).given thread ∨ publishing τ ⊆ (views true τ).view .receiver)
  woken : ∀ waker, p.r = .expired_woken waker → (exits τ).idle = true ∨
    (p.s.published ≠ none ∧ publishing τ ⊆ (views true τ).view .receiver)
  owned : ∀ x, p.r = .own x → x.seen = .message →
    publishing τ ⊆ (views true τ).view .receiver ∨
      ((exits τ).early = true ∧
        ∀ r g, p.receiver = .during .drop r g → (exits τ).dropped = true) ∨
      (x.state = DISCONNECTED ∧ x.intact = true)

section

variable {τ : List (Label T)} {p p' : Proto T} {α : (interface T).Action}

theorem publishing_sender (hmove : p.s.Move α p'.s) (hs : p.s.published ≠ none) :
    publishing (τ ++ [.sender (.act α)]) = publishing τ := by
  obtain ⟨_, _, _, _, htouches⟩ := hmove.releases true
  exact publishing_snoc (by simp [Label.senderTouches, Label.touches, Label.action, htouches hs])

/-- What the sender gives with its token is all of its accesses. -/
theorem unpark_gives (hmove : p.s.Move α p'.s) {thread : Thread} (hα : α.access = .unpark thread) :
    p.s.published ≠ none ∧ p'.s.published ≠ none ∧
      publishing τ ⊆ (views true (τ ++ [.sender (.act α)])).given thread := by
  obtain ⟨a, v⟩ := α
  obtain rfl : a = .unpark thread := hα
  have hsent : publishing τ ⊆ (views true τ).view .sender := upTo_subset.trans (sent_subset true)
  rw [views_sender]
  generalize p.s = s at hmove
  generalize p'.s = s' at hmove
  cases hmove with
  | unpark message => exact ⟨by simp [Sender.Role.published], by simp [Sender.Role.published],
      hsent.trans Views.given_give⟩

theorem published_kept (hmove : p.s.Move α p'.s) (hs : p.s.published ≠ none) :
    p'.s.published ≠ none := by
  obtain ⟨o, ho⟩ := Option.ne_none_iff_exists'.mp hs
  rw [published_move hmove ho]
  simp

/-- A step of the sender adds at most the thread it unparks. -/
theorem exits_sender (e : Exits) : e.step (.sender (.act α)) = e ∨
    ∃ thread, α.access = .unpark thread ∧
      e.step (.sender (.act α)) = { e with unparked := thread :: e.unparked } := by
  obtain ⟨a, v⟩ := α
  cases a with
  | unpark thread => exact .inr ⟨thread, rfl, rfl⟩
  | _ => exact .inl rfl

/-- The sender's steps leave what the receiver has seen of it as it is. -/
theorem Paid.sender (h : Paid τ p) (hmove : p.s.Move α p'.s)
    (hreceiver : p'.receiver = p.receiver) : Paid (τ ++ [.sender (.act α)]) p' := by
  have hagree : Receiver.Role.Agree p.r p.s p.memory.channel := p.agree
  have hr : p'.r = p.r := by rw [Proto.r, hreceiver]; rfl
  have hview : (views true τ).view .receiver ⊆
      (views true (τ ++ [.sender (.act α)])).view .receiver := by
    rw [views_sender]
    exact Views.view_mono
  have hkeep : (exits (τ ++ [.sender (.act α)])).idle = (exits τ).idle ∧
      (exits (τ ++ [.sender (.act α)])).early = (exits τ).early ∧
      (exits (τ ++ [.sender (.act α)])).dropped = (exits τ).dropped := by
    rw [exits_snoc]
    obtain he | ⟨thread, _, he⟩ := exits_sender (α := α) (exits τ) <;> rw [he] <;> exact ⟨rfl, rfl, rfl⟩
  have hgiven (thread : Thread) : (views true τ).given thread ⊆
      (views true (τ ++ [.sender (.act α)])).given thread := by
    rw [views_sender]
    refine Views.given_mono ?_
    generalize p.s = s at hmove
    generalize p'.s = s' at hmove
    cases hmove <;> simp [syncOp]
  refine ⟨fun thread hthread => ?_, fun waker hwaker => ?_, fun x hx hseen => ?_⟩
  · have hold (hthread : thread ∈ (exits τ).unparked) : p'.s.published ≠ none ∧
        (publishing (τ ++ [.sender (.act α)]) ⊆
            (views true (τ ++ [.sender (.act α)])).given thread ∨
          publishing (τ ++ [.sender (.act α)]) ⊆
            (views true (τ ++ [.sender (.act α)])).view .receiver) := by
      obtain ⟨hs, hseen⟩ := h.given thread hthread
      rw [publishing_sender hmove hs]
      exact ⟨published_kept hmove hs, hseen.imp (·.trans (hgiven thread)) (·.trans hview)⟩
    rw [exits_snoc] at hthread
    obtain he | ⟨current, hα, he⟩ := exits_sender (α := α) (exits τ)
    · rw [he] at hthread
      exact hold hthread
    · rw [he] at hthread
      obtain rfl | hthread := List.mem_cons.mp hthread
      · obtain ⟨hs, hs', hgives⟩ := unpark_gives (τ := τ) hmove hα
        rw [publishing_sender hmove hs]
        exact ⟨hs', .inl hgives⟩
      · exact hold hthread
  · rw [hkeep.1]
    obtain hidle | ⟨hs, hseen⟩ := h.woken waker (hr ▸ hwaker)
    · exact .inl hidle
    · rw [publishing_sender hmove hs]
      exact .inr ⟨published_kept hmove hs, hseen.trans hview⟩
  · rw [hr] at hx
    have hs : p.s.published ≠ none := by
      rw [hx] at hagree
      obtain ⟨_, _, sent, hsent, _⟩ := hagree
      simp [hsent]
    rw [publishing_sender hmove hs, hkeep.2.1, hkeep.2.2, hreceiver]
    exact (h.owned x hx hseen).imp (·.trans hview) id

/-- A step that is no access, and that leaves the receiver's session or begins or ends
    a call of it. -/
theorem Paid.still {l : Label T} (h : Paid τ p) (hl : l.action = none) (hs : p'.s = p.s)
    (hr : p'.r = p.r) (hunparked : (exits (τ ++ [l])).unparked = (exits τ).unparked)
    (hidle : (exits (τ ++ [l])).idle = (exits τ).idle ∨ ∀ waker, p.r ≠ .expired_woken waker)
    (hearly : (exits (τ ++ [l])).early = (exits τ).early)
    (hdropped : (exits τ).early = true → ∀ r g, p'.receiver = .during .drop r g →
      (∀ r g, p.receiver = .during .drop r g → (exits τ).dropped = true) →
      (exits (τ ++ [l])).dropped = true) : Paid (τ ++ [l]) p' := by
  obtain ⟨hview, _, _, hgiven⟩ := views_of_still true (τ := τ) hl
  have hF : publishing (τ ++ [l]) = publishing τ :=
    publishing_snoc (by simp [Label.senderTouches, touches_of_still hl])
  refine ⟨fun thread hthread => ?_, fun waker hwaker => ?_, fun x hx hseen => ?_⟩
  · rw [hunparked] at hthread
    rw [hs, hF]
    obtain ⟨hpublished, hseen⟩ := h.given thread hthread
    exact ⟨hpublished, hseen.imp (·.trans (hgiven thread)) (·.trans (hview _))⟩
  · rw [hr] at hwaker
    obtain hidle | hne := hidle
    · rw [hidle, hs, hF]
      obtain hidle | ⟨hpublished, hseen⟩ := h.woken waker hwaker
      · exact .inl hidle
      · exact .inr ⟨hpublished, hseen.trans (hview _)⟩
    · exact (hne waker hwaker).elim
  · rw [hr] at hx
    rw [hF, hearly]
    obtain hseen | ⟨hearly, hdrop⟩ | hintact := h.owned x hx hseen
    · exact .inl (hseen.trans (hview _))
    · exact .inr (.inl ⟨hearly, fun r g hreceiver => hdropped hearly r g hreceiver hdrop⟩)
    · exact .inr (.inr hintact)

theorem Paid.pause {e : (oneshot.receiver T).Event} (h : Paid τ p)
    (hstep : Step p (.receiver e) p') (he : ∀ α, e ≠ .act α) : Paid (τ ++ [.receiver e]) p' := by
  have hpauses := hstep.pauses he
  have hidle : ∀ waker, p.r ≠ .expired_woken waker := by
    intro waker hr
    rw [hr] at hpauses
    obtain h | ⟨h, hready⟩ := hpauses
    · exact h
    · cases h <;> exact hready
  obtain ⟨μ, ss, rs, hagree⟩ := p
  obtain ⟨μ', ss', rs', hagree'⟩ := p'
  cases hstep with
  | receiver hsession _ hsender =>
    obtain rfl : ss' = ss := hsender
    cases hsession with
    | act => exact (he _ rfl).elim
    | @call h' c r haccepts hready =>
      refine h.still rfl rfl rfl ?_ (.inr hidle) ?_ ?_
      · rw [exits_snoc]
        cases c <;> rfl
      · rw [exits_snoc]
        cases c <;> rfl
      · rintro hearly r g hreceiver _
        cases hreceiver
        rw [exits_snoc]
        simp [Exits.step, hearly]
    | @enter c r g hwaits =>
      refine h.still rfl rfl rfl (by rw [exits_snoc]; rfl) (.inr hidle) (by rw [exits_snoc]; rfl) ?_
      rintro _ r g hreceiver hdrop
      rw [exits_snoc]
      exact hdrop r g hreceiver
    | ret hpost =>
      refine h.still rfl rfl rfl (by rw [exits_snoc]; rfl) (.inr hidle) (by rw [exits_snoc]; rfl) ?_
      rintro _ r g ⟨⟩

/-- An access of the receiver unparks nobody and drops nothing, and what was early
    stays so. -/
theorem exits_receiver (e : Exits) :
    (e.step (.receiver (.act α))).unparked = e.unparked ∧
      (e.step (.receiver (.act α))).dropped = e.dropped ∧
      (e.early = true → (e.step (.receiver (.act α))).early = true) := by
  obtain ⟨a, v⟩ := α
  cases a with
  | load order => exact ⟨rfl, rfl, fun he => by simp [Exits.step, he]⟩
  | _ => exact ⟨rfl, rfl, id⟩

theorem sees_ne_message (order : MemOrder) : Receiver.sees order ≠ .message := by
  unfold Receiver.sees
  split <;> simp

/-- A receiver that owns the channel, and has seen no more than the message being
    written, has found the sender's final state after a time-out. -/
theorem message_move {r r' : Receiver.Role T} {x : Receiver.Owned T} (hmove : r.Move α r')
    (hr' : r' = .own x) (hseen : x.seen = .message) (hblocking : Blocking r) :
    (∃ waker order, ∃ v : UInt8, r = .expired_woken waker ∧ α = ⟨.load order, v⟩ ∧
        x.intact = true ∧ (v = MESSAGE ∨ x.state = DISCONNECTED)) ∨
      ∃ y, r = .own y ∧ y.seen = .message ∧
        (y.state = DISCONNECTED ∧ y.intact = true → x.state = DISCONNECTED ∧ x.intact = true) := by
  cases hmove with
  | expired waker order hfinal =>
    cases hr'
    refine .inl ⟨waker, order, _, rfl, rfl, rfl, ?_⟩
    cases hfinal with
    | sent => exact .inl rfl
    | dropped => exact .inr rfl
  | own_load y order =>
    cases hr'
    refine .inr ⟨y, rfl, ?_, id⟩
    simp only [Receiver.Owned.read] at hseen
    split at hseen
    · cases hseen
    · exact hseen
  | own_store y val hstate =>
    cases hr'
    exact .inr ⟨y, rfl, hseen, fun h => (hstate h.1).elim⟩
  | own_swap y =>
    cases hr'
    refine .inr ⟨y, rfl, ?_, fun h => ⟨rfl, h.2⟩⟩
    simp only [Receiver.Owned.read] at hseen
    split at hseen
    · cases hseen
    · exact hseen
  | own_clock | own_take | own_drop | own_drop_waker =>
    cases hr'
    exact .inr ⟨_, rfl, hseen, id⟩
  | own_fence | publish_late | exchange_late | expire_late | retract_late | close | depart_late =>
    cases hr'
    cases hseen
  | look order | woken waker order | poll_late cx order | caught waker order =>
    cases hr'
    exact (sees_ne_message order hseen).elim
  | receive_late => exact hblocking.elim
  | _ => cases hr'

/-- A park in the sender's window either consumes an unpark of the sender, and with it
    all the sender has done, or is idle. -/
theorem Paid.park (h : Paid τ p) {waker : ReceiverWaker} (hmove : p.r.Move α p'.r)
    (hr' : p'.r = .expired_woken waker) :
    (exits (τ ++ [.receiver (.act α)])).idle = true ∨ (p.s.published ≠ none ∧
      publishing τ ⊆ (views true (τ ++ [.receiver (.act α)])).view .receiver) := by
  rw [exits_snoc, views_receiver]
  rw [hr'] at hmove
  generalize p.r = r at hmove
  cases hmove with
  | expired_park current v =>
    by_cases hconsumes : v = .unparked ∧ current ∈ (exits τ).unparked
    · obtain ⟨rfl, hcurrent⟩ := hconsumes
      obtain ⟨hs, hgiven | hseen⟩ := h.given current hcurrent
      · exact .inr ⟨hs, hgiven.trans Views.view_take⟩
      · exact .inr ⟨hs, hseen.trans Views.view_mono⟩
    · left
      rw [not_and_or] at hconsumes
      simpa [Exits.step] using hconsumes

/-- What the receiver's own accesses make of it. -/
theorem Paid.receiver (h : Paid τ p) (hinformed : Informed true τ p)
    (hstep : Step p (.receiver (.act α)) p') (hmove : p.r.Move α p'.r) (hs : p'.s = p.s)
    (hblocking : Blocking p.r) (hunarmed : Unarmed p.receiver) :
    Paid (τ ++ [.receiver (.act α)]) p' := by
  have hF : publishing (τ ++ [.receiver (.act α)]) = publishing τ := publishing_snoc rfl
  have hview : (views true τ).view .receiver ⊆
      (views true (τ ++ [.receiver (.act α)])).view .receiver := by
    rw [views_receiver]
    exact Views.view_mono
  obtain ⟨hunparked, hdropped, hearly⟩ := exits_receiver (α := α) (exits τ)
  rw [← exits_snoc] at hunparked hdropped hearly
  refine ⟨fun thread hthread => ?_, fun waker hwaker => ?_, fun x hx hseen => ?_⟩
  · rw [hunparked] at hthread
    rw [hs, hF]
    obtain ⟨hpublished, hgiven | hseen⟩ := h.given thread hthread
    · refine ⟨hpublished, ?_⟩
      rw [views_receiver]
      by_cases htake : syncOp true α = .take thread
      · rw [htake]
        exact .inr (hgiven.trans Views.view_take)
      · exact .inl (hgiven.trans (Views.given_mono htake))
    · exact ⟨hpublished, .inr (hseen.trans hview)⟩
  · rw [hs, hF]
    exact h.park hmove hwaker
  · have hagree' : Receiver.Role.Agree p'.r p'.s p'.memory.channel := p'.agree
    have hpublished : p.s.published ≠ none := by
      rw [hx, hs] at hagree'
      obtain ⟨_, _, sent, hsent, _⟩ := hagree'
      simp [hsent]
    rw [hF]
    obtain ⟨waker, order, v, hr, rfl, hintact, hv⟩ | ⟨y, hr, hy, hstays⟩ :=
      message_move hmove hx hseen hblocking
    · have hattached : publishing τ ⊆ (views true τ).attached :=
        hinformed.published hpublished (by rw [hr]; rfl)
      obtain hidle | ⟨_, hseen⟩ := h.woken waker hr
      · cases hacquires : order.acquires with
        | true =>
          rw [views_receiver]
          exact .inl (hattached.trans (Views.view_acquire (.inl rfl) hacquires))
        | false =>
          refine .inr (hv.imp (fun hv => ⟨?_, ?_⟩) fun hstate => ⟨hstate, hintact⟩)
          · rw [exits_snoc]
            simp [Exits.step, hidle, hacquires, hv]
          · -- Nobody waits in the destructor of a `Receiver`.
            intro r' g' hreceiver
            obtain ⟨r₀, g₀, hduring⟩ := hstep.during hreceiver
            have hr₀ : r₀ = .expired_woken waker := by
              rw [← hr, Proto.r, hduring]
              rfl
            rw [hduring, hr₀] at hunarmed
            cases hunarmed
      · exact .inl (hseen.trans hview)
    · obtain hseen | ⟨he, hdrop⟩ | hstate := h.owned y hr hy
      · exact .inl (hseen.trans hview)
      · refine .inr (.inl ⟨hearly he, fun r g hreceiver => ?_⟩)
        obtain ⟨r₀, g₀, hduring⟩ := hstep.during hreceiver
        rw [hdropped]
        exact hdrop r₀ g₀ hduring
      · exact .inr (.inr (hstays hstate))

theorem Paid.step {l : Label T} (h : Paid τ p) (hinformed : Informed true τ p)
    (hstep : Step p l p') (hblocking : Blocking p.r) (hunarmed : Unarmed p.receiver) :
    Paid (τ ++ [l]) p' := by
  have hstep' := hstep
  cases hstep with
  | @sender _ e hsession hmemory hreceiver =>
    cases hstep'.moves with
    | sender hmove _ _ => exact h.sender hmove hreceiver
    | still hl hs hr =>
      have he : (exits τ).step (.sender e) = exits τ := by
        cases e with
        | act α => cases hl
        | _ => rfl
      refine h.still hl hs hr ?_ (.inl ?_) ?_ ?_
      · rw [exits_snoc, he]
      · rw [exits_snoc, he]
      · rw [exits_snoc, he]
      · rintro _ r g hduring hdrop
        rw [exits_snoc, he]
        exact hdrop r g (hreceiver ▸ hduring)
  | stray thread _ hsender hreceiver =>
    have hr : p'.r = p.r := by rw [Proto.r, hreceiver]; rfl
    have hs : p'.s = p.s := by rw [Proto.s, hsender]; rfl
    refine h.still rfl hs hr ?_ (.inl ?_) ?_ ?_
    · rw [exits_snoc]; rfl
    · rw [exits_snoc]; rfl
    · rw [exits_snoc]; rfl
    · rintro _ r g hduring hdrop
      rw [exits_snoc]
      exact hdrop r g (hreceiver ▸ hduring)
  | @receiver _ e hsession hmemory hsender =>
    cases e with
    | act α =>
      cases hstep'.moves with
      | still hl => cases hl
      | receiver hmove hs => exact h.receiver hinformed hstep' hmove hs hblocking hunarmed
    | _ => exact h.pause hstep' (by simp)

theorem paid_run {token : Thread → Bool} (hrun : Run Step (init .receiver token) τ p)
    (hsync : ∀ l ∈ τ, l.intoFuture = false) : Paid τ p := by
  have hinit : Paid [] (init .receiver token : Proto T) := by
    refine ⟨by rintro _ ⟨⟩, by rintro _ ⟨⟩, by rintro _ ⟨⟩⟩
  have hall : Paid τ p := by
    induction hrun with
    | nil => exact hinit
    | @snoc τ p p' l hrun hstep ih =>
      have hsync' : ∀ l ∈ τ, l.intoFuture = false := fun l hl => hsync l (List.mem_append_left _ hl)
      exact (ih hsync').step (informed_run true hrun) hstep (synchronous_of_run hrun hsync').2
        (unarmed_run hrun)
  exact hall

end

/-- `recv` frees the channel only once it has synchronised with all of the sender. -/
theorem recv_post {current : Thread} {v : Receiver.Ret T} {r : Receiver.Role T}
    {g : Receiver.Progress T} (hpost : Receiver.Post (.recv current) v r g) :
    ∃ content, r = .released content .final := by
  obtain ⟨_, hpost⟩ := hpost
  cases v with
  | recv result => exact hpost.1
  | _ =>
    obtain ⟨o, houtcome, _⟩ := hpost
    cases houtcome

/-- The call in which the channel is freed is `recv` or the destructor. -/
theorem freeing_call {c : Receiver.Call} {v : Receiver.Ret T} {content : Content T}
    {seen : Receiver.Seen} {g : Receiver.Progress T}
    (hpost : Receiver.Post c v (.released content seen) g) :
    (∃ current, c = .recv current) ∨ c = .drop ∨ c = .async_drop := by
  have hready := hpost.1
  cases c with
  | recv current => exact .inl ⟨current, rfl⟩
  | drop => exact .inr (.inl rfl)
  | async_drop => exact .inr (.inr rfl)
  | _ => exact hready.elim

/-- A plain receiver that frees the channel has seen all of the sender, unless it was
    dropped after an early exit. -/
theorem dealloc_receiver {σ : System T} {p p' : Proto T} {τ : List (Label T)}
    (hstep : Step p (.receiver (.act ⟨.dealloc, ()⟩)) p') (hsim : Simulates σ p')
    (hinformed : Informed true τ p) (hpaid : Paid τ p)
    (hsync : Synchronous p.receiver ∧ Blocking p.r) (hdropped : (exits τ).dropped = false) :
    publishing τ ⊆ (views true τ).view .receiver := by
  obtain ⟨μ, ss, rs, hagree⟩ := p
  obtain ⟨μ', ss', rs', hagree'⟩ := p'
  cases hstep with
  | receiver hsession =>
    cases hsession with
    | @act c r r' g g' _ f hon hmove htrack =>
      have hmove := Receiver.Role.move_of_on hon hmove
      cases hmove with
      | abandon => exact hsync.2.elim
      | release x hwaker hfull hseen hintact =>
        have hfinal : x.seen = .final → publishing τ ⊆ (views true τ).view .receiver :=
          hinformed.knows.2.2
        obtain ⟨v, hpost⟩ := hsim.receiver.post (fun a => rfl) id
        obtain ⟨current, rfl⟩ | rfl | rfl := freeing_call hpost
        · obtain ⟨content, hreleased⟩ := recv_post hpost
          obtain ⟨_, hx⟩ := Receiver.Role.released.inj hreleased
          exact hfinal hx
        · cases hx : x.seen with
          | final => exact hfinal hx
          | relaxed => exact (hseen hx).elim
          | message =>
            obtain hall | ⟨_, hdrop⟩ | ⟨_, hcarried⟩ := hpaid.owned x rfl hx
            · exact hall
            · rw [hdrop _ _ rfl] at hdropped
              cases hdropped
            · exact hfinal (hintact hcarried)
        · exact hsync.1.elim

/-- A sender frees the channel only once it has found it closed. -/
theorem dealloc_sender {p p' : Proto T} (hstep : Step p (.sender (.act ⟨.dealloc, ()⟩)) p') :
    p.s.lost = true := by
  cases hstep.moves with
  | still hl => cases hl
  | sender hmove =>
    generalize p.s = s at hmove
    generalize p'.s = s' at hmove
    cases hmove
    rfl

theorem Simulates.deallocSynchronised {σ : System T} {token : Thread → Bool}
    {τ : List (Label T)} (hrun : Run System.Step (System.channel T token) τ σ)
    (hsync : ∀ l ∈ τ, l.intoFuture = false) (hdropped : (exits τ).dropped = false) :
    DeallocSynchronised τ := by
  obtain ⟨p, hp, hsim⟩ := synchronous_run hrun hsync
  have hsafe : AllocationSafe τ := (allocation_kept hp hsim).1
  -- Nothing touches the channel once it is freed.
  have hquiet {l : Label T} {τ₁ τ₂ : List (Label T)} (hτ : τ = τ₁ ++ l :: τ₂)
      (hl : l.frees = true) : ∀ l' ∈ τ₂, l'.touches = false := by
    rw [AllocationSafe, hτ] at hsafe
    exact fun l' hl' => (List.pairwise_cons.mp (List.pairwise_append.mp hsafe).2.1).1 l' hl' hl
  refine ⟨?_, ?_⟩
  · rintro τ₁ τ₂ rfl
    have htouches : positions Label.senderTouches
        (τ₁ ++ .receiver (.act ⟨.dealloc, ()⟩) :: τ₂) = positions Label.senderTouches τ₁ := by
      refine positions_append fun l hl => ?_
      obtain rfl | hl := List.mem_cons.mp hl
      · rfl
      · simp [Label.senderTouches, hquiet rfl rfl l hl]
    have hsync₁ : ∀ l ∈ τ₁, l.intoFuture = false := fun l hl => hsync l (List.mem_append_left _ hl)
    obtain ⟨σ₁, hrun₁, hrest⟩ := hrun.split
    obtain ⟨σ₂, hdealloc, _⟩ := hrest.cons_inv
    obtain ⟨p₁, hp₁, hsim₁⟩ := (simulates_channel token).run hrun₁
    obtain ⟨p₂, hstep, hsim₂⟩ := hsim₁.step hdealloc
    rw [htouches]
    refine (positions_subset_upTo fun l hl => ?_).trans (dealloc_receiver hstep hsim₂
      (informed_run true hp₁) (paid_run hp₁ hsync₁) (synchronous_of_run hp₁ hsync₁)
      (dropped_append hdropped))
    exact (Bool.and_eq_true_iff.mp hl).1
  · rintro τ₁ τ₂ rfl
    have htouches : positions Label.receiverTouches
        (τ₁ ++ .sender (.act ⟨.dealloc, ()⟩) :: τ₂) = positions Label.receiverTouches τ₁ := by
      refine positions_append fun l hl => ?_
      obtain rfl | hl := List.mem_cons.mp hl
      · rfl
      · simp [Label.receiverTouches, hquiet rfl rfl l hl]
    obtain ⟨σ₁, hrun₁, hrest⟩ := hrun.split
    obtain ⟨σ₂, hdealloc, _⟩ := hrest.cons_inv
    obtain ⟨p₁, hp₁, hsim₁⟩ := (simulates_channel token).run hrun₁
    obtain ⟨p₂, hstep, _⟩ := hsim₁.step hdealloc
    rw [htouches]
    exact (handed_run (left_handover true) (by rintro ⟨⟩) (by rintro ⟨⟩) hp₁).taken
      (dealloc_sender hstep)

end Proto

/-- In every run of a plain `Receiver` that is not dropped after it has left
    `wait_for_unpark` early, the channel is freed by a side that has seen every access
    of the other. -/
theorem dealloc_synchronised {σ : System T} {token : Thread → Bool} {τ : List (Label T)}
    (hrun : Run System.Step (System.channel T token) τ σ)
    (hsync : ∀ l ∈ τ, l.intoFuture = false) (hdropped : (exits τ).dropped = false) :
    DeallocSynchronised τ :=
  Proto.Simulates.deallocSynchronised hrun hsync hdropped

/-- The time-out falls into the sender's window, and the receiver parks until the
    sender unparks it. -/
def System.unparked_late : List (Choice Nat) :=
  receives (.recv_deadline ⟨1⟩ ⟨3⟩) 4 7 ++ sends (.send 5) 2 ++ receiving 3 7 ++ sending 4 ++
    [.receiver .go ⟨.unparked, ⟨7⟩⟩] ++ receiving 4 7 ++ receives .drop 3 7

theorem dealloc_synchronised_unparked_late :
    DeallocSynchronised ((System.channel Nat fun _ => false).labels System.unparked_late) :=
  dealloc_synchronised (System.run_of_play (by decide)) (by decide) (by decide)

/-- Without that condition a receiver may free the channel before it has seen the
    sender's last access to it. -/
theorem dealloc_not_synchronised :
    ¬ ∀ (τ : List (Label Nat)) (σ : System Nat),
      Run System.Step (System.channel Nat fun _ => false) τ σ →
      (∀ l ∈ τ, l.intoFuture = false) → DeallocSynchronised τ := by
  intro hall
  have hrun := @System.run_of_play Nat (System.channel Nat fun _ => false) System.timed_out
    (by decide)
  have hsynchronised := hall _ _ hrun (by decide)
  -- The last access of the sender is its final swap. The receiver has read the state
  -- with a relaxed load since, and its destructor reads what the receiver has stored.
  have hswap : 21 ∈ positions Label.senderTouches
      ((System.channel Nat fun _ => false).labels System.timed_out) := by decide
  have hunseen : 21 ∉ (views true (((System.channel Nat fun _ => false).labels
      System.timed_out).take 31)).view .receiver := by decide
  have hdealloc := hsynchronised.receiver
    (((System.channel Nat fun _ => false).labels System.timed_out).take 31)
    (((System.channel Nat fun _ => false).labels System.timed_out).drop 32) rfl
  exact hunseen (hdealloc hswap)

end oneshot
