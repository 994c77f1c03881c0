import Oneshot.Conc.Views
import Oneshot.Properties.Allocation

open conc

namespace oneshot

variable {T : Type}

/-- What an access does towards the other side. A park joins what came with the
    token it consumes if `parking` says so, and else nothing. -/
def syncOp (parking : Bool) : (interface T).Action → SyncOp Thread
  | ⟨.load order, _⟩ => .load order
  | ⟨.store _ order, _⟩ => .store order
  | ⟨.swap _ order, _⟩ | ⟨.fetch_add _ order, _⟩ | ⟨.fetch_xor _ order, _⟩ => .update order
  | ⟨.compare_exchange _ _ success _, .ok _⟩ => .update success
  | ⟨.compare_exchange _ _ _ failure, .error _⟩ => .load failure
  | ⟨.fence order, _⟩ => .fence order
  | ⟨.unpark thread, _⟩ => if parking then .give thread else .plain
  | ⟨.park thread, .unparked⟩ | ⟨.park_timeout thread _, .unparked⟩ =>
    if parking then .take thread else .plain
  | _ => .plain

namespace Label

/-- The step as an event of one of the sides. A stray unpark is made by neither. -/
def sync (parking : Bool) : Label T → Option (Side × SyncOp Thread)
  | .sender (.act α) => some (.sender, syncOp parking α)
  | .sender _ => some (.sender, .plain)
  | .receiver (.act α) => some (.receiver, syncOp parking α)
  | .receiver _ => some (.receiver, .plain)
  | .stray _ => none

def writesMessage : Label T → Bool
  | .sender (.act ⟨.write_message _, _⟩) => true
  | _ => false

def writesWaker : Label T → Bool
  | .receiver (.act ⟨.write_waker _, _⟩) => true
  | _ => false

/-- The accesses of each side to the allocation. -/
def senderTouches (l : Label T) : Bool := l.ofSender && l.touches

def receiverTouches (l : Label T) : Bool := l.ofReceiver && l.touches

end Label

/-- What each side has seen happen in a run. -/
def views (parking : Bool) (τ : List (Label T)) : Views Side Thread :=
  Views.run (Label.sync parking) τ

/-- The events of the sender up to its write of the message. -/
def writing (τ : List (Label T)) : Finset ℕ := upTo Label.ofSender Label.writesMessage τ

/-- The events of the sender up to its last access to the channel. -/
def publishing (τ : List (Label T)) : Finset ℕ := upTo Label.ofSender Label.senderTouches τ

section

variable (parking : Bool) {τ : List (Label T)} {l : Label T}

theorem sent_subset : positions Label.ofSender τ ⊆ (views parking τ).view .sender := by
  have hown := Views.own_positions (Label.sync (T := T) parking) τ .sender
  refine Finset.Subset.trans (fun n hn => ?_) hown
  obtain ⟨l, hl, hby⟩ := mem_positions.mp hn
  refine mem_positions.mpr ⟨l, hl, ?_⟩
  cases l with
  | sender e => cases e <;> rfl
  | _ => cases hby

theorem received_subset : positions Label.ofReceiver τ ⊆ (views parking τ).view .receiver := by
  have hown := Views.own_positions (Label.sync (T := T) parking) τ .receiver
  refine Finset.Subset.trans (fun n hn => ?_) hown
  obtain ⟨l, hl, hby⟩ := mem_positions.mp hn
  refine mem_positions.mpr ⟨l, hl, ?_⟩
  cases l with
  | receiver e => cases e <;> rfl
  | _ => cases hby

theorem writing_subset_publishing : writing τ ⊆ publishing τ := by
  intro n hn
  obtain ⟨hn, m, hm, hle⟩ := Finset.mem_filter.mp hn
  refine Finset.mem_filter.mpr ⟨hn, m, ?_, hle⟩
  obtain ⟨l, hl, hwrites⟩ := mem_positions.mp hm
  refine mem_positions.mpr ⟨l, hl, ?_⟩
  unfold Label.writesMessage at hwrites
  split at hwrites
  · rfl
  · cases hwrites

/-- A step that is no access synchronises with nothing. -/
theorem sync_of_still (hl : l.action = none) :
    l.sync parking = none ∨ ∃ side, l.sync parking = some (side, .plain) := by
  cases l with
  | sender e => cases e <;> first | exact .inr ⟨_, rfl⟩ | cases hl
  | receiver e => cases e <;> first | exact .inr ⟨_, rfl⟩ | cases hl
  | stray thread => exact .inl rfl

/-- And it leaves the views as they are, but for the event itself. -/
theorem views_of_still (hl : l.action = none) :
    (∀ side, (views parking τ).view side ⊆ (views parking (τ ++ [l])).view side) ∧
      (∀ side, (views parking τ).pending side ⊆ (views parking (τ ++ [l])).pending side) ∧
      (views parking τ).attached ⊆ (views parking (τ ++ [l])).attached ∧
      ∀ thread, (views parking τ).given thread ⊆ (views parking (τ ++ [l])).given thread := by
  obtain hnone | ⟨side, hsome⟩ := sync_of_still parking hl
  · rw [views, views, Views.run_snoc_none _ τ hnone]
    simp
  · rw [views, views, Views.run_snoc_some _ τ hsome]
    refine ⟨fun _ => Views.view_mono, fun _ => Views.pending_mono,
      Views.attached_mono (by simp), fun _ => Views.given_mono (by simp)⟩

theorem writing_snoc (hl : l.writesMessage = false) : writing (τ ++ [l]) = writing τ :=
  upTo_snoc hl

theorem publishing_snoc (hl : l.senderTouches = false) : publishing (τ ++ [l]) = publishing τ :=
  upTo_snoc hl

theorem touches_of_still (hl : l.action = none) : l.touches = false := by
  simp [Label.touches, hl]

end

namespace Sender

/-- The sender has told of itself. -/
def Role.announced : Role T → Bool
  | .fresh | .wrote _ => false
  | _ => true

theorem Role.announced_of_published {s : Role T} {o : Option T} (hs : s.published = some o) :
    s.announced = true := by
  cases s <;> first | rfl | cases hs

end Sender

namespace Receiver

/-- The state byte still carries what the sender has released. -/
def Role.carries : Role T → Bool
  | .own x => x.intact
  | .released _ _ | .abandoned _ => false
  | _ => true

/-- What the receiver has seen of the sender's events: of those up to the write of
    the message, `W`, and of all those up to the last access, `F`. -/
def Role.Knows (W F view pending : Finset ℕ) : Role T → Prop
  | .expired _ | .expired_woken _ | .leaving _ | .quitting _ => W ⊆ view
  | .own x => F ⊆ pending ∧ (x.seen ≠ .relaxed → W ⊆ view) ∧ (x.seen = .final → F ⊆ view)
  | .released _ seen => seen = .final → F ⊆ view
  | _ => True

theorem Role.Knows.mono {r : Role T} {W F view pending view' pending' : Finset ℕ}
    (hr : r.Knows W F view pending) (hview : view ⊆ view') (hpending : pending ⊆ pending') :
    r.Knows W F view' pending' := by
  cases r with
  | expired | expired_woken | leaving | quitting => exact Finset.Subset.trans hr hview
  | own x =>
    obtain ⟨hF, hW, hfinal⟩ := hr
    exact ⟨hF.trans hpending, fun hseen => (hW hseen).trans hview,
      fun hseen => (hfinal hseen).trans hview⟩
  | released content seen => exact fun hseen => (hr hseen).trans hview
  | _ => trivial

/-- A receiver that knows anything shares the channel with a sender that has
    announced itself, and one that owns the channel with a sender that is done. -/
theorem Role.Knows.of_agree {r : Role T} {s : Sender.Role T} {x : Channel T}
    (hagree : r.Agree s x) (hs : s.published = none) {W F F' view pending : Finset ℕ}
    (hr : r.Knows W F view pending) : r.Knows W F' view pending := by
  cases r with
  | own x =>
    obtain ⟨_, _, _, hpublished, _⟩ := hagree
    rw [hs] at hpublished
    cases hpublished
  | released content seen =>
    obtain ⟨_, _, _, hpublished, _⟩ := hagree
    rw [hs] at hpublished
    cases hpublished
  | _ => exact hr

/-- Before the sender has announced itself there is nothing to know. -/
theorem Role.knows_of_unannounced {r : Role T} {s : Sender.Role T} {x : Channel T}
    (hagree : r.Agree s x) (hs : s.announced = false) (W F view pending : Finset ℕ) :
    r.Knows W F view pending := by
  cases s with
  | fresh | wrote =>
    cases r <;>
      simp_all [Agree, Sender.Role.Before, Sender.Role.Window, Sender.Role.Notified,
        Sender.Role.Finished, Sender.Role.published, Knows]
  | _ => cases hs

theorem sees_cases (order : MemOrder) : sees order = .relaxed ∨ order.acquires = true := by
  unfold sees
  split
  · exact .inr ‹_›
  · exact .inl rfl

end Receiver

section

variable (parking : Bool) {α : (interface T).Action}

/-- An announcement or a final write of the sender releases what it has seen, and
    after it the sender writes no message and, in the end, makes no access at all. -/
theorem Sender.Role.Move.releases {s s' : Role T} (hmove : s.Move α s') :
    (s'.announced = true → s.announced = true ∨ syncOp parking α = .update .AcqRel) ∧
      (s'.published ≠ none → s.published ≠ none ∨ syncOp parking α = .update .AcqRel) ∧
      (∀ order, syncOp parking α ≠ .store order) ∧
      (s.announced = true → (Label.sender (.act α)).writesMessage = false) ∧
      (s.published ≠ none → α.access.touches = false) := by
  cases hmove <;>
    simp [announced, published, syncOp, Label.writesMessage, Access.touches]
  all_goals cases parking <;> simp

/-- Only its own plain store takes from the receiver's byte what the sender released. -/
theorem Receiver.Role.Move.carries {r r' : Role T} (hmove : r.Move α r') (hr' : r'.carries = true) :
    r.carries = true ∧ ∀ order, syncOp parking α ≠ .store order := by
  cases hmove with
  | park current v | park_timeout current timeout v | expired_park current v =>
    refine ⟨rfl, fun order => ?_⟩
    cases v <;> cases parking <;> simp [syncOp]
  | own_store | release | abandon => cases hr'
  | own_load x order => exact ⟨hr', fun order => by simp [syncOp]⟩
  | own_swap | own_fence | own_clock | own_take | own_drop | own_drop_waker =>
    exact ⟨hr', fun order => by simp [syncOp]⟩
  | _ => exact ⟨rfl, fun order => by simp [syncOp]⟩

variable {W F : Finset ℕ} {V : Views Side Thread}

/-- A receiver that reads the sender's final state knows all that is attached to it,
    at once or after a fence. -/
theorem Receiver.Role.knows_final {y : Owned T} {o : SyncOp Thread} {m : MemOrder}
    (ho : o = .load m ∨ o = .update m) (hseen : y.seen = .relaxed ∨ m.acquires = true)
    (hF : F ⊆ V.attached) (hWF : W ⊆ F) :
    (Role.own y).Knows W F ((V.step .receiver o).view .receiver)
      ((V.step .receiver o).pending .receiver) := by
  refine ⟨hF.trans (Views.pending_read ho), ?_⟩
  obtain hrelaxed | hacquires := hseen
  · simp [hrelaxed]
  · have hview := hF.trans (Views.view_acquire (i := Side.receiver) ho hacquires)
    exact ⟨fun _ => hWF.trans hview, fun _ => hview⟩

/-- A receiver that owns the channel learns no more from the byte than it carries. -/
theorem Receiver.Role.Knows.read {y : Owned T} {o : SyncOp Thread} {m : MemOrder}
    (hknows : (Role.own y).Knows W F (V.view .receiver) (V.pending .receiver))
    (ho : o = .load m ∨ o = .update m) (hF : y.intact = true → F ⊆ V.attached)
    (hWF : W ⊆ F) : (Role.own (y.read m)).Knows W F ((V.step .receiver o).view .receiver)
      ((V.step .receiver o).pending .receiver) := by
  by_cases hread : (m.acquires && y.intact) = true
  · obtain ⟨hacquires, hintact⟩ := Bool.and_eq_true_iff.mp hread
    exact knows_final ho (.inr hacquires) (hF hintact) hWF
  · have hseen : (y.read m).seen = y.seen := by simp [Owned.read, hread]
    have hmono := hknows.mono (Views.view_mono (V := V) (i := Side.receiver) (o := o))
      (Views.pending_mono (V := V) (i := Side.receiver) (o := o))
    rw [Role.Knows, hseen]
    exact hmono

/-- What the receiver knows after one of its accesses. -/
theorem Receiver.Role.Move.knows {r r' : Role T} {s : Sender.Role T} {x' : Channel T}
    (hmove : r.Move α r') (hagree' : r'.Agree s x') (hWF : W ⊆ F)
    (hwritten : s.announced = true → r.carries = true → W ⊆ V.attached)
    (hpublished : s.published ≠ none → r.carries = true → F ⊆ V.attached)
    (hknows : r.Knows W F (V.view .receiver) (V.pending .receiver)) :
    r'.Knows W F ((V.step .receiver (syncOp parking α)).view .receiver)
      ((V.step .receiver (syncOp parking α)).pending .receiver) := by
  have hview : V.view .receiver ⊆ (V.step .receiver (syncOp parking α)).view .receiver :=
    Views.view_mono
  have hpending : V.pending .receiver ⊆ (V.step .receiver (syncOp parking α)).pending .receiver :=
    Views.pending_mono
  -- Whoever owns the channel shares it with a sender that is done.
  have howned {y : Owned T} (hr' : r' = .own y) : s.published ≠ none := by
    rw [hr'] at hagree'
    obtain ⟨_, _, sent, hsent, _⟩ := hagree'
    simp [hsent]
  cases hmove with
  | look order hfinal | woken waker order hfinal | poll_late cx order hfinal
  | caught waker order hfinal =>
    exact knows_final (.inl rfl) (sees_cases order) (hpublished (howned rfl) rfl) hWF
  | close hfinal | depart_late waker hfinal =>
    exact knows_final (.inr rfl) (.inr rfl) (hpublished (howned rfl) rfl) hWF
  | publish_late waker hfinal =>
    exact knows_final (.inr rfl) (.inl rfl) (hpublished (howned rfl) rfl) hWF
  | expire_late current hfinal =>
    exact knows_final (.inr rfl) (.inr rfl) (hpublished (howned rfl) rfl) hWF
  | exchange_late waker hfinal =>
    exact knows_final (m := .Relaxed) (.inl rfl) (.inl rfl) (hpublished (howned rfl) rfl) hWF
  | retract_late cx hfinal =>
    exact knows_final (m := .Relaxed) (.inl rfl) (.inl rfl) (hpublished (howned rfl) rfl) hWF
  | expire_unparking | depart =>
    -- The byte says `UNPARKING`, and carries what the sender's announcement released.
    have hannounced : s.announced = true := by
      obtain h | h := hagree' <;> cases s <;> first | rfl | exact h.elim
    exact (hwritten hannounced rfl).trans (Views.view_acquire (.inr rfl) rfl)
  | expired waker order hfinal | receive_late waker order =>
    have hF := hpublished (howned rfl) rfl
    exact ⟨hF.trans (Views.pending_read (.inl rfl)), fun _ => Finset.Subset.trans hknows hview, by simp⟩
  | own_load y order hstate => exact hknows.read (.inl rfl) (hpublished (howned rfl)) hWF
  | own_swap y => exact hknows.read (m := .AcqRel) (.inr rfl) (hpublished (howned rfl)) hWF
  | own_fence y =>
    have hF := hknows.1.trans (Views.view_fence (V := V) (m := .Acquire) rfl)
    exact ⟨hknows.1.trans hpending, fun _ => hWF.trans hF, fun _ => hF⟩
  | release y hwaker hfull hseen hintact => exact fun hfinal => (hknows.2.2 hfinal).trans hview
  | own_store | own_clock | own_take | own_drop | own_drop_waker => exact hknows.mono hview hpending
  | expired_park | expired_again | leaving_spin | quit | quit_fence =>
    exact Finset.Subset.trans hknows hview
  | _ => trivial

end

end oneshot
