import Oneshot.Properties.Races

open conc

namespace oneshot

variable {T : Type}

/-- A swap of the receiver that finds the sender between its announcement and its final
    write: a time-out, or the destructor of a future, that falls into this window. -/
def Label.intrudes : Label T → Bool
  | .receiver (.act ⟨.swap _ _, v⟩) => decide ((v : UInt8) = UNPARKING)
  | _ => false

/-- The next step `l` of a run leaves a freed channel alone. If it frees the channel, then
    its side, which sees `V`, has seen every access that the other has made to it. -/
structure DeallocOrdered (τ : List (Label T)) (V : Views Side Thread) (l : Label T) : Prop where
  freed : ∀ l' ∈ τ, l'.frees = true → l.touches = false
  receiver : l = .receiver (.act ⟨.dealloc, ()⟩) →
    positions Label.senderTouches τ ⊆ V.view .receiver
  sender : l = .sender (.act ⟨.dealloc, ()⟩) →
    positions Label.receiverTouches τ ⊆ V.view .sender

namespace Receiver

/-- The roles of a receiver that has stored nothing into the sender's window. -/
def Role.Orderly : Role T → Prop
  | .expired _ | .expired_woken _ | .leaving _ | .quitting _ | .abandoned _ => False
  | .own x => x.seen ≠ .message
  | .released _ seen => seen = .final
  | _ => True

section

variable {r r' : Role T} {α : (interface T).Action}

theorem read_orderly {x : Owned T} (order : MemOrder) (hx : x.seen ≠ .message) :
    (x.read order).seen ≠ .message := by
  simp only [Owned.read]
  split
  · simp
  · exact hx

theorem Role.Move.seen_of_dealloc (hmove : r.Move ⟨.dealloc, ()⟩ r') (hr : r.Orderly) :
    ∃ x, r = .own x ∧ x.seen = .final := by
  cases hmove with
  | abandon => exact hr.elim
  | release x _ _ hseen =>
    refine ⟨x, rfl, ?_⟩
    cases hx : x.seen with
    | final => rfl
    | relaxed => exact (hseen hx).elim
    | message => exact (hr hx).elim

theorem Role.Move.orderly (hmove : r.Move α r') (hr : r.Orderly)
    (hα : (Label.receiver (.act α)).intrudes = false) : r'.Orderly := by
  cases hmove with
  | look order | woken waker order | poll_late cx order | caught waker order =>
    exact Proto.sees_ne_message order
  | expire_unparking | depart => cases hα
  | own_load x order => exact read_orderly order hr
  | own_swap x => exact read_orderly .AcqRel hr
  | own_store | own_clock | own_take | own_drop | own_drop_waker => exact hr
  | close | publish_late | exchange_late | expire_late | retract_late | depart_late | own_fence =>
    rintro ⟨⟩
  | release x hwaker hfull hseen hintact =>
    obtain ⟨_, ⟨⟩, hfinal⟩ := Move.seen_of_dealloc (.release x hwaker hfull hseen hintact) hr
    exact hfinal
  | expired_park | expired_again | expired | leaving_spin | quit | receive_late | quit_fence
  | abandon => exact hr.elim
  | _ => trivial

theorem Role.Misses.frees (hmisses : r.Misses α r') :
    (Label.receiver (.act α)).frees = false := by
  cases hmisses <;> rfl

/-- A receiver that is behind has not freed the channel, nor was it dropped. -/
theorem Role.Misses.alive (hmisses : r.Misses α r') {s : Sender.Role T} {x : Channel T}
    (hagree : r.Agree s x) : ¬ Proto.Dead s r ∧ ¬ Proto.Dead s r' := by
  have hs (content : Content T) : s ≠ .freed content := by
    rintro rfl
    rw [hagree.of_freed] at hmisses
    cases hmisses
  cases hmisses <;> exact ⟨by simp [Proto.Dead, hs], by simp [Proto.Dead, hs]⟩

theorem Role.Orderly.patient {p : Proto T} (hr : p.r.Orderly) : p.Patient := by
  rintro waker (h | h) <;> rw [h] at hr <;> exact hr.elim

end

end Receiver

namespace Proto

variable {τ : List (Label T)} {p p' : Proto T} {l : Label T}

theorem Blocking.patient (hr : Blocking p.r) : p.Patient := by
  rintro waker (h | h) <;> rw [h] at hr <;> exact hr.elim

/-- Whoever reads an old value does not free the channel, and finds it allocated. -/
theorem Missed.alive (hmissed : p.Missed l p') :
    l.frees = false ∧ ¬ Dead p.s p.r ∧ ¬ Dead p'.s p'.r := by
  have hagree : Receiver.Role.Agree p.r p.s p.memory.channel := p.agree
  obtain ⟨_, hs, ⟨hfresh, hr, order, v, rfl⟩ | ⟨α, rfl, hmisses⟩⟩ := hmissed.cases
  · rw [hs, hr, hfresh]
    rw [hfresh] at hagree
    have halive : ¬ Dead .fresh p.r := by
      rintro (⟨_, h⟩ | ⟨_, _, h⟩ | ⟨_, h⟩)
      · cases h
      · rw [h] at hagree
        obtain ⟨_, _, _, hpublished, _⟩ := hagree
        cases hpublished
      · rw [h] at hagree
        obtain h | h := hagree <;> exact h
    exact ⟨rfl, halive, halive⟩
  · rw [hs]
    exact ⟨hmisses.frees, hmisses.alive hagree⟩

theorem Freed.missed (h : Freed τ p) (hmissed : p.Missed l p') : Freed (τ ++ [l]) p' := by
  obtain ⟨hl, halive, halive'⟩ := hmissed.alive
  have hnever := h.never halive
  refine ⟨?_, fun _ => ?_, fun hdead => (halive' hdead).elim⟩
  · refine List.pairwise_append.mpr ⟨h.safe, List.pairwise_singleton _ _, ?_⟩
    intro l₁ hl₁ l₂ _ hf
    have hno := List.countP_eq_zero.mp hnever l₁ hl₁
    exact absurd hf hno
  · simpa [frees, List.countP_append, hl] using hnever

theorem Freed.kept {σ : System T} (h : Freed τ p) (hsim : Simulates σ p) : AllocationKept τ σ := by
  refine ⟨h.safe, ?_, fun hcompleted => h.once (dead_of_completed hsim hcompleted)⟩
  by_cases hdead : Dead p.s p.r
  · exact (h.once hdead).le
  · exact (h.never hdead).le.trans (Nat.zero_le 1)

/-- A plain receiver stays one also when it reads an old value. -/
theorem Missed.synchronous (hmissed : p.Missed l p')
    (h : Synchronous p.receiver ∧ Blocking p.r) : Synchronous p'.receiver ∧ Blocking p'.r := by
  obtain ⟨μ, ss, rs, hagree⟩ := p
  obtain ⟨μ', ss', rs', hagree'⟩ := p'
  cases hmissed with
  | sender order v hsession hmemory hreceiver =>
    cases hreceiver
    exact h
  | @receiver _ α hsession hmisses =>
    refine ⟨?_, blocking_move hmisses.move h.2 ?_⟩
    · cases hsession with
      | act => exact h.1
    · rintro cx rfl
      obtain ⟨order, hload⟩ := hmisses.load true
      cases hload

end Proto

namespace WeakProto

section

variable {τ : List (Label T)} {q q' : WeakProto T} {l : Label T}

theorem Step.synchronous (hstep : Step q l q') (hl : l.intoFuture = false)
    (h : Proto.Synchronous q.proto.receiver ∧ Proto.Blocking q.proto.r) :
    Proto.Synchronous q'.proto.receiver ∧ Proto.Blocking q'.proto.r := by
  cases hstep with
  | prompt hstep => exact Proto.synchronous_step hstep hl h
  | stray thread hstep => exact Proto.synchronous_step hstep hl h
  | missed hmissed => exact hmissed.synchronous h

theorem Step.orderly (hstep : Step q l q') (hl : l.intrudes = false) (hr : q.proto.r.Orderly) :
    q'.proto.r.Orderly := by
  have hprompt (hstep : Proto.Step q.proto l q'.proto) : q'.proto.r.Orderly := by
    cases hstep.moves with
    | still _ _ hkeep => exact hkeep ▸ hr
    | sender _ hkeep => exact hkeep ▸ hr
    | receiver hmove => exact hmove.orderly hr hl
  cases hstep with
  | prompt hstep => exact hprompt hstep
  | stray thread hstep => exact hprompt hstep
  | missed hmissed =>
    obtain ⟨_, _, ⟨_, hkeep, _⟩ | ⟨α, rfl, hmisses⟩⟩ := hmissed.cases
    · exact hkeep ▸ hr
    · exact hmisses.move.orderly hr hl

theorem Step.freed (hstep : Step q l q') (h : Proto.Freed τ q.proto) (hpatient : q.proto.Patient) :
    Proto.Freed (τ ++ [l]) q'.proto := by
  cases hstep with
  | prompt hstep => exact h.step hpatient hstep
  | stray thread hstep => exact h.step hpatient hstep
  | missed hmissed => exact h.missed hmissed

theorem freed_run {h : Receiver.Handle} {token : Thread → Bool} {P : WeakProto T → Prop}
    {Q : Label T → Prop} (hrun : Run Step (init h token) τ q) (hQ : ∀ l ∈ τ, Q l)
    (hinit : P (init h token)) (hpatient : ∀ q, P q → q.proto.Patient)
    (hkeep : ∀ q l q', P q → Step q l q' → Q l → P q') : P q ∧ Proto.Freed τ q.proto := by
  induction hrun with
  | nil =>
    refine ⟨hinit, .nil, fun _ => rfl, ?_⟩
    rintro (⟨_, h⟩ | ⟨_, _, h⟩ | ⟨_, h⟩) <;> cases h
  | @snoc τ q q' l _ hstep ih =>
    obtain ⟨hq, hfreed⟩ := ih fun l hl => hQ l (List.mem_append_left _ hl)
    have hl : Q l := hQ l (List.mem_append_right _ (List.mem_singleton_self l))
    exact ⟨hkeep _ _ _ hq hstep hl, hstep.freed hfreed (hpatient _ hq)⟩

/-- A receiver that frees the channel has seen the last of the sender. -/
theorem Guarded.receiver_frees (h : Guarded τ q) (hr : q.proto.r.Orderly)
    (hstep : Step q (.receiver (.act ⟨.dealloc, ()⟩)) q') :
    positions Label.senderTouches τ ⊆ q.history.view .receiver := by
  have hknows := h.aware.knows
  have hseen : publishing τ ⊆ q.history.view .receiver := by
    cases hstep with
    | prompt hstep =>
      cases hstep.moves with
      | still hnone => cases hnone
      | receiver hmove =>
        obtain ⟨x, hx, hfinal⟩ := hmove.seen_of_dealloc hr
        rw [hx] at hknows
        exact hknows.2.2 hfinal
    | missed hmissed =>
      have hfrees := hmissed.alive.1
      cases hfrees
  refine Finset.Subset.trans (positions_subset_upTo fun l hl => ?_) hseen
  exact (Bool.and_eq_true_iff.mp hl).1

/-- A sender that frees the channel has found it closed, and has seen the receiver leave. -/
theorem Guarded.sender_frees (h : Guarded τ q)
    (hstep : Step q (.sender (.act ⟨.dealloc, ()⟩)) q') :
    positions Label.receiverTouches τ ⊆ q.history.view .sender := by
  cases hstep with
  | prompt hstep => exact h.left.taken (Proto.dealloc_sender hstep)
  | missed hmissed =>
    have hfrees := hmissed.alive.1
    cases hfrees

theorem Step.deallocOrdered (hstep : Step q l q') (hguarded : Guarded τ q)
    (hr : q.proto.r.Orderly) (hfreed : Proto.Freed τ q.proto) :
    DeallocOrdered τ q.history.current l := by
  have hsafe : AllocationSafe (τ ++ [l]) := (hstep.freed hfreed hr.patient).safe
  refine ⟨fun l' hl' => ?_, ?_, ?_⟩
  · exact (List.pairwise_append.mp hsafe).2.2 l' hl' l (List.mem_singleton_self l)
  · rintro rfl
    exact hguarded.receiver_frees hr hstep
  · rintro rfl
    exact hguarded.sender_frees hstep

end

end WeakProto

/-- Also on a weakly ordered machine the channel of a plain `Receiver` is not touched once it
    is freed, and it is freed once. -/
theorem weak_allocation_kept {σ : WeakSystem T} {token : Thread → Bool} {τ : List (Label T)}
    (hrun : Run WeakSystem.Step (.ofSystem (System.channel T token)) τ σ)
    (hsync : ∀ l ∈ τ, l.intoFuture = false) : AllocationKept τ σ.strong := by
  obtain ⟨q, hq, hrenders⟩ := (WeakProto.renders_init (Proto.simulates_channel token)).run hrun
  have hfreed := (WeakProto.freed_run
    (P := fun q => Proto.Synchronous q.proto.receiver ∧ Proto.Blocking q.proto.r) hq hsync
    ⟨by rintro ⟨⟩, trivial⟩ (fun q h => h.2.patient) fun _ _ _ h hstep hl => hstep.synchronous hl h).2
  exact hfreed.kept hrenders.simulates

theorem weak_allocation_kept_passed_over :
    (WeakSystem.reached (.ofSystem (System.channel Nat fun _ => false))
        WeakSystem.passed_over).strong.Completed ∧
      AllocationKept (WeakSystem.labels (.ofSystem (System.channel Nat fun _ => false))
          WeakSystem.passed_over)
        (WeakSystem.reached (.ofSystem (System.channel Nat fun _ => false))
          WeakSystem.passed_over).strong :=
  ⟨⟨rfl, rfl⟩, weak_allocation_kept (WeakSystem.run_of_play (by decide)) (by decide)⟩

/-- In a run in which no swap of the receiver falls into the sender's window the channel is
    freed by a side that has seen all that the other did with it, and is then left alone. -/
theorem weak_dealloc_ordered {σ₀ σ σ' : WeakSystem T} {τ : List (Label T)} {l : Label T}
    (hinitial : σ₀.Initial) (hrun : Run WeakSystem.Step σ₀ τ σ) (hstep : WeakSystem.Step σ l σ')
    (horderly : ∀ l ∈ τ, l.intrudes = false) :
    DeallocOrdered τ σ.memory.history.current l := by
  obtain ⟨h, token, hrenders⟩ := WeakProto.exists_init hinitial
  obtain ⟨q, hq, hrenders⟩ := hrenders.run hrun
  obtain ⟨q', hstep, _⟩ := hrenders.step (hrenders.finds hstep)
  obtain ⟨hr, hfreed⟩ := WeakProto.freed_run (P := fun q => q.proto.r.Orderly) hq horderly trivial
    (fun q hr => hr.patient) fun _ _ _ hr hstep hl => hstep.orderly hl hr
  rw [← hrenders.history]
  exact hstep.deallocOrdered (WeakProto.guarded_run hq) hr hfreed

/-- A message that is received by `recv`, up to the step that frees the channel. -/
def System.freed_by_recv : List (Choice Nat) := sends (.send 5) 2 ++ receives (.recv ⟨1⟩) 4 0

theorem weak_dealloc_ordered_recv :
    ∃ σ, Run WeakSystem.Step (.ofSystem (System.channel Nat fun _ => false))
        ((System.channel Nat fun _ => false).labels System.freed_by_recv).dropLast σ ∧
      DeallocOrdered ((System.channel Nat fun _ => false).labels System.freed_by_recv).dropLast
        σ.memory.history.current (.receiver (.act ⟨.dealloc, ()⟩)) := by
  obtain ⟨H, hrun, _⟩ := WeakSystem.exists_run
    (@System.run_of_play Nat (System.channel Nat fun _ => false) System.freed_by_recv (by decide))
  have hlabels : (System.channel Nat fun _ => false).labels System.freed_by_recv =
      ((System.channel Nat fun _ => false).labels System.freed_by_recv).dropLast ++
        [.receiver (.act ⟨.dealloc, ()⟩)] := rfl
  rw [hlabels] at hrun
  obtain ⟨σ, hbefore, hstep⟩ := hrun.snoc_inv
  exact ⟨σ, hbefore, weak_dealloc_ordered ⟨_, ⟨_, .inl rfl⟩, rfl⟩ hbefore hstep (by decide)⟩

end oneshot
