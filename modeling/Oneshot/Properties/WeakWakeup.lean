import Oneshot.Protocol.Staleness
import Oneshot.Properties.Wakeup

open conc

namespace oneshot

variable {T : Type}

/-- A park returns because it has consumed the token of its thread. -/
def Label.awakens : Label T → Bool
  | .receiver (.act ⟨.park _, .unparked⟩) | .receiver (.act ⟨.park_timeout _ _, .unparked⟩) => true
  | _ => false

/-- The sender has returned, and what it leaves behind ends all waiting on a weakly ordered
    machine. A look at the byte may still miss the final state there, but not after the
    token has told of it. -/
structure WeakReleased (σ : WeakSystem T) : Prop where
  /-- A thread about to park finds its token set. -/
  token : ∀ a thread, σ.receiver.next = some a → a.parks = some thread →
    σ.memory.memory.token thread = true
  /-- A thread that was woken reads a final state. -/
  reads : ∀ τ₁ τ₂ τ₃ l σ' (order : MemOrder) (v : UInt8), l.awakens = true →
    Run WeakSystem.Step σ (τ₁ ++ l :: τ₂ ++ .receiver (.act ⟨.load order, v⟩) :: τ₃) σ' →
    v = MESSAGE ∨ v = DISCONNECTED
  /-- And having read it, it leaves its loop, and waits no more. -/
  leaves : ∀ τ₁ τ₂ σ' (order : MemOrder) (v : UInt8), v = MESSAGE ∨ v = DISCONNECTED →
    Run WeakSystem.Step σ (τ₁ ++ .receiver (.act ⟨.load order, v⟩) :: τ₂) σ' →
    ∀ l ∈ τ₂, l.waits = false

section

variable {s s' : Sender.Role T} {r r' : Receiver.Role T} {α : (interface T).Action}

/-- A sender that has published its outcome does not write the byte again. -/
theorem Sender.Role.Move.writes_of_published (hmove : s.Move α s') (hs : s.published ≠ none) :
    (syncOp true α).writes = false ∧ s'.published ≠ none := by
  cases hmove <;> first | exact ⟨rfl, hs⟩ | exact (hs rfl).elim

theorem Sender.Role.Move.writes_of_ended (hmove : s.Move α s') (hs : s.ended = true) :
    (syncOp true α).writes = false := by
  cases hmove <;> first | rfl | cases hs

theorem Sender.Role.Move.takes_no_token (hmove : s.Move α s') (thread : Thread) :
    syncOp true α ≠ .take thread := by
  cases hmove <;> simp [syncOp]

/-- A sender unparks after it has published its outcome. -/
theorem Sender.Role.Move.published_of_unpark {thread : Thread}
    (hmove : s.Move ⟨.unpark thread, ()⟩ s') : s.published ≠ none := by
  cases hmove
  simp [published]

end

namespace WeakProto

/-- Whoever knows what the sender has done since it published its outcome finds it, and
    the token of the thread it has unparked brings that along. -/
structure Heard (τ : List (Label T)) (q : WeakProto T) : Prop where
  published : q.proto.s.published ≠ none →
    q.history.Tells .receiver (q.history.view .sender)
  unparked : ∀ thread, .sender (.act ⟨.unpark thread, ()⟩) ∈ τ → q.proto.s.published ≠ none ∧
    q.history.Tells .receiver (q.history.given thread)

section

variable {τ : List (Label T)} {q q' : WeakProto T} {l : Label T} {side : Side}
  {o : SyncOp Thread} {α : (interface T).Action}

theorem Heard.sender (h : Heard τ q)
    (hfresh : q.history.Fresh .sender (syncOp true α) q.proto.memory.channel.state
      q'.proto.memory.channel.state q'.history) (hmove : q.proto.s.Move α q'.proto.s) :
    Heard (τ ++ [.sender (.act α)]) q' := by
  refine ⟨fun hs' => ?_, fun thread hmem => ?_⟩
  · cases hwrites : (syncOp true α).writes with
    | true => exact .inr ⟨_, hfresh.own_view, hfresh.mark (.inr hwrites)⟩
    | false =>
      rw [hmove.published_of_read hwrites] at hs'
      exact (hfresh.tells (.inl hwrites) (h.published hs')).mono (hfresh.view _)
  · obtain hmem | hmem := List.mem_append.mp hmem
    · obtain ⟨hs, htells⟩ := h.unparked thread hmem
      obtain ⟨hwrites, hs'⟩ := hmove.writes_of_published hs
      refine ⟨hs', (hfresh.tells (.inl hwrites) htells).mono (hfresh.given ?_)⟩
      exact hmove.takes_no_token thread
    · cases List.mem_singleton.mp hmem
      have hs := hmove.published_of_unpark
      obtain ⟨hwrites, hs'⟩ := hmove.writes_of_published hs
      exact ⟨hs', (hfresh.tells (.inl hwrites) (h.published hs)).mono hfresh.gives⟩

theorem Heard.other (h : Heard τ q) (hl : ∀ thread, l ≠ .sender (.act ⟨.unpark thread, ()⟩))
    (hs : q'.proto.s = q.proto.s)
    (htells : ∀ E, q.history.Tells .receiver E → q'.history.Tells .receiver E)
    (hview : q.history.view .sender ⊆ q'.history.view .sender)
    (hgiven : ∀ thread, q.history.given thread ⊆ q'.history.given thread ∨
      q.history.given thread ⊆ q'.history.view .receiver) : Heard (τ ++ [l]) q' := by
  refine ⟨fun hs' => (htells _ (h.published (hs ▸ hs'))).mono hview, fun thread hmem => ?_⟩
  obtain hmem | hmem := List.mem_append.mp hmem
  · obtain ⟨hpublished, hold⟩ := h.unparked thread hmem
    refine ⟨hs ▸ hpublished, ?_⟩
    obtain hgiven | htaken := hgiven thread
    · exact (htells _ hold).mono hgiven
    · exact .inl ((htells _ hold).informed htaken)
  · exact (hl thread (List.mem_singleton.mp hmem).symm).elim

theorem Heard.step (h : Heard τ q) (hstep : Step q l q') : Heard (τ ++ [l]) q' := by
  cases hstep with
  | @prompt _ _ side o hstep hl hfresh =>
    cases hstep.moves with
    | sender hmove =>
      cases hl
      exact h.sender hfresh hmove
    | still hnone hs =>
      have ho : o = .plain := by
        obtain hsync | ⟨_, hsync⟩ := sync_of_still true hnone <;> rw [hl] at hsync <;> cases hsync
        rfl
      subst ho
      refine h.other ?_ hs (fun _ => hfresh.tells (.inl rfl)) (hfresh.view _) fun thread => ?_
      · rintro thread rfl
        cases hnone
      · exact .inl (hfresh.given (by simp))
    | @receiver α _ hmove hs =>
      cases hl
      refine h.other (by simp) hs (fun _ => hfresh.tells (.inr rfl)) (hfresh.view _) fun thread => ?_
      by_cases htake : syncOp true α = .take thread
      · rw [htake] at hfresh
        exact .inr hfresh.takes
      · exact .inl (hfresh.given htake)
  | stray thread hstep hhistory =>
    have hs : q'.proto.s = q.proto.s := by
      cases hstep.moves with
      | still _ hs => exact hs
    refine h.other (by simp) hs ?_ ?_ ?_ <;> rw [hhistory]
    · exact fun _ htells => htells
    · exact Finset.Subset.refl _
    · exact fun _ => .inl (Finset.Subset.refl _)
  | missed hmissed hl hstale =>
    refine h.other ?_ ?_ (fun _ => hstale.tells) (hstale.view _) fun thread => ?_
    · rintro thread rfl
      cases hl
    · exact hmissed.cases.2.1
    · rw [hstale.given]
      exact .inl (Finset.Subset.refl _)

end

end WeakProto

namespace Receiver

/-- The thread that is about to park, as far as the role says. -/
def Role.parking : Role T → Option Thread
  | .waiting (.Thread current) | .expired (.Thread current) => some current
  | _ => none

/-- The thread that has parked, and not looked at the byte since. -/
def Role.parked : Role T → Option Thread
  | .woken (.Thread current) | .expired_woken (.Thread current) => some current
  | _ => none

section

variable {r r' : Role T} {s : Sender.Role T} {x : Channel T} {α : (interface T).Action}
  {thread : Thread}

theorem Role.of_parking (hr : r.parking = some thread) :
    r = .waiting (.Thread thread) ∨ r = .expired (.Thread thread) := by
  cases r with
  | waiting waker | expired waker =>
    cases waker <;> cases hr
    simp
  | _ => cases hr

/-- A thread that has parked knows what it knew before. -/
theorem Role.Agree.of_parked (hr : r.parked = some thread) (hagree : r.Agree s x) :
    ∃ r₀ : Role T, (r₀ = .waiting (.Thread thread) ∨ r₀ = .expired (.Thread thread)) ∧
      r₀.Agree s x := by
  cases r with
  | woken waker =>
    cases waker <;> cases hr
    exact ⟨_, .inl rfl, hagree⟩
  | expired_woken waker =>
    cases waker <;> cases hr
    exact ⟨_, .inr rfl, hagree⟩
  | _ => cases hr

/-- A thread comes back from a park that it was about to make. -/
theorem Role.Move.of_parked (hmove : r.Move α r') (hr' : r'.parked = some thread) :
    r.parking = some thread ∧ α.access.parks = some thread := by
  cases hmove with
  | park | park_timeout | expired_park =>
    cases hr'
    exact ⟨rfl, rfl⟩
  | _ => cases hr'

/-- Who consumes a token was about to park. -/
theorem Role.Move.of_awakens (hmove : r.Move α r') (hawakens : (Label.receiver (.act α)).awakens = true) :
    ∃ thread, r.parking = some thread ∧ syncOp true α = .take thread := by
  cases hmove with
  | park current v | park_timeout current timeout v | expired_park current v =>
    cases v <;> first | exact ⟨current, rfl, rfl⟩ | cases hawakens
  | _ => cases hawakens

/-- A receiver that reads a final state, even an old one, waits no more. -/
theorem Role.Move.ended_of_final {order : MemOrder} {v : UInt8} (hmove : r.Move ⟨.load order, v⟩ r')
    (hv : v = MESSAGE ∨ v = DISCONNECTED) : r'.ended = true := by
  cases hmove with
  | look_empty | poll_receiving | poll_unparking | caught_again | expired_again => simp at hv
  | woken_again waker order hv' =>
    obtain rfl | rfl := hv' <;> simp at hv
  | _ => rfl

/-- The roles that wait for nothing miss nothing. -/
theorem Role.Misses.not_ended (hmisses : r.Misses α r') : r.ended = false := by
  cases hmisses <;> rfl

/-- Who goes back to its park has missed the final state in a look after the last one. -/
theorem Role.Misses.of_parking (hmisses : r.Misses α r') (hr' : r'.parking = some thread) :
    r.parked = some thread := by
  cases hmisses with
  | woken waker | expired waker =>
    cases waker <;> cases hr'
    rfl
  | _ => cases hr'

theorem Role.Misses.not_awakens (hmisses : r.Misses α r') :
    (Label.receiver (.act α)).awakens = false := by
  cases hmisses <;> rfl

theorem Role.Misses.not_parked (hmisses : r.Misses α r') : r'.parked = none := by
  cases hmisses <;> rfl

end

end Receiver

/-- A park returns because it has consumed the token, or leaves it set. -/
theorem Memory.Acts.token_of_parks {μ μ' : Memory T} {α : (interface T).Action} {thread : Thread}
    (hacts : μ.Acts α μ') (hparks : α.access.parks = some thread) (htoken : μ.token thread = true) :
    syncOp true α = .take thread ∨ μ'.token thread = true := by
  obtain ⟨a, v⟩ := α
  obtain ⟨env, hexec⟩ := hacts
  cases a with
  | park current =>
    cases hparks
    simp only [exec] at hexec
    split at hexec
    · cases hexec
    · obtain ⟨rfl, ⟨_, rfl⟩ | ⟨hw, _, _⟩⟩ := wakeup_eq hexec
      · exact .inr htoken
      · rw [hw]
        exact .inl rfl
  | park_timeout current timeout =>
    cases hparks
    obtain ⟨rfl, ⟨_, rfl⟩ | ⟨hw, _, _⟩⟩ := wakeup_eq hexec
    · exact .inr htoken
    · rw [hw]
      exact .inl rfl
  | _ => cases hparks

namespace WeakProto

/-- Once the sender is done, a thread that is about to park finds its token set, and one that
    has parked finds it set again, or will find the final state. -/
structure Rung (τ : List (Label T)) (q : WeakProto T) : Prop where
  parking : ∀ message thread, q.proto.s = .finished message → q.proto.r.parking = some thread →
    .sender (.act ⟨.unpark thread, ()⟩) ∈ τ ∧ q.proto.memory.token thread = true
  parked : ∀ message thread, q.proto.s = .finished message → q.proto.r.parked = some thread →
    .sender (.act ⟨.unpark thread, ()⟩) ∈ τ ∧
      (q.proto.memory.token thread = true ∨ q.history.Informed .receiver)

section

variable {τ : List (Label T)} {q q' : WeakProto T} {l : Label T}

theorem Rung.still (h : Rung τ q) (hs : q'.proto.s = q.proto.s) (hr : q'.proto.r = q.proto.r)
    (htoken : ∀ thread, q.proto.memory.token thread = true → q'.proto.memory.token thread = true)
    (hinformed : q.history.Informed .receiver → q'.history.Informed .receiver) :
    Rung (τ ++ [l]) q' := by
  refine ⟨fun message thread hs' hr' => ?_, fun message thread hs' hr' => ?_⟩
  · obtain ⟨hmem, hset⟩ := h.parking message thread (hs ▸ hs') (hr ▸ hr')
    exact ⟨List.mem_append_left _ hmem, htoken thread hset⟩
  · obtain ⟨hmem, hset⟩ := h.parked message thread (hs ▸ hs') (hr ▸ hr')
    exact ⟨List.mem_append_left _ hmem, hset.imp (htoken thread) hinformed⟩

theorem Rung.sender {α : (interface T).Action} (hmove : q.proto.s.Move α q'.proto.s)
    (hr : q'.proto.r = q.proto.r) (hacts : q.proto.memory.Acts α q'.proto.memory) :
    Rung (τ ++ [.sender (.act α)]) q' := by
  have hagree : Receiver.Role.Agree q.proto.r q.proto.s q.proto.memory.channel := q.proto.agree
  obtain ⟨env, hexec⟩ := hacts
  have hrings {r : Receiver.Role T} {message : Option T} {thread : Thread}
      (hs' : q'.proto.s = .finished message)
      (hwaits : r = .waiting (.Thread thread) ∨ r = .expired (.Thread thread))
      (hagree : r.Agree q.proto.s q.proto.memory.channel) :
      .sender (.act ⟨.unpark thread, ()⟩) ∈ τ ++ [.sender (.act α)] ∧
        q'.proto.memory.token thread = true := by
    have hunpark := Proto.rung_sender hmove hagree (Memory.exec_channel hexec).1 hs' hwaits
    obtain ⟨a, v⟩ := α
    obtain rfl : a = .unpark thread := hunpark
    exact ⟨by simp, Memory.exec_token hexec (.inr rfl) (by simp [Access.parks])⟩
  refine ⟨fun message thread hs' hr' => ?_, fun message thread hs' hr' => ?_⟩
  · rw [hr] at hr'
    exact hrings hs' (Receiver.Role.of_parking hr') hagree
  · rw [hr] at hr'
    obtain ⟨r, hwaits, hagree⟩ := Receiver.Role.Agree.of_parked hr' hagree
    obtain ⟨hmem, htoken⟩ := hrings hs' hwaits hagree
    exact ⟨hmem, .inl htoken⟩

theorem Rung.receiver {α : (interface T).Action} (h : Rung τ q) (hheard : Heard τ q)
    (hfresh : q.history.Fresh .receiver (syncOp true α) q.proto.memory.channel.state
      q'.proto.memory.channel.state q'.history)
    (hmove : q.proto.r.Move α q'.proto.r) (hs : q'.proto.s = q.proto.s)
    (hacts : q.proto.memory.Acts α q'.proto.memory) : Rung (τ ++ [.receiver (.act α)]) q' := by
  have hagree : Receiver.Role.Agree q.proto.r q.proto.s q.proto.memory.channel := q.proto.agree
  refine ⟨fun message thread hs' hr' => ?_, fun message thread hs' hr' => ?_⟩
  · rw [hs] at hs'
    have hpublished : q.proto.s.published = some message := by rw [hs']; rfl
    obtain ⟨env, hexec⟩ := hacts
    obtain ⟨hr, hnow, _⟩ := Proto.waits_still hmove hagree (Memory.exec_channel hexec).1 hpublished
      (Receiver.Role.of_parking hr')
    obtain ⟨hmem, htoken⟩ := h.parking message thread hs' (hr ▸ hr')
    exact ⟨List.mem_append_left _ hmem,
      Memory.exec_token hexec (.inl htoken) (by rw [hnow]; simp [Access.parks])⟩
  · rw [hs] at hs'
    obtain ⟨hr, hparks⟩ := hmove.of_parked hr'
    obtain ⟨hmem, htoken⟩ := h.parking message thread hs' hr
    refine ⟨List.mem_append_left _ hmem, ?_⟩
    obtain htake | hset := hacts.token_of_parks hparks htoken
    · rw [htake] at hfresh
      have htells := hfresh.tells (.inr rfl) (hheard.unparked thread hmem).2
      exact .inr (htells.informed hfresh.takes)
    · exact .inl hset

theorem Rung.missed (h : Rung τ q) (hmissed : q.proto.Missed l q'.proto)
    (hinformed : l.ofReceiver = true → ¬ q.history.Informed .receiver) : Rung (τ ++ [l]) q' := by
  obtain ⟨hmemory, hs, ⟨hfresh, hr, order, v, rfl⟩ | ⟨α, rfl, hmisses⟩⟩ := hmissed.cases
  · refine ⟨fun message thread hs' => ?_, fun message thread hs' => ?_⟩
    all_goals
      rw [hs, hfresh] at hs'
      cases hs'
  · refine ⟨fun message thread hs' hr' => ?_, fun message thread hs' hr' => ?_⟩
    · obtain ⟨hmem, hset⟩ := h.parked message thread (hs ▸ hs') (hmisses.of_parking hr')
      refine ⟨List.mem_append_left _ hmem, ?_⟩
      rw [hmemory]
      exact hset.resolve_right (hinformed rfl)
    · rw [hmisses.not_parked] at hr'
      cases hr'

theorem Rung.step (h : Rung τ q) (hheard : Heard τ q) (hstep : Step q l q') :
    Rung (τ ++ [l]) q' := by
  cases hstep with
  | @prompt _ _ side o hstep hl hfresh =>
    cases hstep.moves with
    | still hnone hs hr _ _ htoken =>
      refine h.still hs hr htoken fun hinformed => ?_
      have ho : o.writes = false := by
        obtain hsync | ⟨_, hsync⟩ := sync_of_still true hnone <;> rw [hl] at hsync <;> cases hsync
        rfl
      exact hinformed.kept (hfresh.kept ho _)
    | sender hmove hr hacts => exact .sender hmove hr hacts
    | receiver hmove hs hacts =>
      cases hl
      exact h.receiver hheard hfresh hmove hs hacts
  | stray thread hstep hhistory =>
    cases hstep.moves with
    | still _ hs hr _ _ htoken =>
      refine h.still hs hr htoken fun hinformed => ?_
      rw [hhistory]
      exact hinformed
  | missed hmissed hl hstale =>
    refine h.missed hmissed fun hby => ?_
    cases hmissed with
    | sender => cases hby
    | receiver =>
      obtain ⟨rfl, _⟩ := Prod.mk.inj (Option.some.inj hl)
      exact hstale.not_informed

/-- What a run keeps of all this. -/
theorem rung_run {h : Receiver.Handle} {token : Thread → Bool} (hrun : Run Step (init h token) τ q) :
    Heard τ q ∧ Rung τ q ∧ Sender.Ended q.proto.sender := by
  have hinit : Heard [] (init h token : WeakProto T) ∧ Rung [] (init h token : WeakProto T) := by
    refine ⟨⟨fun hs => (hs rfl).elim, by simp⟩, ⟨?_, ?_⟩⟩ <;> rintro message thread ⟨⟩
  refine hrun.invariant (P := fun τ q => Heard τ q ∧ Rung τ q ∧ Sender.Ended q.proto.sender)
    ⟨hinit.1, hinit.2, trivial⟩ ?_
  rintro τ q l q' _ ⟨hheard, hrung, hended⟩ hstep
  refine ⟨hheard.step hstep, hrung.step hheard hstep, ?_⟩
  have hprompt (hstep : Proto.Step q.proto l q'.proto) : Sender.Ended q'.proto.sender := by
    cases hstep with
    | sender hsession => exact Sender.ended_step hsession hended
    | receiver _ _ hs | stray _ _ hs =>
      rw [hs]
      exact hended
  cases hstep with
  | prompt hstep => exact hprompt hstep
  | stray _ hstep => exact hprompt hstep
  | missed hmissed =>
    cases hmissed with
    | sender _ _ hsession => exact Sender.ended_step hsession hended
    | receiver _ _ _ hs =>
      rw [hs]
      exact hended

/-- A sender that is done stays so, and does not write the byte. -/
theorem Step.sender_ended (hstep : Step q l q') (hs : q.proto.s.ended = true) :
    q'.proto.s.ended = true ∧
      (q.history.Informed .receiver → q'.history.Informed .receiver) := by
  cases hstep with
  | @prompt _ _ side o hstep hl hfresh =>
    refine ⟨hstep.sender_ended hs, fun hinformed => ?_⟩
    have htells := hfresh.tells (E := ∅) (j := Side.receiver) ?_ (.inl hinformed)
    · exact htells.informed (Finset.empty_subset _)
    · cases hstep.moves with
      | still hnone =>
        obtain hsync | ⟨_, hsync⟩ := sync_of_still true hnone <;> rw [hl] at hsync <;> cases hsync
        exact .inl rfl
      | sender hmove =>
        cases hl
        exact .inl (hmove.writes_of_ended hs)
      | receiver =>
        obtain ⟨rfl, _⟩ := Prod.mk.inj (Option.some.inj hl)
        exact .inr rfl
  | stray thread hstep hhistory =>
    refine ⟨hstep.sender_ended hs, fun hinformed => ?_⟩
    rw [hhistory]
    exact hinformed
  | missed hmissed hl hstale =>
    refine ⟨?_, fun hinformed => hinformed.kept (hstale.kept _)⟩
    rw [hmissed.cases.2.1]
    exact hs

/-- A token that is consumed after the sender was done tells of the final state. -/
theorem Step.informed_of_awakens (hstep : Step q l q') (hheard : Heard τ q) (hrung : Rung τ q)
    (hs : q.proto.s.ended = true) (hawakens : l.awakens = true) : q'.history.Informed .receiver := by
  cases hstep with
  | @prompt _ _ side o hstep hl hfresh =>
    cases hstep.moves with
    | still hnone =>
      cases l with
      | receiver e => cases e <;> first | cases hawakens | cases hnone
      | _ => cases hawakens
    | sender => cases hawakens
    | receiver hmove =>
      cases hl
      obtain ⟨thread, hr, htake⟩ := hmove.of_awakens hawakens
      have hapart : q.proto.r.apart = true := by
        obtain h | h := Receiver.Role.of_parking hr <;> rw [h] <;> rfl
      have hagree : Receiver.Role.Agree q.proto.r q.proto.s q.proto.memory.channel := q.proto.agree
      obtain ⟨message, hfinished⟩ := hagree.finished_of_ended hapart hs
      obtain ⟨hmem, _⟩ := hrung.parking message thread hfinished hr
      rw [htake] at hfresh
      have htells := hfresh.tells (.inr rfl) (hheard.unparked thread hmem).2
      exact htells.informed hfresh.takes
  | stray => cases hawakens
  | missed hmissed =>
    obtain ⟨_, _, ⟨_, _, order, v, rfl⟩ | ⟨α, rfl, hmisses⟩⟩ := hmissed.cases
    · cases hawakens
    · rw [hmisses.not_awakens] at hawakens
      cases hawakens

/-- A look of the receiver finds the final state of a sender that is done, if it knows of it. -/
theorem Step.load_final {order : MemOrder} {v : UInt8}
    (hstep : Step q (.receiver (.act ⟨.load order, v⟩)) q') (hs : q.proto.s.ended = true)
    (hinformed : q.history.Informed .receiver) : v = MESSAGE ∨ v = DISCONNECTED := by
  cases hstep with
  | prompt hstep => exact (hstep.load_ended hs).1
  | missed hmissed hl hstale =>
    obtain ⟨rfl, _⟩ := Prod.mk.inj (Option.some.inj hl)
    exact (hstale.not_informed hinformed).elim

/-- A receiver that has read a final state waits for nothing. -/
theorem Step.ended_of_final {order : MemOrder} {v : UInt8}
    (hstep : Step q (.receiver (.act ⟨.load order, v⟩)) q') (hv : v = MESSAGE ∨ v = DISCONNECTED) :
    q'.proto.r.ended = true := by
  cases hstep with
  | prompt hstep =>
    cases hstep.moves with
    | still hnone => cases hnone
    | receiver hmove => exact hmove.ended_of_final hv
  | missed hmissed =>
    obtain ⟨_, _, ⟨_, _, _, _, h⟩ | ⟨α, h, hmisses⟩⟩ := hmissed.cases
    · cases h
    · cases h
      exact hmisses.move.ended_of_final hv

theorem Step.receiver_ended (hstep : Step q l q') (hr : q.proto.r.ended = true) :
    q'.proto.r.ended = true ∧ l.waits = false := by
  cases hstep with
  | prompt hstep => exact hstep.receiver_ended hr
  | stray _ hstep => exact hstep.receiver_ended hr
  | missed hmissed =>
    obtain ⟨_, _, ⟨_, hr', order, v, rfl⟩ | ⟨α, rfl, hmisses⟩⟩ := hmissed.cases
    · exact ⟨hr' ▸ hr, rfl⟩
    · rw [hmisses.not_ended] at hr
      cases hr

theorem Renders.weak_released {σ : WeakSystem T} (h : Renders σ q) (hrung : Rung τ q)
    (hs : q.proto.s.ended = true) (hruns : ∀ τ' q', Run Step q τ' q' →
      Heard (τ ++ τ') q' ∧ Rung (τ ++ τ') q') : WeakReleased σ := by
  refine ⟨?_, ?_, ?_⟩
  · intro a thread hnext hparks
    have hwaiting := h.simulates.waiting hnext hparks
    have hapart : q.proto.r.apart = true := by obtain h | h := hwaiting <;> rw [h] <;> rfl
    have hagree : Receiver.Role.Agree q.proto.r q.proto.s q.proto.memory.channel := q.proto.agree
    obtain ⟨message, hmessage⟩ := hagree.finished_of_ended hapart hs
    have hparking : q.proto.r.parking = some thread := by
      obtain h | h := hwaiting <;> rw [h] <;> rfl
    have hmemory : q.proto.memory = σ.memory.memory := h.simulates.memory
    rw [← hmemory]
    exact (hrung.parking message thread hmessage hparking).2
  · intro τ₁ τ₂ τ₃ l σ' order v hawakens hrun
    obtain ⟨q', hq, _⟩ := h.run hrun
    obtain ⟨q₃, hq₃, hlast⟩ := hq.split
    obtain ⟨q₄, hload, _⟩ := hlast.cons_inv
    obtain ⟨q₁, hq₁, hrest⟩ := hq₃.split
    obtain ⟨q₂, hwake, hq₂⟩ := hrest.cons_inv
    have hs₁ : q₁.proto.s.ended = true :=
      hq₁.keeps (P := fun q => q.proto.s.ended = true) (fun _ _ _ hs hstep => (hstep.sender_ended hs).1) hs
    obtain ⟨hheard₁, hrung₁⟩ := hruns _ _ hq₁
    have hinformed := hwake.informed_of_awakens hheard₁ hrung₁ hs₁ hawakens
    obtain ⟨hs₃, hinformed₃⟩ := hq₂.keeps
      (P := fun q => q.proto.s.ended = true ∧ q.history.Informed .receiver)
      (fun _ _ _ h hstep => ⟨(hstep.sender_ended h.1).1, (hstep.sender_ended h.1).2 h.2⟩)
      ⟨(hwake.sender_ended hs₁).1, hinformed⟩
    exact hload.load_final hs₃ hinformed₃
  · intro τ₁ τ₂ σ' order v hv hrun
    obtain ⟨q', hq, _⟩ := h.run hrun
    obtain ⟨q₁, _, hrest⟩ := hq.split
    obtain ⟨q₂, hload, hq₂⟩ := hrest.cons_inv
    exact (hq₂.always (P := fun q => q.proto.r.ended = true) (Q := fun l => l.waits = false)
      (fun _ _ _ hr hstep => hstep.receiver_ended hr) (hload.ended_of_final hv)).2

end

end WeakProto

/-- In every run on a weakly ordered machine a sender that has returned leaves no receiver
    waiting. -/
theorem weak_no_lost_wakeup {σ₀ σ : WeakSystem T} {τ : List (Label T)} (hinitial : σ₀.Initial)
    (hrun : Run WeakSystem.Step σ₀ τ σ) (hreturned : σ.strong.returned = true) : WeakReleased σ := by
  obtain ⟨h, token, hinit⟩ := WeakProto.exists_init hinitial
  obtain ⟨q, hq, hrenders⟩ := hinit.run hrun
  obtain ⟨_, hrung, hended⟩ := WeakProto.rung_run hq
  refine hrenders.weak_released hrung (hrenders.simulates.ended hended hreturned) ?_
  intro τ' q' hq'
  obtain ⟨hheard, hrung, _⟩ := WeakProto.rung_run (hq.trans hq')
  exact ⟨hheard, hrung⟩

theorem weak_no_lost_wakeup_parked :
    ∃ H, Run WeakSystem.Step (.ofSystem (System.channel Nat fun _ => false))
        ((System.channel Nat fun _ => false).labels System.parked)
        (.ofHistory ((System.channel Nat fun _ => false).reached System.parked) H) ∧
      WeakReleased (.ofHistory ((System.channel Nat fun _ => false).reached System.parked) H) := by
  obtain ⟨H, hrun, _⟩ := WeakSystem.exists_run
    (@System.run_of_play Nat (System.channel Nat fun _ => false) System.parked (by decide))
  exact ⟨H, hrun, weak_no_lost_wakeup ⟨_, ⟨_, .inl rfl⟩, rfl⟩ hrun rfl⟩

end oneshot
