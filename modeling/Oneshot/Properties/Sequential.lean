import Oneshot.Conc.Delay
import Oneshot.Commute
import Oneshot.Properties.Races
import Oneshot.Properties.WeakWakeup

open conc

namespace oneshot

variable {T : Type}

/-- Whose step it is. A stray unpark is made by neither side. -/
def Label.party : Label T → Option Side
  | .sender _ => some .sender
  | .receiver _ => some .receiver
  | .stray _ => none

theorem Label.party_of_running {d : Label T} (hd : d.running) : d.party = some .sender := by
  cases d with
  | sender => rfl
  | _ => exact hd.elim

namespace Receiver

/-- The receiver may still look at the state byte. -/
def Role.looks : Role T → Bool
  | .quitting _ | .abandoned _ | .left | .released _ _ => false
  | _ => true

section

variable {r r' : Role T} {s : Sender.Role T} {x : Channel T} {α : (interface T).Action}
  {vs : List UInt8}

theorem Role.Move.looks (hmove : r.Move α r') (hr' : r'.looks = true) : r.looks = true := by
  cases hmove <;> first | rfl | cases hr'

theorem Role.Move.looks_of_reads (hmove : r.Move α r') (hreads : (syncOp true α).reads = true) :
    r.looks = true := by
  cases hmove <;> first | rfl | cases hreads

theorem Role.Misses.looks (hmisses : r.Misses α r') : r.looks = true := by
  cases hmisses <;> rfl

/-- The accesses of a receiver that is behind concern nobody else. -/
theorem Role.Move.aside (hmove : r.Move α r') (hr' : r'.looks = true) (hr : r.owns = false)
    (hreads : (syncOp true α).reads = false) :
    α.access.aside = true ∧ (α.access.cell = some .waker → r.spare = true) := by
  cases hmove with
  | store_waker | disarm => exact ⟨rfl, fun _ => rfl⟩
  | clock | clone | clock_waiting | park | park_timeout | caught_spin | wake_self | expired_park
  | leaving_spin => exact ⟨rfl, by rintro ⟨⟩⟩
  | own_load | own_store | own_swap | own_fence | own_clock | own_take | own_drop | own_drop_waker
  | release => cases hr
  | abandon | quit_fence => cases hr'
  | _ => cases hreads

/-- As long as the sender has written nothing the receiver sees but its own last value. -/
theorem Role.Visible.single (hvisible : r.Visible s vs) (hagree : r.Agree s x)
    (hr : r.looks = true) (hs : s.announced = false) (hlast : vs.getLast? = some x.state) :
    vs = [x.state] := by
  have hnone : s.published = none := by cases s <;> first | rfl | cases hs
  obtain ⟨us, rfl⟩ := List.getLast?_eq_some_iff.mp hlast
  have hone {v : UInt8} (h : (us ++ [x.state]).Sublist [v]) : us ++ [x.state] = [x.state] := by
    have hlength := h.length_le
    cases us with
    | nil => rfl
    | cons => simp at hlength
  have htwo (hstate : x.state = RECEIVING)
      (h : (us ++ [x.state]).Sublist [RECEIVING, UNPARKING]) : us ++ [x.state] = [x.state] := by
    cases us with
    | nil => rfl
    | cons u us =>
      obtain ⟨_, h⟩ := sublist_pair h (by simp)
      rw [hstate] at h
      simp [List.append_eq_singleton_iff] at h
  have hbefore {b : UInt8} {waker : Option ReceiverWaker} {w : ReceiverWaker}
      (h : s.Before b waker x ∨ s.Window UNPARKING w x ∨ s.Notified w x) : x.state = b := by
    obtain h | h | h := h
    · exact h.holds.1
    · cases s <;> first | exact h.elim | cases hs
    · cases s <;> first | exact h.elim | cases hs
  cases r with
  | own y =>
    obtain ⟨_, _, _, hpublished, _⟩ := hagree
    rw [hnone] at hpublished
    cases hpublished
  | waiting | woken =>
    simp only [Visible, past, hnone, Option.map_none, Option.toList_none, List.append_nil] at hvisible
    exact htwo (hbefore hagree) hvisible
  | idle | armed | caught | expired | expired_woken | leaving =>
    simp only [Visible, past, hnone, Option.map_none, Option.toList_none, List.append_nil] at hvisible
    exact hone hvisible
  | _ => cases hr

end

end Receiver

section

variable {s s' : Sender.Role T} {α : (interface T).Action}

theorem Sender.Role.Move.parks (hmove : s.Move α s') : α.access.parks = none := by
  cases hmove <;> rfl

theorem Sender.Role.Move.reads_of_fresh (hmove : s.Move α s') (hs' : s' = .fresh) :
    (syncOp true α).reads = true := by
  cases hmove <;> first | rfl | cases hs'

theorem Sender.Role.Move.fresh_of_load (hmove : s.Move α s') {order : MemOrder}
    (hsync : syncOp true α = .load order) : s = .fresh := by
  cases hmove <;> first | rfl | cases hsync

end

namespace WeakProto

theorem Step.running {q q' : WeakProto T} {l : Label T} (hstep : Step q l q')
    (hl : l.ofSender = true) : l.running := by
  cases l with
  | sender e =>
    cases e with
    | act α =>
      cases hstep with
      | prompt hstep =>
        cases hstep.moves with
        | still hnone => cases hnone
        | sender hmove => exact hmove.parks
      | missed hmissed =>
        obtain ⟨_, _, ⟨_, _, order, v, h⟩ | ⟨α, h, _⟩⟩ := hmissed.cases
        · cases h
          rfl
        · cases h
    | _ => trivial
  | _ => cases hl

theorem Step.sender_only {q q' : WeakProto T} {e : (oneshot.sender T).Event}
    (hstep : Step q (.sender e) q') : q'.proto.r = q.proto.r := by
  cases hstep with
  | prompt hstep =>
    cases hstep.moves with
    | still _ _ hr => exact hr
    | sender _ hr => exact hr
  | missed hmissed =>
    obtain ⟨_, _, ⟨_, hr, _⟩ | ⟨α, h, _⟩⟩ := hmissed.cases
    · exact hr
    · cases h

theorem Step.receiver_only {q q' : WeakProto T} {e : (oneshot.receiver T).Event}
    (hstep : Step q (.receiver e) q') : q'.proto.s = q.proto.s := by
  cases hstep with
  | prompt hstep =>
    cases hstep.moves with
    | still _ hs => exact hs
    | receiver _ hs => exact hs
  | missed hmissed => exact hmissed.cases.2.1

/-- A sender that has written nothing makes no access but a look at the byte. -/
theorem Step.still_of_fresh {q q' : WeakProto T} {e : (oneshot.sender T).Event} {side : Side}
    {o : SyncOp Thread} (hstep : Step q (.sender e) q') (hs' : q'.proto.s = .fresh)
    (hl : (Label.sender e).sync true = some (side, o)) (hreads : o.reads = false) :
    q.proto.s = .fresh ∧ ∀ α, e ≠ .act α := by
  cases hstep with
  | prompt hstep =>
    cases hstep.moves with
    | still hnone hs =>
      refine ⟨hs ▸ hs', ?_⟩
      rintro α rfl
      cases hnone
    | sender hmove =>
      cases hl
      rw [hmove.reads_of_fresh hs'] at hreads
      cases hreads
  | missed _ hload =>
    rw [hload] at hl
    cases hl
    cases hreads

/-- The sender looks at the byte only while it has written nothing. -/
theorem Step.fresh_of_load {q q' : WeakProto T} {α : (interface T).Action} {order : MemOrder}
    (hstep : Step q (.sender (.act α)) q') (hsync : syncOp true α = .load order) :
    q.proto.s = .fresh := by
  cases hstep with
  | prompt hstep =>
    cases hstep.moves with
    | still hnone => cases hnone
    | sender hmove => exact hmove.fresh_of_load hsync
  | missed hmissed =>
    obtain ⟨_, _, ⟨hs, _⟩ | ⟨α, h, _⟩⟩ := hmissed.cases
    · exact hs
    · cases h

theorem Step.looks_of_load {q q' : WeakProto T} {α : (interface T).Action} {order : MemOrder}
    (hstep : Step q (.receiver (.act α)) q') (hsync : syncOp true α = .load order) :
    q.proto.r.looks = true := by
  cases hstep with
  | prompt hstep =>
    cases hstep.moves with
    | still hnone => cases hnone
    | receiver hmove => exact hmove.looks_of_reads (by rw [hsync]; rfl)
  | missed hmissed =>
    obtain ⟨_, _, ⟨_, _, _, _, h⟩ | ⟨α, h, hmisses⟩⟩ := hmissed.cases
    · cases h
    · exact hmisses.looks

/-- A run on a weakly ordered machine that has come to `σ`, beside one on a strong machine
    that looks like it to both sides. As far as a side may still find old values of the byte,
    the other side's last steps can be put off until it finds them. -/
structure Sequential (σ₀ : System T) (τ : List (Label T)) (σ : WeakSystem T) (q : WeakProto T) :
    Prop where
  mirrors : Mirrors System.Step Label.party σ₀ τ σ.strong
  receiver : q.proto.r.looks = true → ∀ vs, σ.memory.history.Sees .receiver vs →
    Lags System.Step System.byte Label.running Label.party σ₀ τ σ.strong vs
  sender : q.proto.s = .fresh → ∀ vs, σ.memory.history.Sees .sender vs →
    Lags System.Step System.byte (fun l => l.ofSender = false) Label.party σ₀ τ σ.strong vs

section

variable {σ₀ : System T} {τ : List (Label T)} {σ σ' : WeakSystem T} {q q' : WeakProto T}
  {l : Label T} {late : Label T → Prop} {vs : List UInt8}

/-- Nobody who finds the latest value has to be behind. -/
theorem lags_of_single {side : Side} (hmirrors : Mirrors System.Step Label.party σ₀ τ σ.strong)
    (hfound : σ.memory.history.latest = some σ.memory.memory.channel.state)
    (hsees : σ.memory.history.Sees side vs) (hvs : ∃ v, vs = [v]) :
    Lags System.Step System.byte late Label.party σ₀ τ σ.strong vs := by
  obtain ⟨v, rfl⟩ := hvs
  obtain rfl : v = σ.strong.byte := Option.some.inj (hsees.last.trans hfound)
  exact hmirrors.lags

/-- The receiver sees but one value while the sender has written none. -/
theorem Renders.single (h : Renders σ q) (hr : q.proto.r.looks = true)
    (hs : q.proto.s.announced = false) (hsees : σ.memory.history.Sees .receiver vs) :
    ∃ v, vs = [v] := by
  rw [← h.history] at hsees
  exact ⟨_, (h.visible vs hsees).single q.proto.agree hr hs (hsees.last.trans h.latest)⟩

/-- A receiver that owns the channel sees but one value. -/
theorem Renders.single_of_owns (h : Renders σ q) (hr : q.proto.r.looks = true)
    (howns : q.proto.r.owns = true) (hsees : σ.memory.history.Sees .receiver vs) :
    ∃ v, vs = [v] := by
  rw [← h.history] at hsees
  have hvisible := h.visible vs hsees
  cases hrole : q.proto.r with
  | own y =>
    rw [hrole] at hvisible
    exact ⟨_, hvisible⟩
  | released =>
    rw [hrole] at hr
    cases hr
  | _ =>
    rw [hrole] at howns
    cases howns

/-- What the receiver does aside leaves a sender that is ahead of it alone. -/
theorem Sequential.spared (hguarded : Guarded τ q) (hheard : Heard τ q) {α : (interface T).Action}
    (hspare : α.access.cell = some .waker → q.proto.r.spare = true)
    (htake : ∀ thread, syncOp true α = .take thread →
      ¬ q.history.Tells .receiver (q.history.given thread)) {d : Label T} (hd : d ∈ τ) :
    d.spares α := by
  refine ⟨fun hα => ?_, ?_⟩
  · have hnone := hguarded.cells.untaken (.inl (hspare hα))
    by_contra hcell
    obtain ⟨n, hn⟩ := List.getElem?_of_mem hd
    have hmem : n ∈ positions (Label.accesses .sender .waker) τ :=
      mem_positions.mpr ⟨d, hn, by simpa using hcell⟩
    rw [hnone] at hmem
    exact absurd hmem (Finset.notMem_empty n)
  · rintro thread hα rfl
    exact htake thread hα (hheard.unparked thread hd).2

/-- A receiver that is behind, and does something aside. -/
theorem Sequential.receiver_aside (h : Sequential σ₀ τ σ q) (hrenders : Renders σ q)
    (hguarded : Guarded τ q) (hheard : Heard τ q) {e : (oneshot.receiver T).Event} {o : SyncOp Thread}
    (hstrong : System.Step σ.strong (.receiver e) σ'.strong) (hproto : Step q (.receiver e) q')
    (hl : (Label.receiver e).sync true = some (.receiver, o))
    (hfresh : σ.memory.history.Fresh .receiver o σ.memory.memory.channel.state
      σ'.memory.memory.channel.state σ'.memory.history)
    (hreads : o.reads = false) (hwrites : o.writes = false) (hr' : q'.proto.r.looks = true)
    (hsees : σ'.memory.history.Sees .receiver vs) (hvs : ¬ ∃ v, vs = [v]) :
    Lags System.Step System.byte Label.running Label.party σ₀ (τ ++ [.receiver e]) σ'.strong vs := by
  have hold := hfresh.kept hwrites _ vs hsees
  have hrole : q.proto.r.looks = true ∧ ∀ α, e = .act α → α.access.aside = true ∧
      ∀ d ∈ τ, d.spares α := by
    cases hproto with
    | missed _ hload =>
      rw [hload] at hl
      cases hl
      cases hreads
    | prompt hstep =>
      cases hstep.moves with
      | still hnone _ hr =>
        refine ⟨hr ▸ hr', ?_⟩
        rintro α rfl
        cases hnone
      | @receiver α _ hmove =>
        cases hl
        have hlooks := hmove.looks hr'
        have howns : q.proto.r.owns = false := by
          by_contra howns
          exact hvs (hrenders.single_of_owns hlooks (by simpa using howns) hold)
        obtain ⟨haside, hspare⟩ := hmove.aside hr' howns hreads
        refine ⟨hlooks, ?_⟩
        rintro β ⟨⟩
        refine ⟨haside, fun d hd => Sequential.spared hguarded hheard hspare ?_ hd⟩
        rw [hrenders.history]
        intro thread htake htells
        rw [htake] at hfresh
        exact hvs ((hfresh.tells (.inr rfl) htells).informed hfresh.takes vs hsees)
  obtain ⟨hlooks, haside⟩ := hrole
  generalize hσ' : σ'.strong = s' at hstrong ⊢
  cases hstrong with
  | @receiver _ r' μ' hstep =>
    have hspares (d : Label T) (hd : d ∈ τ) (α : (interface T).Action) (he : e = .act α) :
        d.spares α := (haside α he).2 d hd
    have hunmoved {s₁ : System T} {D : List (Label T)} (hrun : Run System.Step s₁ D σ.strong)
        (hD : ∀ d ∈ D, d ∈ τ ∧ d.running) : System.Unmoved e s₁ σ.strong :=
      .of_run hrun (fun d hd => (hD d hd).2) fun d hd => hspares d (hD d hd).1
    obtain ⟨heq, _⟩ := (hunmoved .nil (by simp)).step hstep fun α he => (haside α he).1
    have hlags := (h.receiver hlooks vs hold).early_step (l := .receiver e)
      (f := fun s => s.beside e r') (fun s => s.byte_beside e r') ?_ ?_ ?_
    · rw [show { σ.strong with memory := μ', receiver := r' } = σ.strong.beside e r' from heq]
      exact hlags.2 vs hsees.ne_nil (List.suffix_refl vs)
    · intro d hd
      rw [Label.party_of_running hd]
      rintro ⟨⟩
    · exact fun d hd hrunning s s' hstep => hstep.beside hrunning (hspares d hd)
    · intro s₁ D hrun hD _
      exact ((hunmoved hrun hD).step hstep fun α he => (haside α he).1).2

/-- The other side makes a step that finds the latest value. -/
theorem lags_other {side : Side} {o : SyncOp Thread} {i : Side}
    (hlags : ∀ vs, σ.memory.history.Sees i vs →
      Lags System.Step System.byte late Label.party σ₀ τ σ.strong vs)
    (hstrong : System.Step σ.strong l σ'.strong) (hl : late l)
    (hfresh : σ.memory.history.Fresh side o σ.memory.memory.channel.state
      σ'.memory.memory.channel.state σ'.memory.history)
    (hmirrors : Mirrors System.Step Label.party σ₀ (τ ++ [l]) σ'.strong)
    (hsees : σ'.memory.history.Sees i vs) :
    Lags System.Step System.byte late Label.party σ₀ (τ ++ [l]) σ'.strong vs := by
  cases hwrites : o.writes with
  | false => exact (hlags vs (hfresh.kept hwrites i vs hsees)).late_step hstrong hl
  | true =>
    obtain rfl | ⟨vs', hold, rfl⟩ := hfresh.extended hwrites i vs hsees
    · exact lags_of_single hmirrors hfresh.left hsees ⟨_, rfl⟩
    · exact (hlags vs' hold).late_new hstrong hl

/-- An event of the sender that changes nothing can be made before the receiver's last steps,
    where it finds what is found there. -/
theorem sender_early {e : (oneshot.sender T).Event} {s' : (oneshot.sender T).State} {v : UInt8}
    (hlags : Lags System.Step System.byte (fun l => l.ofSender = false) Label.party σ₀ τ σ.strong vs)
    (hv : vs.head? = some v)
    (hstep : ∀ μ, μ.channel.state = v → (oneshot.sender T).Step Memory.Acts σ.sender μ e s' μ) :
    Mirrors System.Step Label.party σ₀ (τ ++ [.sender e]) { σ.strong with sender := s' } ∧
      ∀ ws, ws ≠ [] → ws <:+ vs → Lags System.Step System.byte (fun l => l.ofSender = false)
        Label.party σ₀ (τ ++ [.sender e]) { σ.strong with sender := s' } ws := by
  have hstays {s₁ s₂ : System T} {d : Label T} (hstep : System.Step s₁ d s₂)
      (hd : d.ofSender = false) : s₂.sender = s₁.sender ∧
        System.Step { s₁ with sender := s' } d { s₂ with sender := s' } := by
    cases hstep with
    | sender => cases hd
    | receiver hstep => exact ⟨rfl, .receiver (σ := { s₁ with sender := s' }) hstep⟩
    | stray thread => exact ⟨rfl, .stray (σ := { s₁ with sender := s' }) thread⟩
  refine hlags.early_step (l := .sender e) (f := fun s => { s with sender := s' }) (fun _ => rfl)
    ?_ (fun d _ hd s s' hstep => (hstays hstep hd).2) ?_
  · rintro (e | e | thread) hd ⟨⟩
    cases hd
  · intro s₁ D hrun hD hhead
    have hstate : s₁.memory.channel.state = v := Option.some.inj (hhead.symm.trans hv)
    have hsender : σ.strong.sender = s₁.sender :=
      (hrun.attach fun d hd => (hD d hd).2).keeps (P := fun s => s.sender = s₁.sender)
        (fun s d s' hs hstep => (hstays hstep.1 hstep.2).1.trans hs) rfl
    have hfirst := hstep s₁.memory hstate
    rw [show σ.sender = s₁.sender from hsender] at hfirst
    exact .sender hfirst

/-- And an event of the receiver before the sender's. -/
theorem receiver_early {e : (oneshot.receiver T).Event} {r' : (oneshot.receiver T).State}
    {v : UInt8} (hlags : Lags System.Step System.byte Label.running Label.party σ₀ τ σ.strong vs)
    (hv : vs.head? = some v)
    (hstep : ∀ μ, μ.channel.state = v → (oneshot.receiver T).Step Memory.Acts σ.receiver μ e r' μ) :
    Mirrors System.Step Label.party σ₀ (τ ++ [.receiver e]) { σ.strong with receiver := r' } ∧
      ∀ ws, ws ≠ [] → ws <:+ vs → Lags System.Step System.byte Label.running Label.party σ₀
        (τ ++ [.receiver e]) { σ.strong with receiver := r' } ws := by
  have hstays {s₁ s₂ : System T} {d : Label T} (hstep : System.Step s₁ d s₂) (hd : d.running) :
      s₂.receiver = s₁.receiver ∧
        System.Step { s₁ with receiver := r' } d { s₂ with receiver := r' } := by
    cases hstep with
    | sender hstep => exact ⟨rfl, .sender (σ := { s₁ with receiver := r' }) hstep⟩
    | receiver | stray => exact hd.elim
  refine hlags.early_step (l := .receiver e) (f := fun s => { s with receiver := r' }) (fun _ => rfl)
    ?_ (fun d _ hd s s' hstep => (hstays hstep hd).2) ?_
  · intro d hd
    rw [Label.party_of_running hd]
    rintro ⟨⟩
  · intro s₁ D hrun hD hhead
    have hstate : s₁.memory.channel.state = v := Option.some.inj (hhead.symm.trans hv)
    have hreceiver : σ.strong.receiver = s₁.receiver :=
      (hrun.attach fun d hd => (hD d hd).2).keeps (P := fun s => s.receiver = s₁.receiver)
        (fun s d s' hs hstep => (hstays hstep.1 hstep.2).1.trans hs) rfl
    have hfirst := hstep s₁.memory hstate
    rw [show σ.receiver = s₁.receiver from hreceiver] at hfirst
    exact .receiver hfirst

/-- A sender that has written nothing, and starts a call or returns from one, while it may
    still find an old value. -/
theorem Sequential.sender_aside (h : Sequential σ₀ τ σ q) {e : (oneshot.sender T).Event}
    (hs : q.proto.s = .fresh) (hstrong : System.Step σ.strong (.sender e) σ'.strong)
    (he : ∀ α, e ≠ .act α) (hold : σ.memory.history.Sees .sender vs) :
    Lags System.Step System.byte (fun l => l.ofSender = false) Label.party σ₀ (τ ++ [.sender e])
      σ'.strong vs := by
  generalize hσ' : σ'.strong = s' at hstrong ⊢
  cases hstrong with
  | @sender _ s' μ' hstep =>
    obtain rfl := (Proto.follows_of_step hstep).2 he
    obtain ⟨v, hv⟩ : ∃ v, vs.head? = some v := by
      cases vs with
      | nil => exact (hold.ne_nil rfl).elim
      | cons v vs => exact ⟨v, rfl⟩
    refine (sender_early (h.sender hs vs hold) hv fun μ _ => ?_).2 vs hold.ne_nil (List.suffix_refl vs)
    exact hstep.transport (fun α h => (he α h).elim) fun _ => rfl

/-- A stray unpark can be made before the sender's last steps. -/
theorem stray_early (thread : Thread)
    (hlags : Lags System.Step System.byte Label.running Label.party σ₀ τ σ.strong vs)
    (hvs : vs ≠ []) :
    Lags System.Step System.byte Label.running Label.party σ₀ (τ ++ [.stray thread])
      { σ.strong with memory := σ.strong.memory.setToken thread true } vs := by
  refine (hlags.early_step (l := .stray thread)
    (f := fun s => { s with memory := s.memory.setToken thread true }) (fun _ => rfl) ?_ ?_ ?_).2
    vs hvs (List.suffix_refl vs)
  · intro d hd
    rw [Label.party_of_running hd]
    rintro ⟨⟩
  · intro d _ hd s s' hstep
    cases hstep with
    | @sender e s'' μ' hstep =>
      have hkeep := (Proto.follows_of_step hstep).2
      refine .sender (σ := { s with memory := s.memory.setToken thread true }) (hstep.transport ?_ ?_)
      · rintro α rfl hacts
        exact (Memory.acts_setToken hacts hd (.inr rfl)).2
      · exact fun hno => by rw [hkeep hno]
    | receiver | stray => exact hd.elim
  · exact fun s₁ _ _ _ _ => .stray thread

/-- A step that finds the latest value comes last on the strong machine as well. -/
theorem Sequential.latest {side : Side} {o : SyncOp Thread} (h : Sequential σ₀ τ σ q)
    (hrenders : Renders σ q) (hguarded : Guarded τ q) (hheard : Heard τ q)
    (hstrong : System.Step σ.strong l σ'.strong) (hproto : Step q l q')
    (hl : l.sync true = some (side, o))
    (hfresh : σ.memory.history.Fresh side o σ.memory.memory.channel.state
      σ'.memory.memory.channel.state σ'.memory.history) : Sequential σ₀ (τ ++ [l]) σ' q' := by
  have hmirrors := h.mirrors.snoc hstrong
  refine ⟨hmirrors, fun hr' vs hsees => ?_, fun hs' vs hsees => ?_⟩
  · by_cases hvs : ∃ v, vs = [v]
    · exact lags_of_single hmirrors hfresh.left hsees hvs
    cases l with
    | sender e =>
      have hr := h.receiver (hproto.sender_only ▸ hr')
      exact lags_other hr hstrong (hproto.running rfl) hfresh hmirrors hsees
    | receiver e =>
      obtain ⟨_, ho⟩ := sync_of_receiver e
      obtain ⟨rfl, rfl⟩ := Prod.mk.inj (Option.some.inj (hl.symm.trans ho))
      by_cases hbyte : o.reads = true ∨ o.writes = true
      · exact (hvs ⟨_, hfresh.own hbyte vs hsees⟩).elim
      · simp only [not_or, Bool.not_eq_true] at hbyte
        exact h.receiver_aside hrenders hguarded hheard hstrong hproto hl hfresh hbyte.1 hbyte.2 hr'
          hsees hvs
    | stray => cases hl
  · by_cases hvs : ∃ v, vs = [v]
    · exact lags_of_single hmirrors hfresh.left hsees hvs
    cases l with
    | sender e =>
      obtain ⟨_, ho⟩ := sync_of_sender e
      obtain ⟨rfl, rfl⟩ := Prod.mk.inj (Option.some.inj (hl.symm.trans ho))
      by_cases hbyte : o.reads = true ∨ o.writes = true
      · exact (hvs ⟨_, hfresh.own hbyte vs hsees⟩).elim
      · simp only [not_or, Bool.not_eq_true] at hbyte
        obtain ⟨hs, he⟩ := hproto.still_of_fresh hs' hl hbyte.1
        exact h.sender_aside hs hstrong he (hfresh.kept hbyte.2 _ vs hsees)
    | receiver e =>
      have hs := h.sender (hproto.receiver_only ▸ hs')
      exact lags_other hs hstrong rfl hfresh hmirrors hsees
    | stray => cases hl

/-- A look of the sender that finds an old value comes before the write that it misses. -/
theorem Sequential.sender_missed {α : (interface T).Action} {s' : (oneshot.sender T).State}
    {H' : History Side Thread UInt8} {order : MemOrder} {u : UInt8} (h : Sequential σ₀ τ σ q)
    (hrenders : Renders σ q) (hproto : Step q (.sender (.act α)) q')
    (hstep : ∀ μ, μ.channel.state = u →
      (oneshot.sender T).Step Memory.Acts σ.sender μ (.act α) s' μ)
    (hsync : syncOp true α = .load order)
    (hstale : σ.memory.history.Stale .sender (.load order) u u H') :
    Sequential σ₀ (τ ++ [.sender (.act α)]) ⟨⟨σ.memory.memory, H'⟩, s', σ.receiver⟩ q' := by
  obtain ⟨vs, _, hold, hsuffix⟩ := hstale.found
  have hs := hproto.fresh_of_load hsync
  obtain ⟨hmirrors, hlags⟩ := sender_early (h.sender hs _ hold) rfl hstep
  refine ⟨hmirrors, fun hr' ws hsees => ?_, fun _ ws hsees => ?_⟩
  · have hsingle := hrenders.single (hproto.sender_only ▸ hr') (by rw [hs]; rfl)
      (hstale.kept _ ws hsees)
    exact lags_of_single (σ := ⟨⟨σ.memory.memory, H'⟩, s', σ.receiver⟩) hmirrors
      (hstale.latest.trans hrenders.found) hsees hsingle
  · exact hlags ws hsees.ne_nil (hsuffix ws hsees)

/-- So does a look of the receiver. -/
theorem Sequential.receiver_missed {α : (interface T).Action} {r' : (oneshot.receiver T).State}
    {H' : History Side Thread UInt8} {order : MemOrder} {u : UInt8} (h : Sequential σ₀ τ σ q)
    (hrenders : Renders σ q) (hproto : Step q (.receiver (.act α)) q')
    (hstep : ∀ μ, μ.channel.state = u →
      (oneshot.receiver T).Step Memory.Acts σ.receiver μ (.act α) r' μ)
    (hsync : syncOp true α = .load order)
    (hstale : σ.memory.history.Stale .receiver (.load order) u u H') :
    Sequential σ₀ (τ ++ [.receiver (.act α)]) ⟨⟨σ.memory.memory, H'⟩, σ.sender, r'⟩ q' := by
  obtain ⟨vs, hvs, hold, hsuffix⟩ := hstale.found
  have hr := hproto.looks_of_load hsync
  obtain ⟨hmirrors, hlags⟩ := receiver_early (h.receiver hr _ hold) rfl hstep
  refine ⟨hmirrors, fun _ ws hsees => hlags ws hsees.ne_nil (hsuffix ws hsees), fun hs' => ?_⟩
  rw [hproto.receiver_only] at hs'
  obtain ⟨v, hv⟩ := hrenders.single hr (by rw [hs']; rfl) hold
  exact (hvs (List.cons.inj hv).2).elim

theorem Sequential.step (h : Sequential σ₀ τ σ q) (hrenders : Renders σ q)
    (hguarded : Guarded τ q) (hheard : Heard τ q) (hfinds : WeakSystem.Finds σ l σ')
    (hproto : Step q l q') : Sequential σ₀ (τ ++ [l]) σ' q' := by
  cases hfinds with
  | latest hstrong hl hfresh =>
    exact h.latest hrenders hguarded hheard hstrong hproto hl hfresh
  | sender hstep hsync hstale => exact h.sender_missed hrenders hproto hstep hsync hstale
  | receiver hstep hsync hstale => exact h.receiver_missed hrenders hproto hstep hsync hstale
  | none thread =>
    have hstrong : System.Step σ.strong (.stray thread)
        { σ.strong with memory := σ.strong.memory.setToken thread true } := .stray thread
    have hroles : q'.proto.r = q.proto.r ∧ q'.proto.s = q.proto.s := by
      cases hproto with
      | prompt _ hl => cases hl
      | stray _ hstep =>
        cases hstep.moves with
        | still _ hs hr => exact ⟨hr, hs⟩
      | missed _ hl => cases hl
    refine ⟨h.mirrors.snoc hstrong, fun hr' vs hsees => ?_, fun hs' vs hsees => ?_⟩
    · exact stray_early thread (h.receiver (hroles.1 ▸ hr') vs hsees) hsees.ne_nil
    · exact (h.sender (hroles.2 ▸ hs') vs hsees).late_step hstrong rfl

theorem sequential_run {σ₀ : WeakSystem T} (hinitial : σ₀.Initial)
    (hrun : Run WeakSystem.Step σ₀ τ σ) : ∃ q, Sequential σ₀.strong τ σ q := by
  obtain ⟨h, token, hinit⟩ := exists_init hinitial
  suffices hall : ∃ q, Run Step (init h token) τ q ∧ Renders σ q ∧ Sequential σ₀.strong τ σ q by
    obtain ⟨q, _, _, hsequential⟩ := hall
    exact ⟨q, hsequential⟩
  induction hrun with
  | nil =>
    have hmirrors : Mirrors System.Step Label.party σ₀.strong [] σ₀.strong :=
      ⟨[], .nil, .refl _ _⟩
    have hsingle {side : Side} {vs : List UInt8} (hsees : σ₀.memory.history.Sees side vs) :
        ∃ v, vs = [v] := by
      rw [← hinit.history] at hsees
      obtain ⟨e, es, hsuffix, _, rfl⟩ := hsees
      obtain heq | hnil := List.suffix_cons_iff.mp hsuffix
      · cases heq
        exact ⟨_, rfl⟩
      · cases List.suffix_nil.mp hnil
    exact ⟨_, .nil, hinit, hmirrors,
      fun _ _ hsees => lags_of_single hmirrors hinit.found hsees (hsingle hsees),
      fun _ _ hsees => lags_of_single hmirrors hinit.found hsees (hsingle hsees)⟩
  | snoc _ hstep ih =>
    obtain ⟨q, hq, hrenders, hsequential⟩ := ih
    have hfinds := hrenders.finds hstep
    obtain ⟨q', hproto, hrenders'⟩ := hrenders.step hfinds
    exact ⟨q', hq.snoc hproto, hrenders',
      hsequential.step hrenders (guarded_run hq) (rung_run hq).1 hfinds hproto⟩

end

end WeakProto

/-- To either side, every run on a weakly ordered machine looks like one on a machine that
    makes one access after the other: each makes the same steps in the same order, with the
    same answers, and they end in the same state. -/
theorem weak_run_sequential {σ₀ σ : WeakSystem T} {τ : List (Label T)} (hinitial : σ₀.Initial)
    (hrun : Run WeakSystem.Step σ₀ τ σ) :
    ∃ τ', Run System.Step σ₀.strong τ' σ.strong ∧ Alike Label.party τ τ' := by
  obtain ⟨q, hsequential⟩ := WeakProto.sequential_run hinitial hrun
  exact hsequential.mirrors

theorem weak_run_sequential_passed_over :
    (WeakSystem.reached (.ofSystem (System.channel Nat fun _ => false))
        WeakSystem.passed_over).strong.Completed ∧
      ∃ τ', Run System.Step (System.channel Nat fun _ => false) τ'
          (WeakSystem.reached (.ofSystem (System.channel Nat fun _ => false))
            WeakSystem.passed_over).strong ∧
        Alike Label.party (WeakSystem.labels (.ofSystem (System.channel Nat fun _ => false))
          WeakSystem.passed_over) τ' :=
  ⟨⟨rfl, rfl⟩, weak_run_sequential ⟨_, ⟨_, .inl rfl⟩, rfl⟩ (WeakSystem.run_of_play (by decide))⟩

end oneshot
