import Oneshot.Properties.WakerCell
import Oneshot.Properties.Wakeup

open conc

namespace oneshot

variable {T : Type}

namespace Label

/-- The step wakes the task of `cx`: the sender wakes the clone it has taken, or a
    `poll` wakes its own waker. -/
def wakes (cx : Waker) : Label T → Bool
  | .sender (.act ⟨.wake waker, _⟩) => waker = cx
  | .receiver (.act ⟨.wake_by_ref waker, _⟩) => waker = cx
  | _ => false

/-- A later poll, or the drop of the future, begins. -/
def supersedes : Label T → Bool
  | .receiver (.call (.poll _)) | .receiver (.call .async_drop) => true
  | _ => false

/-- The `poll` with `cx` returns `Pending`. -/
def pending (cx : Waker) : Label T := .receiver (.ret (.poll cx) (.poll .Pending))

end Label

def Woken (cx : Waker) (τ : List (Label T)) : Prop := ∃ l ∈ τ, l.wakes cx = true

/-- What a run that has come to `σ` owes to the wakers of its polls. -/
structure LatestWoken (τ : List (Label T)) (σ : System T) : Prop where
  /-- Once the sender has returned, the waker of the last poll, if that is pending, was
      woken after the poll began. -/
  latest : ∀ τ₁ cx τ₂, τ = τ₁ ++ .receiver (.call (.poll cx)) :: τ₂ →
    (∀ l ∈ τ₂, l.supersedes = false) → Label.pending cx ∈ τ₂ → σ.returned = true → Woken cx τ₂
  /-- The waker that the sender takes is the one that was stored last. -/
  taken : ∀ τ₁ waker τ₂, τ = τ₁ ++ .sender (.act ⟨.take_waker, waker⟩) :: τ₂ →
    (wakerLog τ₁).getLast? = some (.put waker)
  /-- And the sender wakes no other. -/
  woken : ∀ τ₁ l waker τ₂, τ = τ₁ ++ l :: τ₂ → l.woken = some waker → waker ∈ oneshot.taken τ₁

/-- The sender has `cx`, or will take it, and has yet to wake it. -/
def Due (cx : Waker) : Sender.Role T → Receiver.Role T → Prop
  | .fresh, r | .wrote _, r => r = .waiting (.Task cx)
  | .unparking _, r => r = .waiting (.Task cx) ∨ r = .caught (.Task cx)
  | .taken _ waker, _ | .notify _ waker, _ => waker = .Task cx
  | _, _ => False

section

variable {cx : Waker} {s s' : Sender.Role T} {r r' : Receiver.Role T} {x x' : Channel T}
  {α : (interface T).Action}

/-- The sender does not finish before it has woken a waker that is due. -/
theorem Due.sender (hdue : Due cx s r) (hmove : s.Move α s') (hagree : r.Agree s x)
    (hanswers : x.Answers α.access α.resp) : Due cx s' r ∨ α = ⟨.wake cx, ()⟩ := by
  cases hmove with
  | look | write => exact .inl hdue
  | send | send_disconnected | drop | drop_disconnected =>
    obtain rfl : r = .waiting (.Task cx) := hdue
    obtain h | h | h := hagree
    · have hstate := h.holds.1
      rw [← show _ = x.state from hanswers] at hstate
      cases hstate
    · exact h.elim
    · exact h.elim
  | send_receiving | drop_receiving => exact .inl (.inl hdue)
  | take_waker message waker =>
    have hwaker : x.waker = some waker := hanswers
    obtain rfl | rfl := hdue
    · obtain h | h | h := hagree
      · exact h.elim
      · obtain rfl : x = _ := h
        cases hwaker
        exact .inl rfl
      · exact h.elim
    · obtain h | h := hagree
      · obtain rfl : x = _ := h
        cases hwaker
        exact .inl rfl
      · exact h.elim
  | finish => exact .inl hdue
  | unpark => cases hdue
  | wake message task =>
    cases hdue
    exact .inr rfl
  | _ => exact hdue.elim

/-- A look at the state leaves a waker due. -/
theorem Due.look (hdue : Due cx s r) {order : MemOrder} {v : UInt8}
    (hmove : r.Move ⟨.load order, v⟩ r') (hagree : r.Agree s x) (hstate : v = x.state) :
    Due cx s r' := by
  cases s with
  | fresh | wrote =>
    obtain rfl : r = .waiting (.Task cx) := hdue
    obtain h | h | h := hagree
    · rw [h.holds.1] at hstate
      cases hmove with
      | poll_receiving => rfl
      | poll_unparking => cases hstate
      | @poll_late _ _ _ _ hfinal => cases hfinal <;> cases hstate
    · exact h.elim
    · exact h.elim
  | unparking =>
    have hwindow : x.state = UNPARKING := by
      obtain rfl | rfl := hdue
      · obtain h | h | h := hagree
        · exact h.elim
        · exact h.holds
        · exact h.elim
      · obtain h | h := hagree
        · exact h.holds
        · exact h.elim
    rw [hwindow] at hstate
    obtain rfl | rfl := hdue
    · cases hmove with
      | poll_receiving => cases hstate
      | poll_unparking => exact .inr rfl
      | @poll_late _ _ _ _ hfinal => cases hfinal <;> cases hstate
    · cases hmove with
      | caught_again => exact .inr rfl
      | @caught _ _ _ _ hfinal => cases hfinal <;> cases hstate
  | taken | notify => exact hdue
  | _ => exact hdue.elim

/-- A waker that has just been published is due. -/
theorem Due.published (hmove : r.Move α (.waiting (.Task cx))) (hagree : r.Agree s x)
    (hanswers : x.Answers α.access α.resp)
    (hagree' : Receiver.Role.Agree (.waiting (.Task cx)) s x') : Due cx s (.waiting (.Task cx)) := by
  obtain h | h | h := hagree'
  · cases s <;> first | rfl | exact h.elim
  · cases s with
    | unparking => exact .inl rfl
    | taken => exact h.1
    | _ => exact h.elim
  · cases s with
    | notify => exact h.1
    | finished message =>
      obtain ⟨_, _, thread, hthread⟩ := Proto.waits_still hmove hagree hanswers rfl (.inl rfl)
      cases hthread
    | _ => exact h.elim

theorem Due.ended (hdue : Due cx s r) : s.ended = false := by
  cases s <;> first | rfl | exact hdue.elim

end

theorem Woken.snoc {cx : Waker} {τ : List (Label T)} (hwoken : Woken cx τ) (l : Label T) :
    Woken cx (τ ++ [l]) := by
  obtain ⟨l', hmem, hl'⟩ := hwoken
  exact ⟨l', List.mem_append_left _ hmem, hl'⟩

theorem Woken.last {cx : Waker} {τ : List (Label T)} {l : Label T} (hl : l.wakes cx = true) :
    Woken cx (τ ++ [l]) := ⟨l, List.mem_append_right _ (List.mem_singleton_self l), hl⟩

namespace Proto

/-- The waker `cx` was woken in `τ`, or it will be before the sender is done. -/
def Kept (cx : Waker) (τ : List (Label T)) (p : Proto T) : Prop := Woken cx τ ∨ Due cx p.s p.r

/-- A step in which the receiver only looks at the state keeps a waker. -/
theorem Kept.step {cx : Waker} {τ : List (Label T)} {p p' : Proto T} {l : Label T}
    (hkept : p.Kept cx τ) (hstep : Step p l p')
    (hlooks : ∀ α, l = .receiver (.act α) → ∃ order, α.access = .load order) :
    p'.Kept cx (τ ++ [l]) := by
  have hagree : Receiver.Role.Agree p.r p.s p.memory.channel := p.agree
  obtain hwoken | hdue := hkept
  · exact .inl (hwoken.snoc l)
  · cases hstep.moves with
    | still _ hs hr =>
      rw [Kept, hs, hr]
      exact .inr hdue
    | sender hmove hr hacts =>
      obtain ⟨env, hexec⟩ := hacts
      rw [Kept, hr]
      obtain hdue' | rfl := hdue.sender hmove hagree (Memory.exec_channel hexec).1
      · exact .inr hdue'
      · exact .inl (.last (by simp [Label.wakes]))
    | @receiver α _ hmove hs hacts =>
      obtain ⟨env, hexec⟩ := hacts
      obtain ⟨a, v⟩ := α
      obtain ⟨order, rfl⟩ := hlooks _ rfl
      rw [Kept, hs]
      exact .inr (hdue.look hmove hagree (Memory.exec_channel hexec).1)

/-- The `poll` with `cx` is still in progress. -/
structure Polling (cx : Waker) (τ : List (Label T)) (p : Proto T) (r : Receiver.Role T)
    (g : Receiver.Progress T) : Prop where
  session : p.receiver = .during (.poll cx) r g
  quiet : Label.pending cx ∉ τ
  woke : g.woke = some cx → Woken cx τ
  settled : g.settled = some .open → r = .waiting (.Task cx) → p.Kept cx τ

/-- No later call than an observer has begun. -/
def Resting : (Receiver.contract T).Session → Prop
  | .between h _ => h = .async_receiver
  | .during c _ _ => c = .async_is_closed ∨ c = .async_has_message

/-- What holds since the `poll` with `cx` was called, until a later one is. -/
def Since (cx : Waker) (τ : List (Label T)) (p : Proto T) : Prop :=
  (∃ r g, p.Polling cx τ r g) ∨
    (Resting p.receiver ∧ (Label.pending cx ∈ τ → p.Kept cx τ))

theorem not_pending_snoc {cx : Waker} {τ : List (Label T)} {l : Label T}
    (hquiet : Label.pending cx ∉ τ) (hl : l ≠ Label.pending cx) : Label.pending cx ∉ τ ++ [l] := by
  intro hmem
  obtain hmem | hmem := List.mem_append.mp hmem
  · exact hquiet hmem
  · exact hl (List.mem_singleton.mp hmem).symm

theorem pending_of_snoc {cx : Waker} {τ : List (Label T)} {l : Label T}
    (hpending : Label.pending cx ∈ τ ++ [l]) (hl : l ≠ Label.pending cx) : Label.pending cx ∈ τ := by
  by_contra hquiet
  exact not_pending_snoc hquiet hl hpending

/-- A step that leaves the session as it is, leaves the poll where it is. -/
theorem Polling.other {cx : Waker} {τ : List (Label T)} {p p' : Proto T} {l : Label T}
    {r : Receiver.Role T} {g : Receiver.Progress T} (h : p.Polling cx τ r g) (hstep : Step p l p')
    (hreceiver : p'.receiver = p.receiver) (hl : l ≠ Label.pending cx)
    (hact : ∀ α, l ≠ .receiver (.act α)) : p'.Polling cx (τ ++ [l]) r g where
  session := hreceiver.trans h.session
  quiet := not_pending_snoc h.quiet hl
  woke hwoke := (h.woke hwoke).snoc l
  settled hsettled hr := (h.settled hsettled hr).step hstep fun _ heq => (hact _ heq).elim

/-- An access of the poll: when it is published its waker is due, and when it finds the
    sender at work it wakes its waker itself. -/
theorem Polling.act {cx : Waker} {τ : List (Label T)} {p p' : Proto T}
    {r r' : Receiver.Role T} {g g' : Receiver.Progress T} {α : (interface T).Action}
    (h : p.Polling cx τ r g) (hr : p.r = r) (hr' : p'.r = r')
    (hsession : p'.receiver = .during (.poll cx) r' g') (hmove : r.Move α r')
    (hs : p'.s = p.s) (hanswers : p.memory.channel.Answers α.access α.resp)
    (htrack : Receiver.Progress.advance (.poll cx) g α = some g') :
    p'.Polling cx (τ ++ [.receiver (.act α)]) r' g' where
  session := hsession
  quiet := not_pending_snoc h.quiet (by simp [Label.pending])
  woke hwoke := by
    obtain hsame | ⟨waker, rfl, hwaker⟩ := Receiver.Progress.advance_woke htrack
    · exact (h.woke (hsame ▸ hwoke)).snoc _
    · obtain rfl : waker = cx := Option.some.inj (hwaker.symm.trans hwoke)
      exact .last (by simp [Label.wakes])
  settled _ hwaiting := by
    subst hwaiting
    have hagree : Receiver.Role.Agree p.r p.s p.memory.channel := p.agree
    have hagree' : Receiver.Role.Agree p'.r p'.s p'.memory.channel := p'.agree
    rw [hr] at hagree
    rw [hr', hs] at hagree'
    rw [Kept, hs, hr']
    exact .inr (.published hmove hagree hanswers hagree')

/-- A poll that returns `Pending` leaves its waker woken or due. -/
theorem Polling.pending {cx : Waker} {τ : List (Label T)} {p p' : Proto T} {r : Receiver.Role T}
    {g : Receiver.Progress T} (h : p.Polling cx τ r g) (hstep : Step p (Label.pending cx) p')
    (hpost : Receiver.Post (.poll cx) (.poll .Pending) r g) :
    p'.Kept cx (τ ++ [Label.pending cx]) := by
  obtain ⟨_, hsettled, hr | ⟨waker, _, hwoke⟩⟩ := hpost
  · exact (h.settled hsettled hr).step hstep fun α heq => by cases heq
  · exact .inl ((h.woke hwoke).snoc _)

/-- Between two polls the receiver only looks at the state. -/
theorem Resting.step {p p' : Proto T} {l : Label T} (hresting : Resting p.receiver)
    (hstep : Step p l p') (hl : l.supersedes = false) :
    Resting p'.receiver ∧ (∀ cx, l ≠ Label.pending cx) ∧
      ∀ α, l = .receiver (.act α) → ∃ order, α.access = .load order := by
  cases hstep with
  | sender _ _ hreceiver =>
    rw [hreceiver]
    exact ⟨hresting, by rintro _ ⟨⟩, by rintro _ ⟨⟩⟩
  | stray _ _ _ hreceiver =>
    rw [hreceiver]
    exact ⟨hresting, by rintro _ ⟨⟩, by rintro _ ⟨⟩⟩
  | receiver hsession =>
    obtain ⟨μ, ss, rs, hagree⟩ := p
    obtain ⟨μ', ss', rs', hagree'⟩ := p'
    cases hsession with
    | @call h c r haccepts hready =>
      obtain rfl : h = .async_receiver := hresting
      refine ⟨?_, by rintro _ ⟨⟩, by rintro _ ⟨⟩⟩
      cases c with
      | async_is_closed => exact .inl rfl
      | async_has_message => exact .inr rfl
      | poll | async_drop => cases hl
      | _ => cases haccepts
    | @act c r r' g g' α f hon hmove htrack =>
      refine ⟨hresting, by rintro _ ⟨⟩, ?_⟩
      rintro _ ⟨⟩
      obtain ⟨hmakes, _⟩ := Receiver.Progress.follow_of_advance htrack
      refine Receiver.Call.makes_of_observes ?_ hmakes
      obtain rfl | rfl := hresting <;> rfl
    | enter => exact ⟨hresting, by rintro _ ⟨⟩, by rintro _ ⟨⟩⟩
    | ret hpost =>
      obtain rfl | rfl := hresting
      all_goals exact ⟨rfl, by rintro _ ⟨⟩, by rintro _ ⟨⟩⟩

/-- One step of a run in which no later poll and no destructor begins. -/
theorem Since.step {cx : Waker} {τ : List (Label T)} {p p' : Proto T} {l : Label T}
    (hsince : p.Since cx τ) (hstep : Step p l p') (hl : l.supersedes = false) :
    p'.Since cx (τ ++ [l]) := by
  obtain ⟨r, g, hpolling⟩ | ⟨hresting, hkept⟩ := hsince
  · have hstep' := hstep
    cases hstep with
    | sender _ _ hreceiver =>
      exact .inl ⟨r, g, hpolling.other hstep' hreceiver (by rintro ⟨⟩) (by rintro _ ⟨⟩)⟩
    | stray _ _ _ hreceiver =>
      exact .inl ⟨r, g, hpolling.other hstep' hreceiver (by rintro ⟨⟩) (by rintro _ ⟨⟩)⟩
    | receiver hsession hmemory hsender =>
      obtain ⟨μ, ss, rs, hagree⟩ := p
      obtain ⟨μ', ss', rs', hagree'⟩ := p'
      obtain rfl : rs = .during (.poll cx) r g := hpolling.session
      obtain rfl : ss' = ss := hsender
      cases hsession with
      | @act _ _ r' _ g' α f hon hmove htrack =>
        obtain ⟨env, hexec⟩ := hmemory
        exact .inl ⟨r', g', hpolling.act rfl rfl rfl (Receiver.Role.move_of_on hon hmove) rfl
          (Memory.exec_channel hexec).1 htrack⟩
      | enter => exact .inl ⟨r, g, hpolling.other hstep' rfl (by rintro ⟨⟩) (by rintro _ ⟨⟩)⟩
      | @ret _ v _ _ hpost =>
        refine .inr ⟨rfl, fun hpending => ?_⟩
        obtain hmem | hmem := List.mem_append.mp hpending
        · exact (hpolling.quiet hmem).elim
        · cases List.mem_singleton.mp hmem
          exact hpolling.pending hstep' hpost
  · obtain ⟨hresting', hpending, hlooks⟩ := hresting.step hstep hl
    refine .inr ⟨hresting', fun hmem => ?_⟩
    exact (hkept (pending_of_snoc hmem (hpending cx))).step hstep hlooks

/-- What has held since the `poll` with `cx` was called. -/
theorem since_run {cx : Waker} {τ : List (Label T)} {p₁ p₂ p : Proto T}
    (hcall : Step p₁ (.receiver (.call (.poll cx))) p₂) (hrun : Run Step p₂ τ p)
    (hτ : ∀ l ∈ τ, l.supersedes = false) : p.Since cx τ := by
  have hinit : p₂.Since cx [] := by
    obtain ⟨μ, ss, rs, hagree⟩ := p₁
    obtain ⟨μ', ss', rs', hagree'⟩ := p₂
    cases hcall with
    | receiver hsession =>
      cases hsession with
      | call haccepts hready =>
        exact .inl ⟨_, _, rfl, by simp, by rintro ⟨⟩, by rintro ⟨⟩⟩
  exact (hrun.attach hτ).invariant (P := fun τ p => p.Since cx τ) hinit
    fun _ _ _ _ _ hsince hstep => hsince.step hstep.1 hstep.2

theorem Simulates.latestWoken {σ₀ σ : System T} {h : Receiver.Handle} {token : Thread → Bool}
    {τ : List (Label T)} (hsim : Simulates σ₀ (init h token)) (hrun : Run System.Step σ₀ τ σ) :
    LatestWoken τ σ := by
  obtain ⟨p, hp, hsim'⟩ := hsim.run hrun
  refine ⟨?_, ?_, ?_⟩
  · rintro τ₁ cx τ₂ rfl hlast hpending hreturned
    have hended : p.s.ended = true := hsim'.ended (rung_run hp).2 hreturned
    obtain ⟨p₁, _, hrest⟩ := hp.split
    obtain ⟨p₂, hcall, hp₂⟩ := hrest.cons_inv
    obtain ⟨r, g, hpolling⟩ | ⟨_, hkept⟩ := since_run hcall hp₂ hlast
    · exact (hpolling.quiet hpending).elim
    · obtain hwoken | hdue := hkept hpending
      · exact hwoken
      · simp [hdue.ended] at hended
  · rintro τ₁ waker τ₂ rfl
    obtain ⟨p₁, hp₁, hrest⟩ := hp.split
    obtain ⟨p₂, htake, _⟩ := hrest.cons_inv
    have hlog := (wakerLedger_run hp₁).log
    have hwaker : p₁.memory.channel.waker = some waker := by
      cases htake.moves with
      | still hl => cases hl
      | sender _ _ hacts =>
        obtain ⟨env, hexec⟩ := hacts
        exact (Memory.exec_channel hexec).1
    rw [hwaker] at hlog
    exact hlog.last
  · rintro τ₁ l waker τ₂ rfl hwoken
    obtain ⟨p₁, hp₁, hrest⟩ := hp.split
    obtain ⟨p₂, hwake, _⟩ := hrest.cons_inv
    rw [(wakerLedger_run hp₁).taken]
    refine List.mem_append_right _ ?_
    cases hwake.moves with
    | still hl => simp [(Label.wakers_of_still hl).2.2] at hwoken
    | sender hmove =>
      generalize p₁.s = s at hmove
      generalize p₂.s = s' at hmove
      cases hmove <;> cases hwoken <;> exact List.mem_singleton_self _
    | receiver => cases hwoken

end Proto

/-- In every run of either kind of channel, the waker of the last poll is not forgotten,
    and the sender wakes no older one. -/
theorem latest_woken {σ₀ σ : System T} {τ : List (Label T)} (hinitial : σ₀.Initial)
    (hrun : Run System.Step σ₀ τ σ) : LatestWoken τ σ := by
  obtain ⟨token, rfl | rfl⟩ := hinitial
  · exact (Proto.simulates_channel token).latestWoken hrun
  · exact (Proto.simulates_async_channel token).latestWoken hrun

/-- A future that is polled twice, with a waker each, and woken by a send. -/
def System.repolled : List (Choice Nat) :=
  receives (.poll ⟨1⟩) 5 0 ++ receives (.poll ⟨2⟩) 7 0 ++ sends (.send 5) 6

theorem latest_woken_repolled :
    LatestWoken ((System.async_channel Nat fun _ => false).labels System.repolled)
        ((System.async_channel Nat fun _ => false).reached System.repolled) ∧
      Woken ⟨2⟩ (((System.async_channel Nat fun _ => false).labels System.repolled).drop 7) := by
  have hwoken := latest_woken ⟨_, .inr rfl⟩
    (@System.run_of_play Nat (System.async_channel Nat fun _ => false) System.repolled (by decide))
  have hpending : Label.pending ⟨2⟩ ∈
      ((System.async_channel Nat fun _ => false).labels System.repolled).drop 7 :=
    List.mem_iff_getElem?.mpr ⟨6, rfl⟩
  exact ⟨hwoken, hwoken.latest (((System.async_channel Nat fun _ => false).labels
    System.repolled).take 6) ⟨2⟩ _ rfl (by decide) hpending rfl⟩

end oneshot
