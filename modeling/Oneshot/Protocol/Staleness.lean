import Oneshot.Weak

open conc

namespace oneshot

variable {T : Type}

namespace Receiver

/-- The values, from its own last write on, that a role may still find in place of a
    final state of the sender. -/
def Role.past : Role T → List UInt8
  | .idle | .armed _ | .expired _ | .expired_woken _ => [EMPTY]
  | .waiting _ | .woken _ => [RECEIVING, UNPARKING]
  | .caught _ => [UNPARKING]
  | .leaving _ => [DISCONNECTED]
  | _ => []

/-- What a role may see of the values written to the state byte: some of its past, and
    the sender's final state once that is written. -/
def Role.Visible (r : Role T) (s : Sender.Role T) (vs : List UInt8) : Prop :=
  match r with
  | .own y => vs = [y.state]
  | .quitting _ | .abandoned _ | .left | .released _ _ => True
  | r => vs.Sublist (r.past ++ (s.published.map Sender.final).toList)

/-- The receiver has seen the sender's final state, and owns what it left. -/
def Role.owns : Role T → Bool
  | .own _ | .released _ _ => true
  | _ => false

/-- The steps of a role that reads an old value. -/
inductive Role.Misses : Role T → (interface T).Action → Role T → Prop where
  | look (order : MemOrder) : Misses .idle ⟨.load order, EMPTY⟩ .idle
  | woken (waker : ReceiverWaker) (order : MemOrder) {v : UInt8}
      (hv : v = RECEIVING ∨ v = UNPARKING) : Misses (.woken waker) ⟨.load order, v⟩ (.waiting waker)
  | poll_receiving (cx : Waker) (order : MemOrder) :
      Misses (.waiting (.Task cx)) ⟨.load order, RECEIVING⟩ (.waiting (.Task cx))
  | poll_unparking (cx : Waker) (order : MemOrder) :
      Misses (.waiting (.Task cx)) ⟨.load order, UNPARKING⟩ (.caught (.Task cx))
  | retract (cx : Waker) :
      Misses (.waiting (.Task cx))
        ⟨.compare_exchange RECEIVING EMPTY .Relaxed .Relaxed, .error UNPARKING⟩ (.caught (.Task cx))
  | caught (waker : ReceiverWaker) (order : MemOrder) :
      Misses (.caught waker) ⟨.load order, UNPARKING⟩ (.caught waker)
  | expired (waker : ReceiverWaker) (order : MemOrder) :
      Misses (.expired_woken waker) ⟨.load order, EMPTY⟩ (.expired waker)
  | quit (waker : ReceiverWaker) (order : MemOrder) :
      Misses (.leaving waker) ⟨.load order, DISCONNECTED⟩ (.quitting waker)

section

variable {r r' : Role T} {s s' : Sender.Role T} {x x' : Channel T} {α : (interface T).Action}
  {a b f u : UInt8} {vs ws : List UInt8}

theorem sublist_pair (h : (u :: vs).Sublist [a, f]) (hvs : vs ≠ []) : u = a ∧ vs = [f] := by
  cases h with
  | cons _ h => exact (hvs (by simpa using h.length_le)).elim
  | cons_cons _ h => exact ⟨rfl, (List.sublist_singleton.mp h).resolve_left hvs⟩

section

attribute [local simp] Role.Agree Role.Visible Role.past Sender.Role.Before Sender.Role.Window
  Sender.Role.Notified Sender.Role.Finished Sender.Role.published Sender.Role.Failed

/-- The latest value can always be seen. -/
theorem Role.Agree.visible (hagree : r.Agree s x) : r.Visible s [x.state] := by
  obtain ⟨state, message, waker⟩ := x
  cases r <;> cases s <;> simp_all

/-- The sender's final state comes after all that was there to see. -/
theorem Role.Visible.final {o : Option T} (hvisible : r.Visible s vs) (hr : r.owns = false)
    (hs : s.published = none) (hs' : s'.published = some o) :
    r.Visible s' (vs ++ [Sender.final o]) := by
  cases r with
  | own | released => cases hr
  | quitting | abandoned | left => trivial
  | _ =>
    simp only [Visible, hs, Option.map_none, Option.toList_none, List.append_nil] at hvisible
    simpa only [Visible, hs', Option.map_some, Option.toList_some] using
      hvisible.append (List.Sublist.refl [Sender.final o])

/-- A receiver whose channel shows `RECEIVING` waits, and sees nothing else. -/
theorem Role.Visible.announce (hvisible : r.Visible s vs) (hagree : r.Agree s x)
    (hs : s.announced = false) (hs' : s'.published = none) (hstate : x.state = RECEIVING)
    (hlast : vs.getLast? = some RECEIVING) : r.Visible s' (vs ++ [UNPARKING]) := by
  obtain ⟨state, message, waker⟩ := x
  have hnone : s.published = none := by cases s <;> first | rfl | cases hs
  have hwaits (h : vs.Sublist [RECEIVING, UNPARKING]) :
      (vs ++ [UNPARKING]).Sublist [RECEIVING, UNPARKING] := by
    obtain ⟨vs', rfl⟩ := List.getLast?_eq_some_iff.mp hlast
    cases vs' with
    | nil => simp
    | cons u vs' =>
      obtain ⟨_, h⟩ := sublist_pair h (by simp)
      simp [List.append_eq_singleton_iff] at h
  cases r with
  | waiting | woken =>
    simp only [Visible, past, hnone, hs', Option.map_none, Option.toList_none,
      List.append_nil] at hvisible ⊢
    exact hwaits hvisible
  | own | released | left | quitting | abandoned => cases s <;> simp_all [Sender.Role.announced]
  | _ => cases s <;> simp_all [Sender.Role.announced]

/-- A receiver owns the channel only once the sender has written its final state. -/
theorem Role.Agree.unowned (hagree : r.Agree s x) (hs : s.published = none) : r.owns = false := by
  cases r with
  | own y =>
    obtain ⟨_, _, _, hpublished, _⟩ := hagree
    rw [hs] at hpublished
    cases hpublished
  | released content seen =>
    obtain ⟨_, _, _, hpublished, _⟩ := hagree
    rw [hs] at hpublished
    cases hpublished
  | _ => rfl

end

/-- What the receiver may see of the sender's writes. -/
theorem Role.Visible.sender (hvisible : r.Visible s vs) (hagree : r.Agree s x) (hmove : s.Move α s')
    (hanswers : x.Answers α.access α.resp) (hwrites : (syncOp true α).writes = true)
    (hlast : vs.getLast? = some x.state) :
    r.Visible s' (vs ++ [(x.update α.access).state]) := by
  cases hmove with
  | send message =>
    have hstate : EMPTY = x.state := hanswers
    simp only [Channel.update, ← hstate, fetch_add_transitions]
    exact hvisible.final (o := some message) (hagree.unowned rfl) rfl rfl
  | drop =>
    have hstate : EMPTY = x.state := hanswers
    simp only [Channel.update, ← hstate, fetch_xor_transitions]
    exact hvisible.final (o := none) (hagree.unowned rfl) rfl rfl
  | send_receiving message | drop_receiving =>
    have hstate : RECEIVING = x.state := hanswers
    simp only [Channel.update, ← hstate, fetch_add_transitions, fetch_xor_transitions]
    exact hvisible.announce hagree rfl rfl hstate.symm (hstate ▸ hlast)
  | send_disconnected message | drop_disconnected =>
    have hstate : DISCONNECTED = x.state := hanswers
    obtain ⟨state, message, waker⟩ := x
    cases r <;> simp_all [Agree, Sender.Role.Before, Sender.Role.Window, Sender.Role.Notified,
      Sender.Role.Finished, Sender.Role.published, Visible]
  | finish o waker v => exact hvisible.final (hagree.unowned rfl) rfl rfl
  | _ => cases hwrites

/-- Without an access to the byte the receiver sees what it saw. -/
theorem Role.Visible.still (hvisible : r.Visible s vs) (hmove : r.Move α r')
    (hreads : (syncOp true α).reads = false) (hwrites : (syncOp true α).writes = false) :
    r'.Visible s vs := by
  cases hmove with
  | release | abandon | quit_fence => trivial
  | store_waker | disarm | clock | clone | clock_waiting | park | park_timeout | caught_spin
  | wake_self | expired_park | leaving_spin | own_fence | own_clock | own_take | own_drop
  | own_drop_waker => exact hvisible
  | own_store => cases hwrites
  | _ => cases hreads

theorem Role.Visible.of_published (hvisible : r.Visible s vs) (hs : s'.published = s.published) :
    r.Visible s' vs := by
  cases r <;> simp_all [Visible]

theorem sublist_one {t : Option UInt8} (h : (u :: vs).Sublist ([a] ++ t.toList)) (hvs : vs ≠ []) :
    u = a ∧ ∃ f, t = some f ∧ vs = [f] := by
  cases t with
  | none => exact (hvs (by simpa using h.length_le)).elim
  | some f =>
    obtain ⟨hu, hf⟩ := sublist_pair h hvs
    exact ⟨hu, f, rfl, hf⟩

theorem sublist_two {t : Option UInt8} (h : (u :: vs).Sublist ([a, b] ++ t.toList)) (hvs : vs ≠ []) :
    u = a ∨ (u = b ∧ ∃ f, t = some f ∧ vs = [f]) := by
  cases h with
  | cons _ h => exact .inr (sublist_one h hvs)
  | cons_cons _ h => exact .inl rfl

/-- A waiting receiver that finds `UNPARKING` shares the channel with a sender that has
    announced itself. -/
theorem Role.Agree.catch {waker : ReceiverWaker} (hagree : (Role.waiting waker).Agree s x)
    (hs : s.published ≠ none) : (Role.caught waker).Agree s x := by
  obtain h | h := hagree
  · cases s <;> first | exact h.elim | exact (hs rfl).elim
  · exact h

theorem published_of_map {f : UInt8} (h : s.published.map Sender.final = some f) :
    s.published ≠ none := by
  rintro hnone
  rw [hnone] at h
  cases h

/-- A receiver that loads an old value goes on as if the sender had not moved. -/
theorem Role.Agree.miss_load {order : MemOrder} {f : UInt8 → Role T → Prop} (hagree : r.Agree s x)
    (hvisible : r.Visible s (u :: vs)) (hvs : vs ≠ []) (hon : r.on (.load order) = some f) :
    ∃ r', f u r' ∧ r.Misses ⟨.load order, u⟩ r' ∧ r'.Agree s x ∧
      ∀ ws, ws <:+ u :: vs → r'.Visible s ws := by
  have hsuffix {past : List UInt8} (h : (u :: vs).Sublist past) (ws : List UInt8)
      (hws : ws <:+ u :: vs) : ws.Sublist past := hws.sublist.trans h
  cases r with
  | idle =>
    cases hon
    obtain ⟨rfl, _⟩ := sublist_one hvisible hvs
    exact ⟨_, .inl ⟨rfl, rfl⟩, .look _, hagree, hsuffix hvisible⟩
  | waiting waker =>
    cases waker with
    | Thread current => cases hon
    | Task cx =>
      cases hon
      obtain rfl | ⟨rfl, f, hf, rfl⟩ := sublist_two hvisible hvs
      · exact ⟨_, .inl ⟨rfl, rfl⟩, .poll_receiving cx _, hagree, hsuffix hvisible⟩
      · refine ⟨_, .inr (.inl ⟨rfl, rfl⟩), .poll_unparking cx _, hagree.catch (published_of_map hf), ?_⟩
        refine hsuffix (show List.Sublist _ ([UNPARKING] ++ _) from ?_)
        rw [hf]
        exact List.Sublist.refl _
  | woken waker =>
    cases hon
    have hu : u = RECEIVING ∨ u = UNPARKING := (sublist_two hvisible hvs).imp id (·.1)
    exact ⟨_, .inl ⟨hu, rfl⟩, .woken waker _ hu, hagree, hsuffix hvisible⟩
  | caught waker =>
    cases hon
    obtain ⟨rfl, _⟩ := sublist_one hvisible hvs
    exact ⟨_, .inl ⟨rfl, rfl⟩, .caught waker _, hagree, hsuffix hvisible⟩
  | expired_woken waker =>
    cases hon
    obtain ⟨rfl, _⟩ := sublist_one hvisible hvs
    exact ⟨_, .inl ⟨rfl, rfl⟩, .expired waker _, hagree, hsuffix hvisible⟩
  | leaving waker =>
    cases hon
    obtain ⟨rfl, _⟩ := sublist_one hvisible hvs
    exact ⟨_, .inl ⟨rfl, rfl⟩, .quit waker _, hagree, fun _ _ => trivial⟩
  | own y => exact (hvs (List.cons.inj hvisible).2).elim
  | _ => cases hon

/-- And so does one whose compare-exchange fails on an old value. -/
theorem Role.Agree.miss_exchange {current new : UInt8} {success failure : MemOrder}
    {f : Except UInt8 UInt8 → Role T → Prop} (hagree : r.Agree s x)
    (hvisible : r.Visible s (u :: vs)) (hvs : vs ≠ [])
    (hon : r.on (.compare_exchange current new success failure) = some f) (hu : u ≠ current) :
    ∃ r', f (.error u) r' ∧
      r.Misses ⟨.compare_exchange current new success failure, .error u⟩ r' ∧ r'.Agree s x ∧
      ∀ ws, ws <:+ u :: vs → r'.Visible s ws := by
  cases r with
  | armed waker =>
    obtain ⟨⟨rfl, rfl, rfl, rfl⟩, ⟨⟩⟩ := Option.ite_none_right_eq_some.mp hon
    exact (hu (sublist_one hvisible hvs).1).elim
  | waiting waker =>
    cases waker with
    | Thread thread => cases hon
    | Task cx =>
      obtain ⟨⟨rfl, rfl, rfl, rfl⟩, ⟨⟩⟩ := Option.ite_none_right_eq_some.mp hon
      obtain ⟨rfl, f, hf, rfl⟩ := (sublist_two hvisible hvs).resolve_left hu
      refine ⟨_, .inr (.inl ⟨rfl, rfl⟩), .retract cx, hagree.catch (published_of_map hf), ?_⟩
      intro ws hws
      refine hws.sublist.trans (show List.Sublist _ ([UNPARKING] ++ _) from ?_)
      rw [hf]
      exact List.Sublist.refl _
  | own y => exact (hvs (List.cons.inj hvisible).2).elim
  | _ => cases hon

/-- Only a receiver that owns the channel stores. -/
theorem Role.on_store {a : Access T} {v : a.Resp} {f : a.Resp → Role T → Prop} {order : MemOrder}
    (hon : r.on a = some f) (hstore : syncOp true ⟨a, v⟩ = .store order) : ∃ y, r = .own y := by
  cases a with
  | store =>
    cases r with
    | own y => exact ⟨y, rfl⟩
    | waiting waker => cases waker <;> cases hon
    | _ => cases hon
  | compare_exchange | park | park_timeout => cases v <;> cases hstore
  | _ => cases hstore

end

end Receiver

namespace Sender

/-- The sender writes the byte only before its final state, and by read-modify-writes. -/
theorem Role.on_writes {s : Role T} {a : Access T} {v : a.Resp} {f : a.Resp → Role T → Prop}
    (hon : s.on a = some f) (hwrites : (syncOp true ⟨a, v⟩).writes = true) :
    s.published = none ∧ ∀ order, syncOp true (T := T) ⟨a, v⟩ ≠ .store order := by
  cases s with
  | fresh =>
    cases a with
    | fetch_xor => exact ⟨rfl, fun order => by simp [syncOp]⟩
    | load | write_message => cases hwrites
    | _ => cases hon
  | wrote message =>
    cases a with
    | fetch_add => exact ⟨rfl, fun order => by simp [syncOp]⟩
    | _ => cases hon
  | taken message waker =>
    cases a with
    | swap => exact ⟨rfl, fun order => by simp [syncOp]⟩
    | _ => cases hon
  | unparking message =>
    cases a with
    | take_waker => cases hwrites
    | _ => cases hon
  | notify message waker =>
    cases a with
    | unpark | wake => cases hwrites
    | _ => cases hon
  | failed message =>
    cases a with
    | take_message | drop_message => cases hwrites
    | _ => cases hon
  | last content =>
    cases a with
    | dealloc => cases hwrites
    | _ => cases hon
  | finished | freed => cases a <;> cases hon

/-- Without a write the sender publishes nothing. -/
theorem Role.Move.published_of_read {s s' : Role T} {α : (interface T).Action} (hmove : s.Move α s')
    (hwrites : (syncOp true α).writes = false) : s'.published = s.published := by
  cases hmove with
  | send | send_receiving | send_disconnected | drop | drop_receiving | drop_disconnected
  | finish => cases hwrites
  | _ => rfl

end Sender

/-- A receiver that does not own the channel has not stored to it. -/
theorem Receiver.Role.Move.unowned {r r' : Role T} {α : (interface T).Action} (hmove : r.Move α r')
    (hr' : r'.owns = false) : r.owns = false ∧ ∀ order, syncOp true α ≠ .store order := by
  cases hmove with
  | own_load | own_store | own_swap | own_fence | own_clock | own_take | own_drop | own_drop_waker
  | release => cases hr'
  | park current v | park_timeout current timeout v | expired_park current v =>
    refine ⟨rfl, fun order => ?_⟩
    cases v <;> simp [syncOp]
  | look | close | publish_late | exchange_late | expire_late | woken | poll_late | retract_late
  | caught | depart_late | expired | receive_late => cases hr'
  | _ => exact ⟨rfl, fun order => by simp [syncOp]⟩

/-- A channel as the protocol sees it, with the history of its byte. -/
structure WeakProto (T : Type) where
  proto : Proto T
  history : History Side Thread UInt8

/-- A step in which a side reads an old value of the byte. -/
inductive Proto.Missed (p : Proto T) : Label T → Proto T → Prop where
  | sender {p' : Proto T} (order : MemOrder) (v : UInt8)
      (hsession : Contract.Session.Step p.sender (.act ⟨.load order, v⟩) p'.sender)
      (hmemory : p'.memory = p.memory) (hreceiver : p'.receiver = p.receiver) :
      Missed p (.sender (.act ⟨.load order, v⟩)) p'
  | receiver {p' : Proto T} {α : (interface T).Action}
      (hsession : Contract.Session.Step p.receiver (.act α) p'.receiver)
      (hmisses : p.r.Misses α p'.r) (hmemory : p'.memory = p.memory)
      (hsender : p'.sender = p.sender) : Missed p (.receiver (.act α)) p'

/-! A side that misses a write keeps its part in the protocol. -/

/-- An old value is read by a load, in a step that the receiver's role has. -/
theorem Receiver.Role.Misses.move {r r' : Role T} {α : (interface T).Action}
    (hmisses : r.Misses α r') : r.Move α r' := by
  cases hmisses with
  | look order => exact .look_empty order
  | woken waker order hv => exact .woken_again waker order hv
  | poll_receiving cx order => exact .poll_receiving cx order
  | poll_unparking cx order => exact .poll_unparking cx order
  | retract cx => exact .retract_unparking cx
  | caught waker order => exact .caught_again waker order
  | expired waker order => exact .expired_again waker order
  | quit waker order => exact .quit waker order

theorem Receiver.Role.Misses.load {r r' : Role T} {α : (interface T).Action}
    (hmisses : r.Misses α r') (parking : Bool) : ∃ order, syncOp parking α = .load order := by
  cases hmisses <;> exact ⟨_, rfl⟩

theorem Proto.Missed.cases {p p' : Proto T} {l : Label T} (hmissed : p.Missed l p') :
    p'.memory = p.memory ∧ p'.s = p.s ∧
      ((p.s = .fresh ∧ p'.r = p.r ∧ ∃ order v, l = .sender (.act ⟨.load order, v⟩)) ∨
        ∃ α, l = .receiver (.act α) ∧ p.r.Misses α p'.r) := by
  cases hmissed with
  | sender order v hsession hmemory hreceiver =>
    have hr : p'.r = p.r := by rw [Proto.r, hreceiver]; rfl
    have hmove : p.s.Move ⟨.load order, v⟩ p'.s := by
      obtain ⟨μ, ss, rs, _⟩ := p
      obtain ⟨μ', ss', rs', _⟩ := p'
      cases hsession with
      | act hon hmove => exact Sender.Role.move_of_on hon hmove
    generalize p.s = s at hmove
    generalize p'.s = s' at hmove
    cases hmove
    exact ⟨hmemory, rfl, .inl ⟨rfl, hr, order, v, rfl⟩⟩
  | @receiver _ α hsession hmisses hmemory hsender =>
    exact ⟨hmemory, by rw [Proto.s, hsender]; rfl, .inr ⟨α, rfl, hmisses⟩⟩

namespace WeakProto

/-- A step is one of the protocol, which finds the latest value and leaves it, or it misses
    what was written. -/
inductive Step : WeakProto T → Label T → WeakProto T → Prop where
  | prompt {q q' : WeakProto T} {l : Label T} {side : Side} {o : SyncOp Thread}
      (hstep : Proto.Step q.proto l q'.proto) (hl : l.sync true = some (side, o))
      (hfresh : q.history.Fresh side o q.proto.memory.channel.state
        q'.proto.memory.channel.state q'.history) : Step q l q'
  | stray {q q' : WeakProto T} (thread : Thread)
      (hstep : Proto.Step q.proto (.stray thread) q'.proto)
      (hhistory : q'.history = q.history.tick) : Step q (.stray thread) q'
  | missed {q q' : WeakProto T} {l : Label T} {side : Side} {order : MemOrder} {u : UInt8}
      (hmissed : Proto.Missed q.proto l q'.proto) (hl : l.sync true = some (side, .load order))
      (hstale : q.history.Stale side (.load order) u u q'.history) : Step q l q'

/-- The code of both sides plays its part, and what the receiver may still find in the
    history of the byte fits its role. -/
structure Renders (σ : WeakSystem T) (q : WeakProto T) : Prop where
  simulates : Proto.Simulates σ.strong q.proto
  history : q.history = σ.memory.history
  latest : q.history.latest = some q.proto.memory.channel.state
  chain : q.proto.r.owns = false → q.history.Chain
  visible : ∀ vs, q.history.Sees .receiver vs → q.proto.r.Visible q.proto.s vs

/-- A step that finds the latest value is one of the protocol. -/
theorem Renders.prompt {σ σ' : WeakSystem T} {q : WeakProto T} {l : Label T} {side : Side}
    {o : SyncOp Thread} (h : Renders σ q) (hstrong : System.Step σ.strong l σ'.strong)
    (hl : l.sync true = some (side, o))
    (hfresh : σ.memory.history.Fresh side o σ.memory.memory.channel.state
      σ'.memory.memory.channel.state σ'.memory.history) :
    ∃ q', Step q l q' ∧ Renders σ' q' := by
  obtain ⟨p, H⟩ := q
  obtain ⟨hsim, rfl, hlatest, hchain, hvisible⟩ := h
  obtain ⟨p', hstep, hsim'⟩ := hsim.step hstrong
  have hagree : Receiver.Role.Agree p.r p.s p.memory.channel := p.agree
  have hagree' : Receiver.Role.Agree p'.r p'.s p'.memory.channel := p'.agree
  have hmemory : p.memory = σ.memory.memory := hsim.memory
  have hmemory' : p'.memory = σ'.memory.memory := hsim'.memory
  have hfresh' : σ.memory.history.Fresh side o p.memory.channel.state p'.memory.channel.state
      σ'.memory.history := by
    rw [hmemory, hmemory']
    exact hfresh
  refine ⟨⟨p', σ'.memory.history⟩, .prompt hstep hl hfresh', hsim', rfl, ?_, ?_, ?_⟩
  · rw [hmemory']
    exact hfresh.left
  · intro hr'
    cases hstep.moves with
    | still hnone hs hr =>
      obtain h | ⟨_, h⟩ := sync_of_still true hnone <;> rw [hl] at h <;> cases h
      exact hfresh.chain (by simp) (hchain (hr ▸ hr'))
    | sender hmove hr =>
      cases hl
      exact hfresh.chain (hmove.releases true).2.2.1 (hchain (hr ▸ hr'))
    | receiver hmove hs =>
      cases hl
      obtain ⟨hr, hstore⟩ := hmove.unowned hr'
      exact hfresh.chain hstore (hchain hr)
  · intro vs hsees
    cases hstep.moves with
    | still hnone hs hr =>
      obtain h | ⟨_, h⟩ := sync_of_still true hnone <;> rw [hl] at h <;> cases h
      rw [hs, hr]
      exact hvisible vs (hfresh.kept rfl _ vs hsees)
    | @sender α _ hmove hr hacts =>
      cases hl
      obtain ⟨env, hexec⟩ := hacts
      obtain ⟨hanswers, hupdate⟩ := Memory.exec_channel hexec
      cases hwrites : (syncOp true α).writes with
      | false =>
        have hold := hvisible vs (hfresh.kept hwrites _ vs hsees)
        rw [hr]
        exact hold.of_published (hmove.published_of_read hwrites)
      | true =>
        obtain rfl | ⟨vs', hsees', rfl⟩ := hfresh.extended hwrites _ vs hsees
        · rw [← hmemory']
          exact hagree'.visible
        · rw [← hmemory', hupdate, hr]
          have hlast := hsees'.last.trans hlatest
          exact (hvisible vs' hsees').sender hagree hmove hanswers hwrites hlast
    | @receiver α _ hmove hs =>
      cases hl
      by_cases hbyte : (syncOp true α).reads = true ∨ (syncOp true α).writes = true
      · rw [hfresh.own hbyte vs hsees, ← hmemory']
        exact hagree'.visible
      · simp only [not_or, Bool.not_eq_true] at hbyte
        rw [hs]
        exact (hvisible vs (hfresh.kept hbyte.2 _ vs hsees)).still hmove hbyte.1 hbyte.2

theorem Renders.found {σ : WeakSystem T} {q : WeakProto T} (h : Renders σ q) :
    σ.memory.history.latest = some σ.memory.memory.channel.state := by
  have hmemory : q.proto.memory = σ.memory.memory := h.simulates.memory
  rw [← h.history, ← hmemory]
  exact h.latest

section

variable {μ : Memory T} {H : History Side Thread UInt8} {s : (oneshot.sender T).State}
  {r : (oneshot.receiver T).State} {q : WeakProto T}

/-- A sender that writes the byte finds all writes before it in one chain. -/
theorem Renders.sender_known (h : Renders ⟨⟨μ, H⟩, s, r⟩ q) {a : Access T} {v : a.Resp}
    (hnext : s.next = some a) (hwrites : (syncOp true ⟨a, v⟩).writes = true) :
    H.Informed .sender ∨ (H.Chain ∧ ∀ order, syncOp true (T := T) ⟨a, v⟩ ≠ .store order) := by
  obtain ⟨p, _⟩ := q
  obtain ⟨hsim, rfl, _, hchain, _⟩ := h
  obtain ⟨f, hon⟩ := hsim.sender.on_next hnext
  obtain ⟨hs, hstore⟩ := Sender.Role.on_writes (s := p.s) hon hwrites
  have hagree : Receiver.Role.Agree p.r p.s p.memory.channel := p.agree
  exact .inr ⟨hchain (hagree.unowned hs), hstore⟩

/-- So does a receiver, unless it owns the channel and knows the latest value. -/
theorem Renders.receiver_known (h : Renders ⟨⟨μ, H⟩, s, r⟩ q) {a : Access T} {v : a.Resp}
    (hnext : r.next = some a) :
    H.Informed .receiver ∨ (H.Chain ∧ ∀ order, syncOp true (T := T) ⟨a, v⟩ ≠ .store order) := by
  obtain ⟨p, _⟩ := q
  obtain ⟨hsim, rfl, _, hchain, hvisible⟩ := h
  obtain ⟨f, hon⟩ := hsim.receiver.on_next hnext
  replace hon : p.r.on a = some f := hon
  by_cases hown : ∃ y, p.r = .own y
  · obtain ⟨y, hr⟩ := hown
    refine .inl fun vs hsees => ⟨y.state, ?_⟩
    have hvs := hvisible vs hsees
    simp only [hr] at hvs
    exact hvs
  · refine .inr ⟨hchain ?_, fun order hstore => hown (Receiver.Role.on_store hon hstore)⟩
    simp only
    cases hr : p.r with
    | own y => exact (hown ⟨y, hr⟩).elim
    | released => rw [hr] at hon; cases hon
    | _ => rfl

end

/-- Every step of a channel finds the latest value of the byte, or one that was
    overwritten since. -/
theorem Renders.finds {σ σ' : WeakSystem T} {q : WeakProto T} {l : Label T} (h : Renders σ q)
    (hstep : WeakSystem.Step σ l σ') : WeakSystem.Finds σ l σ' := by
  obtain ⟨⟨μ, H⟩, s, r⟩ := σ
  have hpass (side : Side) := WeakMemory.pass_fresh (M := ⟨μ, H⟩) side h.found
  cases hstep with
  | stray thread => exact .none thread
  | @sender e s' M' hstep =>
    cases hstep with
    | call haccepts => exact .latest (.sender (.call haccepts)) rfl (hpass .sender)
    | enter => exact .latest (.sender .enter) rfl (hpass .sender)
    | ret => exact .latest (.sender .ret) rfl (hpass .sender)
    | act hacts =>
      obtain ⟨hstrong, hfresh⟩ | ⟨order, u, hmemory, hsync, hstale, hreads⟩ :=
        hacts.fresh_or_stale h.found fun hwrites => h.sender_known rfl hwrites
      · exact .latest (.sender (.act hstrong)) rfl hfresh
      · obtain ⟨μ', H'⟩ := M'
        obtain rfl : μ' = μ := hmemory
        exact .sender (fun ν hν => .act (hreads ν hν)) hsync hstale
  | @receiver e r' M' hstep =>
    cases hstep with
    | call haccepts => exact .latest (.receiver (.call haccepts)) rfl (hpass .receiver)
    | enter => exact .latest (.receiver .enter) rfl (hpass .receiver)
    | ret => exact .latest (.receiver .ret) rfl (hpass .receiver)
    | act hacts =>
      obtain ⟨hstrong, hfresh⟩ | ⟨order, u, hmemory, hsync, hstale, hreads⟩ :=
        hacts.fresh_or_stale h.found fun _ => h.receiver_known rfl
      · exact .latest (.receiver (.act hstrong)) rfl hfresh
      · obtain ⟨μ', H'⟩ := M'
        obtain rfl : μ' = μ := hmemory
        exact .receiver (fun ν hν => .act (hreads ν hν)) hsync hstale

/-- What an access that finds `u` in the byte is. -/
theorem acts_finds {μ : Memory T} {α : (interface T).Action} {order : MemOrder} {u : UInt8}
    (hsync : syncOp true α = .load order) (hacts : (μ.setState u).Acts α (μ.setState u)) :
    α = ⟨.load order, u⟩ ∨ ∃ current new success, u ≠ current ∧
      α = ⟨.compare_exchange current new success order, .error u⟩ := by
  obtain ⟨a, v⟩ := α
  obtain ⟨env, hexec⟩ := hacts
  cases a with
  | load order' =>
    cases hexec; cases hsync
    exact .inl rfl
  | compare_exchange current new success failure =>
    simp only [Memory.exec] at hexec
    split at hexec
    · cases hexec; cases hsync
    · cases hexec; cases hsync
      exact .inr ⟨_, _, _, ‹_›, rfl⟩
  | park thread | park_timeout thread timeout => cases v <;> cases hsync
  | _ => cases hsync

section

variable {μ : Memory T} {H H' : History Side Thread UInt8} {s s' : (oneshot.sender T).State}
  {r r' : (oneshot.receiver T).State} {q : WeakProto T} {α : (interface T).Action}
  {order : MemOrder} {u : UInt8}

/-- A sender that looks at an old value. -/
theorem Renders.sender_missed (h : Renders ⟨⟨μ, H⟩, s, r⟩ q)
    (hstep : ∀ ν, ν.channel.state = u → (oneshot.sender T).Step Memory.Acts s ν (.act α) s' ν)
    (hsync : syncOp true α = .load order) (hstale : H.Stale .sender (.load order) u u H') :
    ∃ q', Step q (.sender (.act α)) q' ∧ Renders ⟨⟨μ, H'⟩, s', r⟩ q' := by
  obtain ⟨⟨μ, ss, rs, hagree⟩, _⟩ := q
  obtain ⟨⟨rfl, hs, hr⟩, rfl, hlatest, hchain, hvisible⟩ := h
  obtain ⟨ss', hsession, htracks, hsame⟩ := hs.step (hstep (μ.setState u) rfl)
    (P := fun s' => s' = ss.role ∧ ∃ v, α = ⟨.load order, v⟩)
    (by
      rintro _ f ⟨⟩ hon hacts
      generalize ss.role = s at hon
      obtain rfl | ⟨current, new, success, _, rfl⟩ := acts_finds hsync hacts
      · cases s with
        | fresh =>
          cases hon
          exact ⟨_, rfl, rfl, u, rfl⟩
        | _ => cases hon
      · cases s <;> cases hon)
    (fun hno => (hno α rfl).elim)
  obtain ⟨hsame, v, rfl⟩ := hsame
  refine ⟨⟨⟨μ, ss', rs, hsame ▸ hagree⟩, H'⟩, .missed (.sender order v hsession rfl rfl) rfl hstale,
    ⟨rfl, htracks, hr⟩, rfl, ?_, ?_, ?_⟩
  · exact hstale.latest.trans hlatest
  · exact fun hr' => hstale.chain (hchain hr')
  · intro vs hsees
    have hold := hvisible vs (hstale.kept _ vs hsees)
    simp only [Proto.s, Proto.r, hsame] at hold ⊢
    exact hold

/-- A receiver that reads an old value. -/
theorem Renders.receiver_missed (h : Renders ⟨⟨μ, H⟩, s, r⟩ q)
    (hstep : ∀ ν, ν.channel.state = u → (oneshot.receiver T).Step Memory.Acts r ν (.act α) r' ν)
    (hsync : syncOp true α = .load order) (hstale : H.Stale .receiver (.load order) u u H') :
    ∃ q', Step q (.receiver (.act α)) q' ∧ Renders ⟨⟨μ, H'⟩, s, r'⟩ q' := by
  obtain ⟨⟨μ, ss, rs, hagree⟩, _⟩ := q
  obtain ⟨⟨rfl, hs, hr⟩, rfl, hlatest, hchain, hvisible⟩ := h
  obtain ⟨vs, hvs, hsees, hsuffix⟩ := hstale.found
  have hold := hvisible _ hsees
  obtain ⟨rs', hsession, htracks, hmisses, hagree', hnew⟩ := hr.step (hstep (μ.setState u) rfl)
    (P := fun r' => Receiver.Role.Misses rs.role α r' ∧
      Receiver.Role.Agree r' ss.role μ.channel ∧ ∀ ws, ws <:+ u :: vs → r'.Visible ss.role ws)
    (by
      rintro _ f ⟨⟩ hon hacts
      obtain rfl | ⟨current, new, success, hu, rfl⟩ := acts_finds hsync hacts
      · exact Receiver.Role.Agree.miss_load hagree hold hvs hon
      · exact Receiver.Role.Agree.miss_exchange hagree hold hvs hon hu)
    (fun hno => (hno α rfl).elim)
  have hl : (Label.receiver (.act α)).sync true = some (Side.receiver, .load order) := by
    rw [Label.sync, hsync]
  refine ⟨⟨⟨μ, ss, rs', hagree'⟩, H'⟩, .missed (.receiver hsession hmisses rfl rfl) hl hstale,
    ⟨rfl, hs, htracks⟩, rfl, ?_, ?_, ?_⟩
  · exact hstale.latest.trans hlatest
  · intro _
    refine hstale.chain (hchain ?_)
    generalize rs'.role = r₂ at hmisses
    simp only [Proto.r]
    generalize rs.role = r₁ at hmisses
    cases hmisses <;> rfl
  · exact fun ws hws => hnew ws (hsuffix ws hws)

end

/-- Every step of the channel on a weakly ordered machine is one of the protocol, or
    misses what was written. -/
theorem Renders.step {σ σ' : WeakSystem T} {q : WeakProto T} {l : Label T} (h : Renders σ q)
    (hfinds : WeakSystem.Finds σ l σ') : ∃ q', Step q l q' ∧ Renders σ' q' := by
  cases hfinds with
  | latest hstrong hl hfresh => exact h.prompt hstrong hl hfresh
  | sender hstep hsync hstale => exact h.sender_missed hstep hsync hstale
  | receiver hstep hsync hstale => exact h.receiver_missed hstep hsync hstale
  | none thread =>
    obtain ⟨p, H⟩ := q
    obtain ⟨hsim, rfl, hlatest, hchain, hvisible⟩ := h
    obtain ⟨p', hstep, hsim'⟩ := hsim.step (.stray thread)
    have hmemory : p'.memory.channel = p.memory.channel ∧ p'.s = p.s ∧ p'.r = p.r := by
      cases hstep.moves with
      | still _ hs hr hchannel => exact ⟨hchannel, hs, hr⟩
    obtain ⟨hchannel, hs, hr⟩ := hmemory
    refine ⟨⟨p', σ.memory.history.tick⟩, .stray thread hstep rfl, hsim', rfl, ?_, ?_, ?_⟩
    · rw [hchannel]
      exact hlatest
    · exact fun hr' => hchain (hr ▸ hr')
    · intro vs hsees
      rw [hs, hr]
      exact hvisible vs (hsees.mono (Finset.Subset.refl _) (History.marked_refl _))

/-- Where a channel starts. -/
noncomputable def init (h : Receiver.Handle) (token : Thread → Bool) : WeakProto T :=
  ⟨.init h token, History.start EMPTY⟩

theorem renders_init {σ : System T} {h : Receiver.Handle} {token : Thread → Bool}
    (hsim : Proto.Simulates σ (.init h token)) :
    Renders (WeakSystem.ofSystem σ) (init h token) := by
  have hmemory : (Proto.init h token : Proto T).memory = σ.memory := hsim.memory
  have hstate : σ.memory.channel.state = EMPTY := by
    rw [← hmemory]
    rfl
  refine ⟨hsim, by rw [WeakSystem.ofSystem, hstate]; rfl, rfl, ?_, ?_⟩
  · rintro _ e ⟨⟩
  · rintro vs ⟨e, es, hsuffix, _, rfl⟩
    obtain heq | hnil := List.suffix_cons_iff.mp hsuffix
    · cases heq
      exact List.Sublist.refl _
    · cases List.suffix_nil.mp hnil

theorem exists_init {σ : WeakSystem T} (hinitial : σ.Initial) :
    ∃ h token, Renders σ (init h token) := by
  obtain ⟨σ, hσ, rfl⟩ := hinitial
  obtain ⟨h, token, hsim⟩ := Proto.simulates_initial hσ
  exact ⟨h, token, renders_init hsim⟩

theorem Renders.run {σ₀ σ : WeakSystem T} {q₀ : WeakProto T} {τ : List (Label T)}
    (h : Renders σ₀ q₀) (hrun : Run WeakSystem.Step σ₀ τ σ) :
    ∃ q, Run Step q₀ τ q ∧ Renders σ q := by
  have hstep (σ : WeakSystem T) (q : WeakProto T) (l : Label T) (σ' : WeakSystem T)
      (h : Renders σ q) (hstep : WeakSystem.Step σ l σ') :
      ∃ q', Step q l q' ∧ Renders σ' q' :=
    h.step (h.finds hstep)
  exact hrun.simulation h hstep

end WeakProto

end oneshot
