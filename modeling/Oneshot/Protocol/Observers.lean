import Oneshot.Protocol.Keeps
import Oneshot.Protocol.Progress

open conc

namespace oneshot.Receiver

variable {T : Type}

/-- The code of a call plays the receiver's part of the protocol. -/
abbrev Plays {α : Type} (c : Call) (p : Code T α) (r : Role T) (g : Progress T)
    (Q : α → Role T → Progress T → Prop) : Prop :=
  Keeps Role.on Role.waits (Progress.advance c) p r g Q

/-- Code that begins with an access plays its part if the role has the access, and the
    rest does so after every answer. -/
theorem plays_access {α : Type} {c : Call} {a : Access T} {k : a.Resp → Code T α} {r : Role T}
    {g : Progress T} {f : a.Resp → Role T → Prop} {Q : α → Role T → Progress T → Prop}
    (hon : r.on a = some f)
    (hrest : ∀ v r', f v r' → ∃ g', Progress.advance c g ⟨a, v⟩ = some g' ∧
      Plays c (k v) r' g' Q) : Plays c (.access a k) r g Q :=
  ⟨f, hon, hrest⟩

/-- An observer settles on nothing when it looks at the state. -/
theorem Progress.advance_load {c : Call} (hc : c.observes = true) (order : MemOrder) (v : UInt8) :
    Progress.advance c (⟨none, none⟩ : Progress T) ⟨.load order, v⟩ = some ⟨none, none⟩ := by
  simp [Progress.advance, Progress.follow, point, loadPoint, Call.makes, hc]

/-- One look at the state, between two calls: a final state of the sender tells
    the receiver that the channel is its own. -/
theorem load_plays {c : Call} (hc : c.observes = true) {order : MemOrder} {h : Handle} {r : Role T}
    (hh : h ≠ .gone) (hr : Ready h r) :
    Plays c (state.load order) r ⟨none, none⟩ fun v r' g =>
      g.settled = none ∧ Ready h r' ∧ ∀ b, b = MESSAGE ∨ b = DISCONNECTED → v = b →
        ∃ x, r' = .own x ∧ x.state = b := by
  -- The looks of one role: what may be read, and the role after it.
  have look {f : UInt8 → Role T → Prop} (hon : r.on (.load order) = some f)
      (hsees : ∀ v r', f v r' → Ready h r' ∧
        ∀ b, b = MESSAGE ∨ b = DISCONNECTED → v = b → ∃ x, r' = .own x ∧ x.state = b) :
      Plays c (state.load order) r ⟨none, none⟩ fun v r' g =>
        g.settled = none ∧ Ready h r' ∧ ∀ b, b = MESSAGE ∨ b = DISCONNECTED → v = b →
          ∃ x, r' = .own x ∧ x.state = b := by
    refine ⟨f, hon, fun v r' hf => ?_⟩
    exact ⟨_, Progress.advance_load hc order v, rfl, hsees v r' hf⟩
  have hfinal {v : UInt8} {r' : Role T} (hv : final v (fun c => ⟨v, c, none, sees order, true⟩) r') :
      Ready h r' ∧ ∀ b, b = MESSAGE ∨ b = DISCONNECTED → v = b → ∃ x, r' = .own x ∧ x.state = b := by
    obtain ⟨rfl, rfl⟩ | ⟨rfl, rfl⟩ := hv
    all_goals cases h <;> simp_all [Owned.AtRest]
  cases r with
  | idle =>
    refine look rfl ?_
    rintro v r' (⟨rfl, rfl⟩ | hv)
    · exact ⟨hr, by simp⟩
    · exact hfinal hv
  | waiting waker =>
    cases waker with
    | Thread thread => cases h <;> cases hr
    | Task waker =>
      refine look rfl ?_
      rintro v r' (⟨rfl, rfl⟩ | ⟨rfl, rfl⟩ | hv)
      · exact ⟨hr, by simp⟩
      · exact ⟨by cases h <;> trivial, by simp⟩
      · exact hfinal hv
  | caught waker =>
    refine look rfl ?_
    rintro v r' (⟨rfl, rfl⟩ | hv)
    · exact ⟨hr, by simp⟩
    · exact hfinal hv
  | own x =>
    have hrest : x.AtRest := by cases h <;> simp_all
    have hstate : x.state = MESSAGE ∨ x.state = DISCONNECTED ∧ x.message.isFull = false :=
      hrest.2.imp (fun h => h.1) fun h => ⟨h.1, h.2.1⟩
    refine look (f := fun v r' => v = x.state ∧ r' = .own (x.read order)) ?_ ?_
    · simp [Role.on, Owned.on, hstate]
    · rintro v r' ⟨rfl, rfl⟩
      refine ⟨?_, fun b _ hb => ⟨_, rfl, hb⟩⟩
      cases h with
      | gone => exact (hh rfl).elim
      | _ => exact hrest.read order
  | _ => cases h <;> simp_all [Ready]

/-- An observer of either handle answers `true` only if the channel has come to
    the state it asks for. -/
theorem observer_plays {c : Call} (hc : c.observes = true) {order : MemOrder} {h : Handle}
    {r : Role T} (hh : h ≠ .gone) (hr : Ready h r) {b : UInt8} (hb : b = MESSAGE ∨ b = DISCONNECTED) :
    Plays c (do return (← state.load order) == b) r ⟨none, none⟩ fun answer r' g =>
      Ready h r' ∧ g.settled = none ∧ Observed answer b r' := by
  simp only [Program.bind_eq, keeps_bind, Program.pure_eq, keeps_ret]
  refine (load_plays hc hh hr).mono fun v r' _ h => ⟨h.2.1, h.1, fun hanswer => ?_⟩
  exact h.2.2 b hb (by simpa using hanswer)

end oneshot.Receiver
