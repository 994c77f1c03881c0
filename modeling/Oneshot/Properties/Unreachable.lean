import Oneshot.Protocol.Refinement

open conc

namespace oneshot

variable {T : Type}

/-- The access reads the state byte. -/
def Access.reads : Access T → Bool
  | .load _ | .swap _ _ | .fetch_add _ _ | .fetch_xor _ _ | .compare_exchange _ _ _ _ => true
  | _ => false

/-- The state byte holds one of the five constants. -/
def Channel.Named (x : Channel T) : Prop :=
  x.state = EMPTY ∨ x.state = MESSAGE ∨ x.state = RECEIVING ∨ x.state = UNPARKING ∨
    x.state = DISCONNECTED

/-- The arithmetic on the state byte takes it from one state to the one that is
    meant: `send` from `EMPTY` to `MESSAGE`, the drop of the sender to
    `DISCONNECTED`, either from `RECEIVING` to `UNPARKING`, and what is left behind
    on a closed channel is `EMPTY`. -/
def Intended : (interface T).Action → Prop
  | ⟨.fetch_add val _, (v : UInt8)⟩ =>
    (v = EMPTY ∧ v + val = MESSAGE) ∨ (v = RECEIVING ∧ v + val = UNPARKING) ∨
      (v = DISCONNECTED ∧ v + val = EMPTY)
  | ⟨.fetch_xor val _, (v : UInt8)⟩ =>
    (v = EMPTY ∧ v ^^^ val = DISCONNECTED) ∨ (v = RECEIVING ∧ v ^^^ val = UNPARKING) ∨
      (v = DISCONNECTED ∧ v ^^^ val = EMPTY)
  | _ => True

namespace Label

def reads (l : Label T) : Bool := l.action.any fun α => α.access.reads

def Intended (l : Label T) : Prop := ∀ α, l.action = some α → oneshot.Intended α

/-- A `send` or the drop of the sender finds the channel closed. -/
def lost : Label T → Bool
  | .sender (.act ⟨.fetch_add _ _, v⟩) | .sender (.act ⟨.fetch_xor _ _, v⟩) =>
    (v : UInt8) = DISCONNECTED
  | _ => false

end Label

/-- What a run that has come to `σ` says of the `match`es on the state byte. -/
structure Unreachables (τ : List (Label T)) (σ : System T) : Prop where
  /-- Neither side is in an `unreachable!()` arm. -/
  sender : ∀ c, σ.sender ≠ .busy c .unreachable
  receiver : ∀ c, σ.receiver ≠ .busy c .unreachable
  named : σ.memory.channel.Named
  intended : ∀ l ∈ τ, l.Intended
  /-- The `EMPTY` that is left behind on a closed channel is not read. -/
  lost : ∀ τ₁ l τ₂, τ = τ₁ ++ l :: τ₂ → l.lost = true → ∀ l' ∈ τ₂, l'.reads = false

/-- Code that plays its part is in no `unreachable!()` arm. -/
theorem not_unreachable {E : Endpoint (interface T)} {C : Contract E} {st : E.State}
    {ss : C.Session} (htracks : Contract.Session.Tracks st ss) (c : E.Call) :
    st ≠ .busy c .unreachable := by
  rintro rfl
  cases htracks with
  | busy hfollows => exact hfollows

/-- Writing one of the constants leaves the byte named. -/
theorem Channel.Named.set {x : Channel T} {b : UInt8}
    (hb : b = EMPTY ∨ b = MESSAGE ∨ b = RECEIVING ∨ b = UNPARKING ∨ b = DISCONNECTED) :
    ({ x with state := b } : Channel T).Named := hb

namespace Sender

theorem Role.Move.intended {s s' : Role T} {α : (interface T).Action} (hmove : s.Move α s') :
    Intended α := by
  cases hmove with
  | send | drop => exact .inl ⟨rfl, rfl⟩
  | send_receiving | drop_receiving => exact .inr (.inl ⟨rfl, rfl⟩)
  | send_disconnected | drop_disconnected => exact .inr (.inr ⟨rfl, rfl⟩)
  | _ => trivial

theorem Role.Move.named {s s' : Role T} {x : Channel T} {α : (interface T).Action}
    (hmove : s.Move α s') (hx : x.Named) (hanswers : x.Answers α.access α.resp) :
    (x.update α.access).Named := by
  have hintended := hmove.intended
  cases hmove with
  | send | send_receiving | send_disconnected =>
    have hstate : x.state = _ := Eq.symm hanswers
    obtain ⟨_, h⟩ | ⟨_, h⟩ | ⟨_, h⟩ := hintended <;>
      simp [Channel.Named, Channel.update, hstate]
  | drop | drop_receiving | drop_disconnected =>
    have hstate : x.state = _ := Eq.symm hanswers
    obtain ⟨_, h⟩ | ⟨_, h⟩ | ⟨_, h⟩ := hintended <;>
      simp [Channel.Named, Channel.update, hstate]
  | finish o =>
    cases o with
    | none => exact .inr (.inr (.inr (.inr rfl)))
    | some message => exact .inr (.inl rfl)
  | _ => exact hx

/-- The sender has found the channel closed. -/
def Role.lost : Role T → Bool
  | .failed _ | .last _ | .freed _ => true
  | _ => false

theorem Role.Move.lost {s s' : Role T} {α : (interface T).Action} (hmove : s.Move α s')
    (hs : s.lost = true) : s'.lost = true ∧ α.access.reads = false := by
  cases hmove <;> first | exact ⟨rfl, rfl⟩ | cases hs

theorem Role.Move.lost_of_label {s s' : Role T} {α : (interface T).Action} (hmove : s.Move α s')
    (hα : (Label.sender (.act α)).lost = true) : s'.lost = true := by
  cases hmove <;> first | rfl | simp [Label.lost] at hα

end Sender

namespace Receiver

theorem Role.Move.intended {r r' : Role T} {α : (interface T).Action} (hmove : r.Move α r') :
    Intended α := by
  cases hmove <;> trivial

theorem Role.Move.named {r r' : Role T} {x : Channel T} {α : (interface T).Action} {c : Call}
    (hmove : r.Move α r') (hmakes : c.makes α.access = true) (hx : x.Named) :
    (x.update α.access).Named := by
  cases hmove with
  | own_store y val =>
    have hval : val = DISCONNECTED := by
      simp only [Call.makes, Bool.and_eq_true, decide_eq_true_eq] at hmakes
      exact hmakes.1
    exact .set (by simp [hval])
  | leave | close | publish | publish_late | expire | expire_unparking | expire_late | depart
  | depart_late | own_swap => exact .set (by simp)
  | exchange | exchange_late | retract | retract_unparking | retract_late =>
    simp only [Channel.update]
    split
    · exact .set (by simp)
    · exact hx
  | _ => exact hx

/-- A receiver that was dropped first makes no more accesses. -/
theorem Role.Agree.left_of_lost {r : Role T} {s : Sender.Role T} {x : Channel T}
    (hagree : r.Agree s x) (hs : s.lost = true) : r = .left := by
  cases s with
  | failed | last | freed =>
    cases r <;>
      simp_all [Agree, Sender.Role.Before, Sender.Role.Window, Sender.Role.Notified,
        Sender.Role.Finished, Sender.Role.published]
  | _ => cases hs

end Receiver

namespace Proto

/-- An access of the receiving side is one that its call makes. -/
theorem Step.makes {p p' : Proto T} {α : (interface T).Action}
    (hstep : Step p (.receiver (.act α)) p') : ∃ c : Receiver.Call, c.makes α.access = true := by
  obtain ⟨μ, ss, rs, hagree⟩ := p
  obtain ⟨μ', ss', rs', hagree'⟩ := p'
  cases hstep with
  | receiver hsession =>
    cases hsession with
    | @act c _ _ _ _ _ _ hon hmove htrack =>
      exact ⟨c, (Receiver.Progress.follow_of_advance htrack).1⟩

theorem Step.named {p p' : Proto T} {l : Label T} (hstep : Step p l p')
    (hnamed : p.memory.channel.Named) : p'.memory.channel.Named ∧ l.Intended := by
  cases hstep.moves with
  | still hl _ _ hchannel =>
    rw [hchannel]
    exact ⟨hnamed, fun α hα => by rw [hl] at hα; cases hα⟩
  | sender hmove _ hacts =>
    obtain ⟨env, hexec⟩ := hacts
    obtain ⟨hanswers, hupdate⟩ := Memory.exec_channel hexec
    rw [hupdate]
    refine ⟨hmove.named hnamed hanswers, ?_⟩
    rintro _ ⟨⟩
    exact hmove.intended
  | receiver hmove _ hacts =>
    obtain ⟨env, hexec⟩ := hacts
    obtain ⟨_, hupdate⟩ := Memory.exec_channel hexec
    obtain ⟨c, hmakes⟩ := hstep.makes
    rw [hupdate]
    refine ⟨hmove.named hmakes hnamed, ?_⟩
    rintro _ ⟨⟩
    exact hmove.intended

/-- Once the sender has found the channel closed, nobody reads the state. -/
theorem Step.lost {p p' : Proto T} {l : Label T} (hstep : Step p l p') (hs : p.s.lost = true) :
    p'.s.lost = true ∧ l.reads = false := by
  have hagree : Receiver.Role.Agree p.r p.s p.memory.channel := p.agree
  cases hstep.moves with
  | still hl hs' =>
    rw [hs']
    exact ⟨hs, by simp [Label.reads, hl]⟩
  | sender hmove =>
    obtain ⟨hs', hreads⟩ := hmove.lost hs
    exact ⟨hs', by simpa [Label.reads, Label.action] using hreads⟩
  | receiver hmove =>
    rw [hagree.left_of_lost hs] at hmove
    cases hmove

theorem Step.lost_of_label {p p' : Proto T} {l : Label T} (hstep : Step p l p')
    (hl : l.lost = true) : p'.s.lost = true := by
  cases hstep.moves with
  | still hnone =>
    cases l with
    | sender e => cases e <;> first | cases hl | cases hnone
    | _ => cases hl
  | sender hmove => exact hmove.lost_of_label hl
  | receiver => cases hl

theorem Simulates.unreachables {σ₀ σ : System T} {h : Receiver.Handle} {token : Thread → Bool}
    {τ : List (Label T)} (hsim : Simulates σ₀ (init h token)) (hrun : Run System.Step σ₀ τ σ) :
    Unreachables τ σ := by
  obtain ⟨p, hp, hsim'⟩ := hsim.run hrun
  have hinit : (init h token : Proto T).memory.channel.Named := .inl rfl
  obtain ⟨hnamed, hintended⟩ := hp.always (P := fun p => p.memory.channel.Named)
    (Q := Label.Intended) (fun _ _ _ hnamed hstep => hstep.named hnamed) hinit
  refine ⟨not_unreachable hsim'.sender, not_unreachable hsim'.receiver, ?_, hintended, ?_⟩
  · rw [← hsim'.memory]
    exact hnamed
  · rintro τ₁ l τ₂ rfl hl
    obtain ⟨p₁, _, hrest⟩ := hp.split
    obtain ⟨p₂, hlost, hp₂⟩ := hrest.cons_inv
    exact (hp₂.always (P := fun p => p.s.lost = true) (Q := fun l => l.reads = false)
      (fun _ _ _ hs hstep => hstep.lost hs) (hlost.lost_of_label hl)).2

end Proto

/-- No run of either kind of channel comes to an `unreachable!()` arm. -/
theorem unreachable_never {σ₀ σ : System T} {τ : List (Label T)} (hinitial : σ₀.Initial)
    (hrun : Run System.Step σ₀ τ σ) : Unreachables τ σ := by
  obtain ⟨token, rfl | rfl⟩ := hinitial
  · exact (Proto.simulates_channel token).unreachables hrun
  · exact (Proto.simulates_async_channel token).unreachables hrun

theorem unreachable_never_late_exit :
    Unreachables ((System.async_channel Nat fun _ => false).labels System.late_exit)
      ((System.async_channel Nat fun _ => false).reached System.late_exit) :=
  unreachable_never ⟨_, .inr rfl⟩ (System.run_of_play (by decide))

end oneshot
