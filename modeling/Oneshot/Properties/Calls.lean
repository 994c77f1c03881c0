import Oneshot.Conc.Trace
import Oneshot.Properties.Promptness
import Oneshot.Properties.HappensBefore
import Oneshot.Properties.Standing

open conc

namespace oneshot

variable {T : Type}

namespace Label

/-- The access of the receiver that a step is, if it is one. -/
def received : Label T → Option (interface T).Action
  | .receiver (.act α) => some α
  | _ => none

theorem received_eq {l : Label T} {α : (interface T).Action} (hl : l.received = some α) :
    l = .receiver (.act α) := by
  unfold received at hl
  split at hl <;> cases hl
  rfl

/-- The sender announces itself, with its `fetch_add` or `fetch_xor`. -/
def announces : Label T → Bool
  | .sender (.act ⟨.fetch_add _ _, _⟩) | .sender (.act ⟨.fetch_xor _ _, _⟩) => true
  | _ => false

/-- The sender writes its final state. -/
def finishes : Label T → Bool
  | .sender (.act ⟨.fetch_add _ _, v⟩) | .sender (.act ⟨.fetch_xor _ _, v⟩) => (v : UInt8) = EMPTY
  | .sender (.act ⟨.swap _ _, _⟩) => true
  | _ => false

end Label

namespace Receiver

/-- The methods that may return the message. -/
def Call.receives : Call → Bool
  | .try_recv | .recv _ | .recv_ref _ | .recv_timeout _ _ | .recv_deadline _ _ | .poll _ => true
  | _ => false

/-- The destructors. -/
def Call.destroys : Call → Bool
  | .drop | .async_drop => true
  | _ => false

/-- The methods that ask whether the channel is closed, or has a message. -/
def Call.asksClosed : Call → Bool
  | .is_closed | .async_is_closed => true
  | _ => false

def Call.asksMessage : Call → Bool
  | .has_message | .async_has_message => true
  | _ => false

end Receiver

namespace System

/-- A receiver in a call goes on with it until it returns. -/
theorem has_run {σ σ' : System T} {τ : List (Label T)} {c : Receiver.Call}
    {acts : List (interface T).Action} (hrun : Run Step σ τ σ') (hhas : σ.receiver.Has c acts)
    (hτ : ∀ l ∈ τ, l.returns = false) :
    σ'.receiver.Has c (acts ++ τ.filterMap Label.received) := by
  induction hrun with
  | nil => simpa using hhas
  | @snoc τ σ₁ σ₂ l _ hstep ih =>
    have hhas₁ := ih fun l hl => hτ l (List.mem_append_left _ hl)
    have hl : l.returns = false := hτ l (List.mem_append_right _ (List.mem_singleton_self l))
    rw [filterMap_snoc, ← List.append_assoc]
    cases hstep with
    | sender | stray => simpa [Label.received] using hhas₁
    | @receiver e _ _ hstep =>
      have he : e.returns = false := by cases e <;> first | rfl | cases hl
      have hreceived : (Label.receiver e : Label T).received = e.action := by cases e <;> rfl
      rw [hreceived]
      exact hstep.has hhas₁ he

/-- From its call to its return the receiver executes the code of the call. -/
theorem call_trace {σ₀ σ : System T} {τ₁ τ₂ τ₃ : List (Label T)} {c c' : Receiver.Call}
    {v : Receiver.Ret T}
    (hrun : Run Step σ₀ (τ₁ ++ .receiver (.call c) :: τ₂ ++ .receiver (.ret c' v) :: τ₃) σ)
    (hτ₂ : ∀ l ∈ τ₂, l.returns = false) :
    c' = c ∧ ((oneshot.receiver T).code c).Trace (τ₂.filterMap Label.received) v := by
  obtain ⟨σ₁, hfirst, hrest⟩ := hrun.split
  obtain ⟨σ₂, hret, _⟩ := hrest.cons_inv
  obtain ⟨σ₃, _, hcall⟩ := hfirst.split
  obtain ⟨σ₄, hcall, hduring⟩ := hcall.cons_inv
  have hhas : σ₄.receiver.Has c [] := by
    cases hcall with
    | receiver hstep => exact hstep.has_call
  have hhas₁ := has_run hduring hhas hτ₂
  cases hret with
  | receiver hstep => exact hstep.trace hhas₁

end System

namespace Receiver

/-- The receiver has still to learn, or to take, what the sender has left it: a message
    or the news that there is none. -/
def Role.awaits (o : Option T) (r : Role T) : Prop :=
  r.apart = true ∨ (∃ x, r = .own x ∧ x.message.isFull = o.isSome) ∨
    (o = none ∧ ∃ content seen, r = .released content seen)

/-- There is nothing for the receiver to take any more. -/
def Role.spent (r : Role T) : Prop :=
  (∃ x, r = .own x ∧ x.message.isFull = false) ∨ ∃ content seen, r = .released content seen

/-- What a call comes to that finds what the sender has left. -/
def found : Option T → Outcome T
  | some message => .message message
  | none => .disconnected

variable {c : Call} {r r' : Role T} {s : Sender.Role T} {x : Channel T} {g g' : Progress T}
  {α : (interface T).Action} {o : Option T}

/-- What the sender has left stays there until a call takes it. -/
theorem awaits_move (hmove : r.Move α r') (hagree : r.Agree s x)
    (hanswers : x.Answers α.access α.resp) (hs : s.published = some o) (hr : r.awaits o)
    (hnone : point c α = none) (hdrop : α ≠ ⟨.drop_message, ()⟩) : r'.awaits o := by
  have hfinal {v : UInt8} {content : Content T} (hv : Final v content) (happart : r.apart = true)
      (hstate : x.state = v) : content.isFull = o.isSome := by
    rw [hagree.final happart hs] at hstate
    cases o <;> cases hv <;> first | rfl | simp [Sender.final] at hstate
  cases hmove with
  | look order hv | woken waker order hv | poll_late cx order hv | caught waker order hv
  | expired waker order hv | publish_late waker hv | expire_late current hv =>
    exact .inr (.inl ⟨_, rfl, hfinal hv rfl (Eq.symm hanswers)⟩)
  | exchange_late waker hv | retract_late cx hv =>
    exact .inr (.inl ⟨_, rfl, hfinal hv rfl (Channel.answers_error hanswers)⟩)
  | leave | close | depart | depart_late | own_swap => simp [point, swapPoint] at hnone
  | own_take => cases hnone
  | own_drop => exact (hdrop rfl).elim
  | own_load y | own_store y | own_fence y | own_clock y | own_drop_waker y =>
    obtain h | ⟨_, h, hfull⟩ | ⟨_, _, _, h⟩ := hr
    · cases h
    · cases h
      exact .inr (.inl ⟨_, rfl, hfull⟩)
    · cases h
  | release y hwaker hfull =>
    obtain h | ⟨_, h, hfull'⟩ | ⟨_, _, _, h⟩ := hr
    · cases h
    · cases h
      rw [hfull] at hfull'
      exact .inr (.inr ⟨by simpa using hfull'.symm, _, _, rfl⟩)
    · cases h
  | leaving_spin | quit | receive_late | quit_fence | abandon =>
    obtain h | ⟨_, h, _⟩ | ⟨_, _, _, h⟩ := hr
    · cases h
    · cases h
    · cases h
  | _ => exact .inl rfl

/-- A call other than a destructor comes to nothing but what the sender has left. -/
theorem awaits_point (hmove : r.Move α r') (hagree : r.Agree s x)
    (hanswers : x.Answers α.access α.resp) (hs : s.published = some o) (hr : r.awaits o)
    {outcome : Outcome T} (hpoint : point c α = some outcome) (ho : outcome ≠ .dropped) :
    outcome = found o := by
  cases outcome with
  | «open» =>
    obtain ⟨hapart, hmessage, hdisconnected⟩ := open_of_point hmove hpoint hanswers
    rw [hagree.final hapart hs] at hmessage hdisconnected
    cases o with
    | none => exact (hdisconnected rfl).elim
    | some m => exact (hmessage rfl).elim
  | disconnected =>
    cases o with
    | none => rfl
    | some m =>
      obtain ⟨hstate, hapart | ⟨waker, rfl⟩ | ⟨y, rfl, hfull⟩⟩ :=
        disconnected_of_point hmove hpoint hanswers
      · rw [hagree.final hapart hs] at hstate
        simp at hstate
      · obtain h | ⟨_, h, _⟩ | ⟨_, _, _, h⟩ := hr <;> cases h
      · obtain h | ⟨_, h, hfull'⟩ | ⟨_, _, _, h⟩ := hr
        · cases h
        · cases h
          rw [hfull] at hfull'
          cases hfull'
        · cases h
  | dropped => exact (ho rfl).elim
  | message message =>
    obtain rfl := point_message hpoint
    cases hmove with
    | own_take y _ hfull =>
      obtain ⟨_, _, sent, hsent, hmatches⟩ := hagree
      rw [hs] at hsent
      cases hsent
      obtain ⟨m, rfl, hcell⟩ := hmatches.full hfull
      rw [show x.message = some message from hanswers] at hcell
      cases hcell
      rfl

/-- A receiver with nothing to take makes nothing of it, and a call finds the channel
    closed. -/
theorem spent_move (hmove : r.Move α r') (hr : r.spent) : r'.spent := by
  cases hmove with
  | own_load y | own_store y | own_swap y | own_fence y | own_clock y | own_drop_waker y =>
    obtain ⟨_, h, hfull⟩ | ⟨_, _, h⟩ := hr
    · cases h
      exact .inl ⟨_, rfl, hfull⟩
    · cases h
  | own_take | own_drop => exact .inl ⟨_, rfl, rfl⟩
  | release => exact .inr ⟨_, _, rfl⟩
  | _ => obtain ⟨_, h, _⟩ | ⟨_, _, h⟩ := hr <;> cases h

theorem spent_point (hmove : r.Move α r') (hanswers : x.Answers α.access α.resp) (hr : r.spent)
    {o : Outcome T} (hpoint : point c α = some o) : o = .disconnected ∨ o = .dropped := by
  cases o with
  | «open» =>
    obtain ⟨hapart, _⟩ := open_of_point hmove hpoint hanswers
    obtain ⟨_, rfl, _⟩ | ⟨_, _, rfl⟩ := hr <;> cases hapart
  | message message =>
    obtain rfl := point_message hpoint
    cases hmove with
    | own_take y _ hfull =>
      obtain ⟨_, h, hfull'⟩ | ⟨_, _, h⟩ := hr
      · cases h
        rw [hfull] at hfull'
        cases hfull'
      · cases h
  | disconnected => exact .inl rfl
  | dropped => exact .inr rfl

/-- A receive call settles on an outcome before it returns. -/
theorem Post.settles {v : Ret T} (hpost : Post c v r g) (hc : c.receives = true) :
    ∃ o, g.settled = some o ∧ outcome c v = some o := by
  have hsettled := hpost.settled
  obtain ⟨_, hpost⟩ := hpost
  cases c <;> cases hc
  case poll cx =>
    cases v with
    | poll result =>
      cases result with
      | Pending => exact ⟨_, hpost.1, rfl⟩
      | Ready value =>
        obtain ⟨o, ho, hg⟩ := hpost
        exact ⟨o, hg, ho⟩
    | _ => obtain ⟨o, ho, _⟩ := hpost; cases ho
  case recv current =>
    cases v with
    | recv result => exact ⟨_, hpost.2, rfl⟩
    | _ => obtain ⟨o, ho, _⟩ := hpost; cases ho
  all_goals
    obtain ⟨o, ho, hg⟩ := hpost
    exact ⟨o, hg, ho⟩

theorem Call.destroys_of_allows (hallows : c.allows (.dropped : Outcome T) = true) :
    c.destroys = true := by
  cases c <;> first | rfl | cases hallows

theorem Call.not_receives_of_destroys (hc : c.destroys = true) : c.receives = false := by
  cases c <;> first | rfl | cases hc

theorem after_destroys {v : Ret T} (hc : c.destroys = true) : (receiver T).after c v = .gone := by
  cases c <;> first | rfl | cases hc

/-- What the sender has left is there to be found, and the call in progress has not
    settled on anything else. A receiver that is dropped is out of it. -/
def Due (o : Option T) : (Receiver.contract T).Session → Prop
  | .between h r => h = .gone ∨ Role.awaits o r
  | .during c r g => Call.destroys c = true ∨ (Progress.settled g = none ∧ Role.awaits o r) ∨
      Progress.settled g = some (found o)

/-- There is nothing to be taken, and the call in progress has settled on nothing
    else. -/
def Over : (Receiver.contract T).Session → Prop
  | .between h r => h = .gone ∨ Role.spent r
  | .during _ r g => Role.spent r ∧
      ∀ o, Progress.settled g = some o → o = .disconnected ∨ o = .dropped

end Receiver

namespace Receiver

/-- Only a receive call returns with an outcome, unless the receiver is dropped. -/
theorem receives_of_outcome {c : Call} {v : Ret T} {o : Outcome T} (houtcome : outcome c v = some o) :
    (c.receives = true ∧ o ≠ .dropped) ∨ (c.destroys = true ∧ o = .dropped) := by
  unfold outcome at houtcome
  split at houtcome
  case h_1 result | h_5 result | h_4 result =>
    refine .inl ⟨rfl, ?_⟩
    cases houtcome
    obtain ⟨⟨⟩⟩ | _ := result <;> rintro ⟨⟩
  case h_2 result | h_3 result =>
    refine .inl ⟨rfl, ?_⟩
    cases houtcome
    cases result <;> rintro ⟨⟩
  case h_6 result =>
    refine .inl ⟨rfl, ?_⟩
    cases houtcome
    obtain (_ | _) | _ := result <;> rintro ⟨⟩
  case h_7 | h_8 =>
    cases houtcome
    exact .inr ⟨rfl, rfl⟩
  case h_9 => cases houtcome

/-- An access of a receiver that has still to find what the sender has left makes its
    call settle on that, if it settles it. -/
theorem awaits_act {c : Call} {r r' : Role T} {s : Sender.Role T} {x : Channel T}
    {g g' : Progress T} {α : (interface T).Action} {o : Option T} (hmove : r.Move α r')
    (htrack : Progress.advance c g α = some g') (hagree : r.Agree s x)
    (hanswers : x.Answers α.access α.resp) (hs : s.published = some o) (hr : r.awaits o)
    (hg : g.settled ≠ some .dropped) :
    (g'.settled = g.settled ∧ r'.awaits o) ∨ c.destroys = true ∨ g'.settled = some (found o) := by
  obtain ⟨hpoint, hsame⟩ | ⟨outcome, hpoint, hallows, _, hafter⟩ :=
    Progress.advance_settled htrack
  · refine .inl ⟨hsame, awaits_move hmove hagree hanswers hs hr hpoint ?_⟩
    rintro rfl
    exact hg (Progress.dropped_of_drop htrack)
  · by_cases ho : outcome = .dropped
    · subst ho
      exact .inr (.inl (Call.destroys_of_allows hallows))
    · obtain rfl := awaits_point hmove hagree hanswers hs hr hpoint ho
      exact .inr (.inr hafter)

/-- A call that has settled stays settled. -/
theorem Progress.advance_settles {c : Call} {g g' : Progress T} {α : (interface T).Action}
    {o : Outcome T} (htrack : Progress.advance c g α = some g') (hg : g.settled = some o) :
    g'.settled = some o := by
  obtain ⟨_, hsame⟩ | ⟨_, _, _, hbefore, _⟩ := Progress.advance_settled htrack
  · exact hsame.trans hg
  · rw [hg] at hbefore
    cases hbefore

/-- A call settles as the state of the channel has it. -/
theorem due_act {c : Call} {r r' : Role T} {s : Sender.Role T} {x : Channel T}
    {g g' : Progress T} {α : (interface T).Action} {o : Option T} (hmove : r.Move α r')
    (htrack : Progress.advance c g α = some g') (hagree : r.Agree s x)
    (hanswers : x.Answers α.access α.resp) (hs : s.published = some o)
    (hdue : Due o (.during c r g)) : Due o (.during c r' g') := by
  obtain hc | ⟨hnone, hr⟩ | hsettled := hdue
  · exact .inl hc
  · have hg : g.settled ≠ some .dropped := by rw [hnone]; rintro ⟨⟩
    obtain ⟨hsame, hr'⟩ | hc | hafter := awaits_act hmove htrack hagree hanswers hs hr hg
    · exact .inr (.inl ⟨hsame.trans hnone, hr'⟩)
    · exact .inl hc
    · exact .inr (.inr hafter)
  · exact .inr (.inr (Progress.advance_settles htrack hsettled))

theorem over_act {c : Call} {r r' : Role T} {x : Channel T} {g g' : Progress T}
    {α : (interface T).Action} (hmove : r.Move α r') (htrack : Progress.advance c g α = some g')
    (hanswers : x.Answers α.access α.resp) (hover : Over (.during c r g)) :
    Over (.during c r' g') := by
  obtain ⟨hr, hsettled⟩ := hover
  refine ⟨spent_move hmove hr, fun o ho => ?_⟩
  obtain ⟨_, hsame⟩ | ⟨o', hpoint, _, _, hafter⟩ := Progress.advance_settled htrack
  · exact hsettled o (hsame.symm.trans ho)
  · obtain rfl : o' = o := Option.some.inj (hafter.symm.trans ho)
    exact spent_point hmove hanswers hr hpoint

/-- What a call that has returned leaves to be found. -/
theorem due_ret {c : Call} {v : Ret T} {r : Role T} {g : Progress T} {o : Option T}
    (hpost : Post c v r g) (hdue : Due o (.during c r g)) :
    (c.receives = true → outcome c v = some (found o)) ∧
      (c.receives = false → Due o (.between ((receiver T).after c v) r)) := by
  refine ⟨fun hc => ?_, fun hc => ?_⟩
  · obtain ⟨o', hsettled, houtcome⟩ := hpost.settles hc
    obtain h | ⟨hnone, _⟩ | hleft := hdue
    · rw [Call.not_receives_of_destroys h] at hc
      cases hc
    · rw [hnone] at hsettled
      cases hsettled
    · rw [houtcome, ← hsettled, hleft]
  · obtain h | ⟨_, hr⟩ | hleft := hdue
    · exact .inl (after_destroys h)
    · exact .inr hr
    · obtain ⟨hreceives, _⟩ | ⟨_, h⟩ := receives_of_outcome (hpost.settled.symm.trans hleft)
      · rw [hc] at hreceives
        cases hreceives
      · cases o <;> cases h

theorem over_ret {c : Call} {v : Ret T} {r : Role T} {g : Progress T} (hpost : Post c v r g)
    (hover : Over (.during c r g)) :
    (c.receives = true → outcome c v = some .disconnected) ∧
      Over (.between ((receiver T).after c v) r) := by
  obtain ⟨hr, hsettled⟩ := hover
  refine ⟨fun hc => ?_, .inr hr⟩
  obtain ⟨o, ho, houtcome⟩ := hpost.settles hc
  obtain rfl | rfl := hsettled o ho
  · exact houtcome
  · obtain ⟨_, hne⟩ | ⟨hdestroys, _⟩ := receives_of_outcome houtcome
    · exact (hne rfl).elim
    · rw [Call.not_receives_of_destroys hdestroys] at hc
      cases hc

end Receiver

namespace Proto

variable {p p' : Proto T} {l : Label T} {o : Option T}

/-- What the sender has left is what the next receive call that returns comes to. -/
theorem due_step (hstep : Step p l p') (hs : p.s.published = some o)
    (hdue : Receiver.Due o p.receiver) :
    (∀ c v, l = .receiver (.ret c v) → c.receives = true →
        Receiver.outcome c v = some (Receiver.found o)) ∧
      ((∀ c v, l = .receiver (.ret c v) → c.receives = false) → Receiver.Due o p'.receiver) := by
  obtain ⟨μ, ss, rs, hagree⟩ := p
  obtain ⟨μ', ss', rs', hagree'⟩ := p'
  cases hstep with
  | sender _ _ hreceiver | stray _ _ _ hreceiver =>
    cases hreceiver
    exact ⟨by rintro _ _ ⟨⟩, fun _ => hdue⟩
  | @receiver _ e hsession hmemory =>
    cases hsession with
    | @call h c r haccepts hready =>
      refine ⟨by rintro _ _ ⟨⟩, fun _ => ?_⟩
      obtain rfl | hr := hdue
      · cases c <;> cases haccepts
      · exact .inr (.inl ⟨rfl, hr⟩)
    | @act c r r' g g' α f hon hmove htrack =>
      obtain ⟨env, hexec⟩ := hmemory
      refine ⟨by rintro _ _ ⟨⟩, fun _ => ?_⟩
      exact Receiver.due_act (Receiver.Role.move_of_on hon hmove) htrack hagree
        (Memory.exec_channel hexec).1 hs hdue
    | enter => exact ⟨by rintro _ _ ⟨⟩, fun _ => hdue⟩
    | @ret c v r g hpost =>
      obtain ⟨hreceives, hother⟩ := Receiver.due_ret hpost hdue
      refine ⟨?_, fun h => hother (h c v rfl)⟩
      rintro _ _ ⟨⟩ hc
      exact hreceives hc

/-- Once there is nothing to be taken, every receive call that returns finds the channel
    closed. -/
theorem over_step (hstep : Step p l p') (hover : Receiver.Over p.receiver) :
    Receiver.Over p'.receiver ∧ ∀ c v, l = .receiver (.ret c v) → c.receives = true →
      Receiver.outcome c v = some .disconnected := by
  obtain ⟨μ, ss, rs, hagree⟩ := p
  obtain ⟨μ', ss', rs', hagree'⟩ := p'
  cases hstep with
  | sender _ _ hreceiver | stray _ _ _ hreceiver =>
    cases hreceiver
    exact ⟨hover, by rintro _ _ ⟨⟩⟩
  | @receiver _ e hsession hmemory =>
    cases hsession with
    | @call h c r haccepts hready =>
      refine ⟨?_, by rintro _ _ ⟨⟩⟩
      obtain rfl | hr := hover
      · cases c <;> cases haccepts
      · exact ⟨hr, by rintro _ ⟨⟩⟩
    | @act c r r' g g' α f hon hmove htrack =>
      obtain ⟨env, hexec⟩ := hmemory
      refine ⟨?_, by rintro _ _ ⟨⟩⟩
      exact Receiver.over_act (Receiver.Role.move_of_on hon hmove) htrack
        (Memory.exec_channel hexec).1 hover
    | enter => exact ⟨hover, by rintro _ _ ⟨⟩⟩
    | @ret c v r g hpost =>
      obtain ⟨hreceives, hafter⟩ := Receiver.over_ret hpost hover
      refine ⟨hafter, ?_⟩
      rintro _ _ ⟨⟩ hc
      exact hreceives hc

/-- The first receive call that returns comes to what the sender has left. -/
theorem due_return {τ₁ τ₂ : List (Label T)} {c : Receiver.Call} {v : Receiver.Ret T}
    (hrun : Run Step p (τ₁ ++ .receiver (.ret c v) :: τ₂) p') (hs : p.s.published = some o)
    (hdue : Receiver.Due o p.receiver)
    (hτ₁ : ∀ l ∈ τ₁, ∀ c v, l = .receiver (.ret c v) → c.receives = false)
    (hc : c.receives = true) : Receiver.outcome c v = some (Receiver.found o) := by
  obtain ⟨p₁, hfirst, hrest⟩ := hrun.split
  obtain ⟨p₂, hret, _⟩ := hrest.cons_inv
  have hkept : p₁.s.published = some o ∧ Receiver.Due o p₁.receiver :=
    (hfirst.attach hτ₁).keeps (P := fun p => p.s.published = some o ∧ Receiver.Due o p.receiver)
      (fun _ _ _ h hstep => ⟨hstep.1.published h.1, (due_step hstep.1 h.1 h.2).2 hstep.2⟩)
      ⟨hs, hdue⟩
  exact (due_step hret hkept.1 hkept.2).1 c v rfl hc

end Proto

/-! What a run shows of the two sides. -/

namespace Sender

theorem Role.Move.announces {s s' : Role T} {α : (interface T).Action} (hmove : s.Move α s') :
    s'.announced = (s.announced || (Label.sender (.act α)).announces) := by
  cases hmove <;> rfl

theorem Role.Move.finishes {s s' : Role T} {α : (interface T).Action} (hmove : s.Move α s') :
    s'.published.isSome = (s.published.isSome || (Label.sender (.act α)).finishes) := by
  cases hmove <;> rfl

end Sender

namespace Receiver

/-- The message was not dropped, unless by a destructor. -/
def Spared : (Receiver.contract T).Session → Prop
  | .between h r => h = .gone ∨ Role.fates r ≠ [.dropped]
  | .during c r g => Call.destroys c = true ∨
      (Role.fates r ≠ [.dropped] ∧ Progress.settled g ≠ some .dropped)

theorem spared_step {ss ss' : (Receiver.contract T).Session} {e : (receiver T).Event}
    (hstep : Contract.Session.Step ss e ss') (hspared : Spared ss) : Spared ss' := by
  cases hstep with
  | @call h c r haccepts hready =>
    obtain rfl | hr := hspared
    · cases c <;> cases haccepts
    · exact .inr ⟨hr, by rintro ⟨⟩⟩
  | @act c r r' g g' α f hon hmove htrack =>
    obtain hc | ⟨hr, hg⟩ := hspared
    · exact .inl hc
    · have hsettled : Call.destroys c = true ∨ g'.settled ≠ some .dropped := by
        obtain ⟨_, hsame⟩ | ⟨o, _, hallows, _, hafter⟩ := Progress.advance_settled htrack
        · rw [hsame]
          exact .inr hg
        · by_cases ho : o = .dropped
          · subst ho
            exact .inl (Call.destroys_of_allows hallows)
          · rw [hafter]
            exact .inr fun h => ho (Option.some.inj h)
      refine hsettled.imp id fun hg' => ⟨?_, hg'⟩
      obtain ⟨a, v⟩ := α
      obtain ⟨m, _, _, hr'⟩ | ⟨hα, _, _⟩ | ⟨_, hr'⟩ := (Role.move_of_on hon hmove).fates
      · rw [hr']
        simp
      · rw [hα] at htrack
        exact (hg (Progress.dropped_of_drop htrack)).elim
      · rw [hr']
        exact hr
  | enter => exact hspared
  | @ret c v r g hpost =>
    obtain hc | ⟨hr, _⟩ := hspared
    · exact .inl (after_destroys hc)
    · exact .inr hr

/-- A receiver that is dropped before the sender announces itself has swapped
    `DISCONNECTED` in. -/
theorem Role.Move.left {c : Call} {r r' : Role T} {α : (interface T).Action} (hmove : r.Move α r')
    (hr' : r' = .left) : point c α = some .dropped := by
  cases hmove with
  | leave => simp [point, swapPoint]
  | _ => cases hr'

/-- A receiver is dropped only by a destructor, which was called. -/
def Called (τ : List (Label T)) : (Receiver.contract T).Session → Prop
  | .between _ r => r = .left → ∃ c, Call.destroys c = true ∧ .receiver (.call c) ∈ τ
  | .during c r _ => .receiver (.call c) ∈ τ ∧
      (r = .left → ∃ c, Call.destroys c = true ∧ .receiver (.call c) ∈ τ)

theorem called_step {ss ss' : (Receiver.contract T).Session} {e : (receiver T).Event}
    {τ : List (Label T)} (hstep : Contract.Session.Step ss e ss') (hcalled : Called τ ss) :
    Called (τ ++ [.receiver e]) ss' := by
  have hmore {l : Label T} (hl : l ∈ τ) : l ∈ τ ++ [.receiver e] := List.mem_append_left _ hl
  cases hstep with
  | @call h c r haccepts hready =>
    refine ⟨List.mem_append_right _ (List.mem_singleton_self _), fun hr => ?_⟩
    obtain ⟨c', hc', hmem⟩ := hcalled hr
    exact ⟨c', hc', hmore hmem⟩
  | @act c r r' g g' α f hon hmove htrack =>
    obtain ⟨hc, hleft⟩ := hcalled
    refine ⟨hmore hc, fun hr' => ⟨c, ?_, hmore hc⟩⟩
    have hmove := Role.move_of_on hon hmove
    have hpoint : point c α = some .dropped := hmove.left hr'
    obtain ⟨hnone, _⟩ | ⟨o, hsome, hallows, _⟩ := Progress.advance_settled htrack
    · rw [hpoint] at hnone
      cases hnone
    · obtain rfl : Outcome.dropped = o := Option.some.inj (hpoint.symm.trans hsome)
      exact Call.destroys_of_allows hallows
  | enter =>
    obtain ⟨hc, hleft⟩ := hcalled
    refine ⟨hmore hc, fun hr => ?_⟩
    obtain ⟨c', hc', hmem⟩ := hleft hr
    exact ⟨c', hc', hmore hmem⟩
  | ret =>
    intro hr
    obtain ⟨c', hc', hmem⟩ := hcalled.2 hr
    exact ⟨c', hc', hmore hmem⟩

theorem called_of_left {τ : List (Label T)} {rs : (Receiver.contract T).Session}
    (hcalled : Called τ rs) (hr : rs.role = .left) :
    ∃ c : Call, c.destroys = true ∧ .receiver (.call c) ∈ τ := by
  cases rs with
  | between h r => exact hcalled hr
  | during c r g => exact hcalled.2 hr

end Receiver

namespace Proto

variable {p p' : Proto T} {l : Label T} {τ : List (Label T)} {h : Receiver.Handle}
  {token : Thread → Bool}

/-- What a run shows of where the sender is, and of what the receiver has done. -/
structure Shown (τ : List (Label T)) (p : Proto T) : Prop where
  announced : p.s.announced = true ↔ ∃ l ∈ τ, l.announces = true
  published : p.s.published.isSome = true ↔ ∃ l ∈ τ, l.finishes = true
  spared : Receiver.Spared p.receiver
  called : Receiver.Called τ p.receiver

/-- What a step shows of the sender is what it makes of the sender's role. -/
theorem Step.shows (hstep : Step p l p') :
    p'.s.announced = (p.s.announced || l.announces) ∧
      p'.s.published.isSome = (p.s.published.isSome || l.finishes) := by
  cases hstep.moves with
  | still hl hs =>
    rw [hs]
    cases l with
    | sender e =>
      cases e with
      | act α => cases hl
      | _ => simp [Label.announces, Label.finishes]
    | _ => simp [Label.announces, Label.finishes]
  | sender hmove => exact ⟨hmove.announces, hmove.finishes⟩
  | receiver _ hs => rw [hs]; simp [Label.announces, Label.finishes]

theorem Step.spared (hstep : Step p l p') (hspared : Receiver.Spared p.receiver) :
    Receiver.Spared p'.receiver := by
  cases hstep with
  | sender _ _ hreceiver | stray _ _ _ hreceiver =>
    rw [hreceiver]
    exact hspared
  | receiver hsession => exact Receiver.spared_step hsession hspared

theorem Shown.step (hshown : Shown τ p) (hstep : Step p l p') : Shown (τ ++ [l]) p' := by
  have hmem (Q : Label T → Bool) :
      (∃ l' ∈ τ ++ [l], Q l' = true) ↔ (∃ l' ∈ τ, Q l' = true) ∨ Q l = true := by
    simp [or_and_right, exists_or]
  have hmore {rs : (Receiver.contract T).Session} (hcalled : Receiver.Called τ rs) :
      Receiver.Called (τ ++ [l]) rs := by
    cases rs with
    | between h r =>
      intro hr
      obtain ⟨c, hc, hmem⟩ := hcalled hr
      exact ⟨c, hc, List.mem_append_left _ hmem⟩
    | during c r g =>
      obtain ⟨hc, hleft⟩ := hcalled
      refine ⟨List.mem_append_left _ hc, fun hr => ?_⟩
      obtain ⟨c, hc, hmem⟩ := hleft hr
      exact ⟨c, hc, List.mem_append_left _ hmem⟩
  obtain ⟨hannounced, hpublished⟩ := hstep.shows
  refine ⟨?_, ?_, hstep.spared hshown.spared, ?_⟩
  · rw [hannounced, Bool.or_eq_true, hmem, hshown.announced]
  · rw [hpublished, Bool.or_eq_true, hmem, hshown.published]
  · cases hstep with
    | sender _ _ hreceiver | stray _ _ _ hreceiver =>
      rw [hreceiver]
      exact hmore hshown.called
    | receiver hsession => exact Receiver.called_step hsession hshown.called

theorem shown_run (hrun : Run Step (init h token) τ p) : Shown τ p := by
  have hinit : Shown [] (init h token : Proto T) := by
    refine ⟨?_, ?_, .inr (by simp [Receiver.Role.fates, Receiver.Role.content, Content.fates]), ?_⟩
    · exact ⟨by rintro ⟨⟩, by rintro ⟨_, h, _⟩; cases h⟩
    · exact ⟨by rintro ⟨⟩, by rintro ⟨_, h, _⟩; cases h⟩
    · rintro ⟨⟩
  exact hrun.invariant (P := Shown) hinit fun _ _ _ _ _ h hstep => h.step hstep

/-- Between two calls a receiver that has not told of the message, and was not dropped, has
    still to find what the sender has left. -/
theorem awaits_of_told {h : Receiver.Handle} {r : Receiver.Role T} {o : Option T}
    (hspared : Receiver.Spared p.receiver) (hbetween : p.receiver = .between h r) (hh : h ≠ .gone)
    (hready : Receiver.Ready h r) (hs : p.s.published = some o)
    (htold : ∀ m, Fate.received m ∉ Receiver.told p.receiver) : r.awaits o := by
  have hagree : Receiver.Role.Agree p.r p.s p.memory.channel := p.agree
  obtain rfl : p.r = r := by rw [Proto.r, hbetween]; rfl
  cases hr : p.r with
  | own x =>
    rw [hr] at hagree
    obtain ⟨_, _, sent, hsent, hmatches⟩ := hagree
    obtain rfl : sent = o := Option.some.inj (hsent.symm.trans hs)
    refine .inr (.inl ⟨x, rfl, ?_⟩)
    cases hx : x.message with
    | absent =>
      rw [hx] at hmatches
      rw [hmatches.1]
      rfl
    | full =>
      rw [hx] at hmatches
      exact hmatches.1.symm
    | taken m =>
      rw [hbetween] at htold
      have hmem : Fate.received m ∈ Receiver.Role.fates p.r := by
        rw [hr, Receiver.Role.fates, Receiver.Role.content, hx]
        exact List.mem_singleton_self _
      exact (htold m hmem).elim
    | dropped =>
      rw [hbetween] at hspared
      obtain h | hne := hspared
      · exact (hh h).elim
      · rw [hr, Receiver.Role.fates, Receiver.Role.content, hx] at hne
        exact (hne rfl).elim
  | idle | armed | waiting | woken | caught | expired | expired_woken => exact .inl rfl
  | _ => rw [hr] at hready; cases h <;> first | exact hready.elim | exact (hh rfl).elim

/-- Only an access of the receiver changes its role. -/
theorem Step.role_of_quiet (hstep : Step p l p') (hl : l.received = none) : p'.r = p.r := by
  cases hstep.moves with
  | still _ _ hr => exact hr
  | sender _ hr => exact hr
  | receiver => cases hl

theorem role_of_quiet_run (hrun : Run Step p τ p') (hτ : ∀ l ∈ τ, l.received = none) :
    p'.r = p.r :=
  (hrun.attach hτ).keeps (P := fun q => q.r = p.r)
    (fun _ _ _ h hstep => (hstep.1.role_of_quiet hstep.2).trans h) rfl

/-- What the sender has published it has been called to send. -/
theorem Ledger.sent_of_published (hledger : Ledger τ p) (hs : p.s.published = some o) :
    oneshot.sent τ = o.toList := by
  obtain ⟨sent, hsent, hcarried⟩ := hledger.sent
  obtain rfl : sent = o := carries_published (carries_role hcarried) hs
  exact hsent

theorem published_run (hrun : Run Step p τ p') (hs : p.s.published = some o) :
    p'.s.published = some o :=
  hrun.keeps (P := fun p => p.s.published = some o) (fun _ _ _ h hstep => hstep.published h) hs

/-- What a send returns shows where the sender is. -/
theorem Step.send_ret {c : Sender.Call T} {result : Except SendError Unit}
    (hstep : Step p (.sender (.ret c (.send result))) p') :
    (result = .ok () ∧ ∃ m, p.s = .finished m) ∨ (result = .error {} ∧ p.s.lost = true) := by
  obtain ⟨μ, ss, rs, _⟩ := p
  obtain ⟨μ', ss', rs', _⟩ := p'
  cases hstep with
  | sender hsession =>
    generalize hv : Sender.Ret.send result = v at hsession
    cases hsession with
    | @ret c _ s g hpost =>
      subst hv
      cases c with
      | send message =>
        cases result with
        | ok value => exact .inl ⟨rfl, _, hpost⟩
        | error e =>
          obtain rfl : s = .failed message := hpost
          exact .inr ⟨rfl, rfl⟩
      | _ => exact hpost.elim

/-- A call that starts once the sender has written its final state finds what it left,
    as long as the message was not received before. -/
theorem Step.due_call {c : Receiver.Call} (hstep : Step p (.receiver (.call c)) p')
    (hspared : Receiver.Spared p.receiver) (hs : p.s.published = some o)
    (htold : ∀ m, Fate.received m ∉ Receiver.told p.receiver) : Receiver.Due o p'.receiver := by
  obtain ⟨μ, ss, rs, hagree⟩ := p
  obtain ⟨μ', ss', rs', hagree'⟩ := p'
  cases hstep with
  | receiver hsession =>
    cases hsession with
    | @call h c r haccepts hready =>
      have hh : h ≠ .gone := by
        rintro rfl
        cases c <;> cases haccepts
      exact .inr (.inl ⟨rfl, awaits_of_told hspared rfl hh hready hs htold⟩)

/-- A receive call that starts once the sender has written its final state, and before
    the message was received, finds it without waiting. -/
theorem Simulates.found {σ₀ σ : System T} {τ₁ τ₂ τ₃ : List (Label T)} {c c' : Receiver.Call}
    {v : Receiver.Ret T} (hsim : Simulates σ₀ (init h token))
    (hrun : Run System.Step σ₀ (τ₁ ++ .receiver (.call c) :: τ₂ ++ .receiver (.ret c' v) :: τ₃) σ)
    (hτ₂ : ∀ l ∈ τ₂, l.returns = false) (hfinishes : ∃ l ∈ τ₁, l.finishes = true)
    (hfates : ∀ m, Fate.received m ∉ oneshot.fates τ₁) (hc : c.receives = true) :
    ∃ o : Option T, oneshot.sent τ₁ = o.toList ∧ Receiver.outcome c' v = some (Receiver.found o) ∧
      ∀ l ∈ τ₂, l.waits = false := by
  obtain ⟨rfl, _⟩ := System.call_trace hrun hτ₂
  obtain ⟨σ₁, hfirst, hrest⟩ := (List.append_assoc _ _ _ ▸ hrun).split
  obtain ⟨p₁, hp₁, hsim₁⟩ := hsim.run hfirst
  have hshown := shown_run hp₁
  have hledger := ledger_run hp₁
  obtain ⟨o, ho⟩ := Option.isSome_iff_exists.mp (hshown.published.mpr hfinishes)
  obtain ⟨sent, hsent, hcarried⟩ := hledger.sent
  obtain rfl : sent = o := carries_published (carries_role hcarried) ho
  obtain ⟨σ₂, hcall, hrun₂⟩ := Run.cons_inv hrest
  obtain ⟨p₂, hp₂, hsim₂⟩ := hsim₁.step hcall
  have hidle : ∃ h, σ₁.receiver = .idle h := by
    cases hcall with
    | receiver hstep =>
      generalize σ₁.receiver = st at hstep
      cases hstep with
      | call => exact ⟨_, rfl⟩
  have htold (m : T) (hm : Fate.received m ∈ Receiver.told p₁.receiver) : False := by
    refine hfates m ?_
    rw [hledger.fates]
    exact List.mem_append_right _ hm
  have hdue : Receiver.Due sent p₂.receiver := hp₂.due_call hshown.spared ho htold
  refine ⟨sent, hsent, ?_, ?_⟩
  · obtain ⟨p, hp, _⟩ := hsim₂.run hrun₂
    refine due_return hp (hp₂.published ho) hdue ?_ hc
    rintro l hl c v rfl
    cases hτ₂ _ hl
  · have hwaits := swift_run hsim₁ ho (.inr (.inr (.inl hidle))) hrest
    exact fun l hl => hwaits l (List.mem_append_left _ (List.mem_cons_of_mem _ hl))

/-- Once the sender has written its final state, the receiver returns soon. -/
theorem Simulates.prompt_of_finished {σ₀ σ : System T}
    (hsim : Simulates σ₀ (init h token)) (hrun : Run System.Step σ₀ τ σ)
    (hidle : σ₀.receiver.Paced Access.reads 10 10 true) (hfinishes : ∃ l ∈ τ, l.finishes = true) :
    Prompt σ := by
  obtain ⟨p, hp, hsim'⟩ := hsim.run hrun
  obtain ⟨n, looked, hn, hpaced⟩ := paced_run hrun hidle
  obtain ⟨o, ho⟩ := Option.isSome_iff_exists.mp ((shown_run hp).published.mpr hfinishes)
  exact hsim'.prompt hn hpaced ho

end Proto

end oneshot
