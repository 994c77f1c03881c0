import Oneshot.Protocol.Patience

open conc

namespace oneshot

variable {T : Type}

/-- What may become of a message: a receive call returns it, the receiver's
    destructor drops it, or the error of the send gives it back or drops it. -/
inductive Fate (T : Type) where
  | received (message : T)
  | dropped
  | returned (message : T)
  | discarded

/-- The accesses that move the message out of its cell, or drop it there. -/
def Access.consumes : Access T → Bool
  | .take_message | .drop_message => true
  | _ => false

namespace Label

def fate : Label T → Option (Fate T)
  | .receiver (.ret c v) => match Receiver.outcome c v with
    | some (.message message) => some (.received message)
    | _ => none
  | .receiver (.act ⟨.drop_message, _⟩) => some .dropped
  | .sender (.ret _ (.into_inner message)) => some (.returned message)
  | .sender (.act ⟨.drop_message, _⟩) => some .discarded
  | _ => none

def sent : Label T → Option T
  | .sender (.call (.send message)) => some message
  | _ => none

/-- The step moves the message out of its cell, or drops it there. -/
def consumes (l : Label T) : Bool := l.action.any (·.access.consumes)

def result : Label T → Option (Except SendError Unit)
  | .sender (.ret _ (.send result)) => some result
  | _ => none

end Label

/-- The fates a run has brought about, oldest first. -/
def fates (τ : List (Label T)) : List (Fate T) := τ.filterMap Label.fate

/-- The messages that `send` was called with. -/
def sent (τ : List (Label T)) : List T := τ.filterMap Label.sent

/-- What `send` returned. -/
def results (τ : List (Label T)) : List (Except SendError Unit) := τ.filterMap Label.result

/-- How often the message was moved out of its cell or dropped there. -/
def consumed (τ : List (Label T)) : Nat := τ.countP Label.consumes

/-- What message conservation asks of a run that has come to `σ`. -/
structure MessageKept (τ : List (Label T)) (σ : System T) : Prop where
  /-- The cell is about to be read or dropped only while it holds the message. -/
  holds : ∀ a, σ.sender.next = some a ∨ σ.receiver.next = some a → a.consumes = true →
    ∃ message, sent τ = [message] ∧ σ.memory.channel.message = some message
  once : consumed τ ≤ 1
  unsent : sent τ = [] → consumed τ = 0
  fate : σ.Completed → ∀ message, sent τ = [message] →
    (results τ = [.ok ()] ∧ (fates τ = [.received message] ∨ fates τ = [.dropped])) ∨
    (results τ = [.error {}] ∧ (fates τ = [.returned message] ∨ fates τ = [.discarded]))

namespace Content

/-- The fate that a side has brought about. -/
def fates (ofTaken : T → Fate T) (ofDropped : Fate T) : Content T → List (Fate T)
  | .taken message => [ofTaken message]
  | .dropped => [ofDropped]
  | _ => []

def used : Content T → Nat
  | .taken _ | .dropped => 1
  | _ => 0

theorem used_le (content : Content T) : content.used ≤ 1 := by
  cases content <;> simp [used]

/-- Nothing is consumed of a message that was never sent. -/
theorem Matches.used {content : Content T} {cell : Option T} (hmatches : content.Matches none cell) :
    content.used = 0 := by
  cases content <;> simp_all [Matches, Content.used]

end Content

namespace Sender

def Role.fates : Role T → List (Fate T)
  | .last content | .freed content => content.fates .returned .discarded
  | _ => []

def Role.used : Role T → Nat
  | .last content | .freed content => content.used
  | _ => 0

/-- The fate that was reported so far: `into_inner` reports it when it returns. -/
def told : (Sender.contract T).Session → List (Fate T)
  | .between _ s => Role.fates s
  | .during _ s g => match Progress.message g with
    | some _ => []
    | none => Role.fates s

/-- What the role says about the message of a sender that was called to send
    `sent`. -/
def Role.Carries (sent : Option T) : Role T → Prop
  | .fresh => True
  | .wrote message | .failed message => sent = some message
  | .unparking message | .taken message _ | .notify message _ | .finished message => sent = message
  | .last content | .freed content => content.Matches sent none

def Carries (sent : Option T) : (Sender.contract T).Session → Prop
  | .between h s => (h = .sender → sent = none) ∧ Role.Carries sent s
  | .during c s _ => (match c with
    | .send message => sent = some message
    | .is_closed | .drop => sent = none
    | .into_inner | .drop_error => True) ∧ Role.Carries sent s

/-- A sender that was not called to send has consumed nothing. -/
theorem Role.Carries.used {s : Role T} (hcarries : s.Carries none) : s.used = 0 := by
  cases s with
  | last content | freed content => exact Content.Matches.used hcarries
  | _ => rfl

/-- What `send` has returned. -/
def answered : (Sender.contract T).Session → List (Except SendError Unit)
  | .between .send_error _ => [.error {}]
  | .between .gone s => match (s : Role T) with
    | .finished (some _) => [.ok ()]
    | .freed (.taken _) | .freed .dropped => [.error {}]
    | _ => []
  | .during .into_inner _ _ | .during .drop_error _ _ => [.error {}]
  | _ => []

/-- Only a failed send has the message to itself. -/
theorem Role.on_consumes {s : Role T} {a : Access T} {f : a.Resp → Role T → Prop}
    (hon : s.on a = some f) (ha : a.consumes = true) : ∃ message, s = .failed message := by
  cases a with
  | take_message | drop_message =>
    cases s with
    | failed message => exact ⟨message, rfl⟩
    | _ => cases hon
  | _ => cases ha

theorem Role.used_le (s : Role T) : s.used ≤ 1 := by
  cases s with
  | last content | freed content => exact content.used_le
  | _ => exact Nat.zero_le 1

theorem Role.Move.used {s s' : Role T} {α : (interface T).Action} (hmove : s.Move α s') :
    s'.used = s.used + α.access.consumes.toNat := by
  cases hmove <;> simp [Role.used, Content.used, Access.consumes]

/-- A call remembers the message it takes back. -/
theorem Progress.advance_message {c : Call T} {g g' : Progress T} {α : (interface T).Action}
    (htrack : Progress.advance c g α = some g') :
    g'.message = match α with
      | ⟨.take_message, message⟩ => some message
      | _ => g.message := by
  obtain ⟨a, v⟩ := α
  cases a <;> simp only [Progress.advance, Option.ite_none_right_eq_some] at htrack
  case write_message | fetch_xor | take_message | drop_message =>
    obtain ⟨_, ⟨⟩⟩ := htrack
    rfl
  all_goals cases htrack; rfl

/-- What a call has taken back is what its role says was taken. -/
def Remembers : (Sender.contract T).Session → Prop
  | .between _ _ => True
  | .during _ s g => ∀ message, Progress.message g = some message → Role.fates s = [.returned message]

/-- An access of a call tells a fate only by dropping the message. -/
theorem told_act {c : Call T} {s s' : Role T} {g g' : Progress T} {α : (interface T).Action}
    (hmove : s.Move α s') (htrack : Progress.advance c g α = some g')
    (htold : ∀ message, g.message = some message → s.fates = [.returned message]) :
    told (.during c s' g') = told (.during c s g) ++ (Label.sender (.act α)).fate.toList ∧
      ∀ message, g'.message = some message → s'.fates = [.returned message] := by
  have hmessage := Progress.advance_message htrack
  cases hg : g.message <;> cases hmove <;>
    simp_all [told, Role.fates, Content.fates, Label.fate]

theorem told_ret {c : Call T} {v : Ret T} {s : Role T} {g : Progress T} (hpost : Post c v s g)
    (htold : ∀ message, g.message = some message → s.fates = [.returned message]) :
    s.fates = told (.during c s g) ++ (Label.sender (.ret c v)).fate.toList := by
  unfold Post at hpost
  split at hpost
  case h_4 =>
    -- A sender that was dropped has taken nothing back.
    obtain rfl | rfl := hpost
    all_goals cases hg : g.message <;> simp_all [told, Role.fates, Content.fates, Label.fate]
  all_goals cases hg : g.message <;> simp_all [told, Role.fates, Content.fates, Label.fate]

theorem fates_of_told {ss : (Sender.contract T).Session} (htold : told ss ≠ []) :
    Role.fates ss.role ≠ [] := by
  cases ss with
  | between h s => exact htold
  | during c s g =>
    intro hs
    cases hg : Progress.message g <;> simp_all [told, Contract.Session.role]

theorem told_step {ss ss' : (Sender.contract T).Session} {e : (sender T).Event}
    (hstep : Contract.Session.Step ss e ss') (hremembers : Remembers ss) :
    told ss' = told ss ++ (Label.sender e).fate.toList ∧ Remembers ss' := by
  cases hstep with
  | call haccepts hready => exact ⟨(List.append_nil _).symm, fun _ h => by cases h⟩
  | act hon hmove htrack => exact told_act (Role.move_of_on hon hmove) htrack hremembers
  | enter hwaits => exact hwaits.elim
  | ret hpost => exact ⟨told_ret hpost hremembers, trivial⟩

/-- The role goes on to say the same about the message. -/
theorem carries_act {c : Call T} {s s' : Role T} {g g' : Progress T} {o : Option T}
    {α : (interface T).Action} (hmove : s.Move α s') (htrack : Progress.advance c g α = some g')
    (hcarries : Carries o (.during c s g)) : Carries o (.during c s' g') := by
  obtain ⟨hc, hs⟩ := hcarries
  refine ⟨hc, ?_⟩
  cases hmove with
  | write message =>
    obtain ⟨rfl, _⟩ := Option.ite_none_right_eq_some.mp htrack
    exact hc
  | drop | drop_receiving | drop_disconnected =>
    obtain ⟨rfl, _⟩ := Option.ite_none_right_eq_some.mp htrack
    first | exact hc | exact ⟨hc, rfl⟩
  | take_back message => exact ⟨hs, rfl⟩
  | discard message => exact ⟨by simp [show o = some message from hs], rfl⟩
  | _ => exact hs

theorem carries_step {ss ss' : (Sender.contract T).Session} {e : (sender T).Event} {o : Option T}
    (hstep : Contract.Session.Step ss e ss') (hcarries : Carries o ss) :
    ∃ o', o'.toList = o.toList ++ (Label.sender e).sent.toList ∧ Carries o' ss' := by
  cases hstep with
  | @call h c s haccepts hready =>
    obtain ⟨ho, hs⟩ := hcarries
    cases c with
    | send message =>
      cases h <;> cases haccepts
      cases s <;> cases hready
      exact ⟨some message, by simp [ho rfl, Label.sent], rfl, trivial⟩
    | is_closed | drop =>
      cases h <;> cases haccepts
      exact ⟨o, by simp [Label.sent], ho rfl, hs⟩
    | into_inner | drop_error => exact ⟨o, by simp [Label.sent], trivial, hs⟩
  | act hon hmove htrack =>
    exact ⟨o, by simp [Label.sent], carries_act (Role.move_of_on hon hmove) htrack hcarries⟩
  | enter hwaits => exact hwaits.elim
  | @ret c v s g hpost =>
    refine ⟨o, by simp [Label.sent], ?_, hcarries.2⟩
    obtain ⟨hc, _⟩ := hcarries
    intro hafter
    cases c with
    | is_closed => exact hc
    | send message => cases v with
      | send result => cases result <;> cases hafter
      | _ => cases hafter
    | _ => cases hafter

theorem answered_ret {c : Call T} {v : Ret T} {s : Role T} {g : Progress T} (hpost : Post c v s g) :
    answered (.between ((sender T).after c v) s) =
      answered (.during c s g) ++ (Label.sender (.ret c v)).result.toList := by
  unfold Post at hpost
  split at hpost
  case h_4 => obtain rfl | rfl := hpost <;> rfl
  case h_7 => exact hpost.elim
  all_goals
    first | subst hpost | obtain ⟨rfl, _⟩ := hpost
    rfl

theorem answered_step {ss ss' : (Sender.contract T).Session} {e : (sender T).Event}
    (hstep : Contract.Session.Step ss e ss') :
    answered ss' = answered ss ++ (Label.sender e).result.toList := by
  cases hstep with
  | @call h c s haccepts hready =>
    cases c <;> cases h <;> cases haccepts <;> simp [answered, Label.result]
  | @act c s s' g g' α f hon hmove htrack => cases c <;> simp [answered, Label.result]
  | enter hwaits => exact hwaits.elim
  | ret hpost => exact answered_ret hpost

end Sender

namespace Receiver

def Role.content : Role T → Content T
  | .own x => x.message
  | .released content _ => content
  | _ => .absent

def Role.fates (r : Role T) : List (Fate T) := r.content.fates .received .dropped

/-- The fate that was reported so far: a receive call reports the message when it
    returns. -/
def told : (Receiver.contract T).Session → List (Fate T)
  | .between _ r => Role.fates r
  | .during _ r g => match Progress.settled g with
    | some (.message _) => []
    | _ => Role.fates r

/-- What a call has settled on is what its role says was taken. -/
def Remembers : (Receiver.contract T).Session → Prop
  | .between _ _ => True
  | .during _ r g =>
    ∀ message, Progress.settled g = some (.message message) → Role.fates r = [.received message]

/-- Only a receiver that has the channel to itself consumes the message. -/
theorem Role.on_consumes {r : Role T} {a : Access T} {f : a.Resp → Role T → Prop}
    (hon : r.on a = some f) (ha : a.consumes = true) :
    ∃ x, r = .own x ∧ x.message.isFull = true := by
  cases a with
  | take_message | drop_message =>
    cases r with
    | own x =>
      obtain ⟨⟨hfull, _⟩, _⟩ := Option.ite_none_right_eq_some.mp hon
      exact ⟨x, rfl, hfull⟩
    | waiting waker => cases waker <;> cases hon
    | _ => cases hon
  | _ => cases ha

theorem Role.Move.used {r r' : Role T} {α : (interface T).Action} (hmove : r.Move α r') :
    r'.content.used = r.content.used + α.access.consumes.toNat := by
  cases hmove
  case own_take x message hfull hseen hwaker | own_drop x hfull hseen =>
    obtain ⟨state, content, waker, seen, intact⟩ := x
    cases content <;> first | rfl | cases hfull
  case look hfinal | close hfinal | publish_late hfinal | exchange_late hfinal | expire_late hfinal
    | woken hfinal | poll_late hfinal | retract_late hfinal | caught hfinal | depart_late hfinal
    | expired hfinal =>
    cases hfinal <;> rfl
  all_goals rfl

/-- Only taking or dropping the message brings about a fate. -/
theorem Role.Move.fates {r r' : Role T} {α : (interface T).Action} (hmove : r.Move α r') :
    (∃ message, α = ⟨.take_message, message⟩ ∧ r.fates = [] ∧ r'.fates = [.received message]) ∨
    (α = ⟨.drop_message, ()⟩ ∧ r.fates = [] ∧ r'.fates = [.dropped]) ∨
    (α.access.consumes = false ∧ r'.fates = r.fates) := by
  cases hmove
  case own_take x message hfull hseen hwaker =>
    obtain ⟨state, content, waker, seen, intact⟩ := x
    cases content <;> first | exact .inl ⟨message, rfl, rfl, rfl⟩ | cases hfull
  case own_drop x hfull hseen =>
    obtain ⟨state, content, waker, seen, intact⟩ := x
    cases content <;> first | exact .inr (.inl ⟨rfl, rfl, rfl⟩) | cases hfull
  case look hfinal | close hfinal | publish_late hfinal | exchange_late hfinal | expire_late hfinal
    | woken hfinal | poll_late hfinal | retract_late hfinal | caught hfinal | depart_late hfinal
    | expired hfinal =>
    cases hfinal <;> exact .inr (.inr ⟨rfl, rfl⟩)
  all_goals exact .inr (.inr ⟨rfl, rfl⟩)

/-- A call settles on a message only by taking it. -/
theorem point_message {c : Call} {α : (interface T).Action} {message : T}
    (hpoint : point c α = some (.message message)) : α = ⟨.take_message, message⟩ := by
  obtain ⟨a, v⟩ := α
  cases a with
  | take_message =>
    cases hpoint
    rfl
  | load order =>
    simp only [point, loadPoint] at hpoint
    split_ifs at hpoint <;> cases hpoint
  | swap val order =>
    simp only [point, swapPoint] at hpoint
    split_ifs at hpoint <;> cases hpoint
  | compare_exchange current new success failure =>
    cases v <;> simp only [point, exchangePoint] at hpoint <;> split_ifs at hpoint <;> cases hpoint
  | _ => cases hpoint

theorem Progress.advance_other {c : Call} {g g' : Progress T} {α : (interface T).Action}
    (htrack : Progress.advance c g α = some g') (hα : ∀ message, α ≠ ⟨.take_message, message⟩)
    (message : T) : g'.settled = some (.message message) ↔ g.settled = some (.message message) := by
  obtain ⟨_, hsame⟩ | ⟨o, hpoint, _, hbefore, hafter⟩ := Progress.advance_settled htrack
  · rw [hsame]
  · simp only [hbefore, hafter, Option.some.injEq, reduceCtorEq, iff_false]
    rintro rfl
    exact hα message (point_message hpoint)

theorem told_message {c : Call} {r : Role T} {g : Progress T} {message : T}
    (hsettled : g.settled = some (.message message)) : told (.during c r g) = [] := by
  simp [told, hsettled]

theorem told_other {c : Call} {r : Role T} {g : Progress T}
    (hsettled : ∀ message, g.settled ≠ some (.message message)) :
    told (.during c r g) = r.fates := by
  simp only [told]

theorem told_act {c : Call} {r r' : Role T} {g g' : Progress T} {α : (interface T).Action}
    (hmove : r.Move α r') (htrack : Progress.advance c g α = some g')
    (hremembers : Remembers (.during c r g)) :
    told (.during c r' g') = told (.during c r g) ++ (Label.receiver (.act α)).fate.toList ∧
      Remembers (.during c r' g') := by
  obtain ⟨message, rfl, hr, hr'⟩ | ⟨rfl, hr, hr'⟩ | ⟨hα, hr⟩ := hmove.fates
  · obtain ⟨⟨⟩, _⟩ | ⟨_, ⟨⟩, _, hnone, hsome⟩ := Progress.advance_settled htrack
    have hbefore : told (.during c r g) = r.fates := told_other (by simp [hnone])
    refine ⟨by rw [told_message hsome, hbefore, hr]; rfl, fun m hm => ?_⟩
    rw [hsome] at hm
    cases hm
    exact hr'
  · have hsame := Progress.advance_other htrack (by simp)
    have hno (m : T) : g.settled ≠ some (.message m) := fun hm => by
      simpa [hr] using hremembers m hm
    have hno' (m : T) : g'.settled ≠ some (.message m) := fun hm => hno m ((hsame m).mp hm)
    refine ⟨by rw [told_other hno, told_other hno', hr, hr']; rfl, fun m hm => (hno' m hm).elim⟩
  · have hne (m : T) : α ≠ ⟨.take_message, m⟩ := by
      rintro rfl
      cases hα
    have hsame := Progress.advance_other htrack hne
    have hfate : (Label.receiver (.act α) : Label T).fate = none := by
      obtain ⟨a, v⟩ := α
      cases a <;> first | rfl | cases hα
    rw [hfate]
    refine ⟨?_, fun m hm => hr.trans (hremembers m ((hsame m).mp hm))⟩
    by_cases hg : ∃ m, g.settled = some (.message m)
    · obtain ⟨m, hm⟩ := hg
      rw [told_message hm, told_message ((hsame m).mpr hm)]
      rfl
    · have hno (m : T) : g.settled ≠ some (.message m) := fun hm => hg ⟨m, hm⟩
      have hno' (m : T) : g'.settled ≠ some (.message m) := fun hm => hno m ((hsame m).mp hm)
      rw [told_other hno, told_other hno', hr]
      exact (List.append_nil _).symm

/-- A call that has settled on the message returns it, and no other does. -/
theorem told_ret {c : Call} {v : Ret T} {r : Role T} {g : Progress T} (hpost : Post c v r g)
    (hremembers : Remembers (.during c r g)) :
    r.fates = told (.during c r g) ++ (Label.receiver (.ret c v)).fate.toList := by
  have hsettled := hpost.settled
  by_cases hg : ∃ message, g.settled = some (.message message)
  · obtain ⟨message, hmessage⟩ := hg
    have houtcome : outcome c v = some (.message message) := hsettled ▸ hmessage
    rw [told_message hmessage, hremembers message hmessage]
    simp [Label.fate, houtcome]
  · have hno (m : T) : g.settled ≠ some (.message m) := fun hm => hg ⟨m, hm⟩
    have hfate : (Label.receiver (.ret c v) : Label T).fate = none := by
      cases houtcome : outcome c v with
      | none => simp [Label.fate, houtcome]
      | some o =>
        cases o with
        | message m => exact (hno m (hsettled.trans houtcome)).elim
        | _ => simp [Label.fate, houtcome]
    rw [told_other hno, hfate]
    exact (List.append_nil _).symm

theorem told_of_fates {rs : (Receiver.contract T).Session} (hfates : Role.fates rs.role = []) :
    told rs = [] := by
  cases rs with
  | between h r => exact hfates
  | during c r g =>
    by_cases hg : ∃ message, Progress.settled g = some (.message message)
    · exact told_message hg.choose_spec
    · exact (told_other fun m hm => hg ⟨m, hm⟩).trans hfates

theorem told_step {ss ss' : (Receiver.contract T).Session} {e : (receiver T).Event}
    (hstep : Contract.Session.Step ss e ss') (hremembers : Remembers ss) :
    told ss' = told ss ++ (Label.receiver e).fate.toList ∧ Remembers ss' := by
  cases hstep with
  | call haccepts hready => exact ⟨(List.append_nil _).symm, fun _ h => by cases h⟩
  | act hon hmove htrack => exact told_act (Role.move_of_on hon hmove) htrack hremembers
  | enter hwaits => exact ⟨(List.append_nil _).symm, hremembers⟩
  | ret hpost => exact ⟨told_ret hpost hremembers, trivial⟩

end Receiver

namespace Proto

/-- What a run has done with the message is what the two sides know of it. -/
structure Ledger (τ : List (Label T)) (p : Proto T) : Prop where
  sent : ∃ o : Option T, sent τ = o.toList ∧ Sender.Carries o p.sender
  results : results τ = Sender.answered p.sender
  fates : fates τ = Sender.told p.sender ++ Receiver.told p.receiver
  sender : Sender.Remembers p.sender
  receiver : Receiver.Remembers p.receiver
  consumed : consumed τ = p.s.used + p.r.content.used

/-- Once the receiver has taken hold of the message, the sender has no fate to
    tell of it any more, and the other way round. -/
theorem told_exclusive {p : Proto T} (hs : p.s.fates ≠ []) : p.r.fates = [] := by
  have hagree : Receiver.Role.Agree p.r p.s p.memory.channel := p.agree
  cases hr : p.r <;> rw [hr] at hagree <;> try rfl
  case own x =>
    obtain ⟨_, _, sent, hsent, _⟩ := hagree
    cases hp : p.s <;> simp_all [Sender.Role.fates, Sender.Role.published]
  case released content seen =>
    obtain ⟨_, _, sent, hsent, _⟩ := hagree
    cases hp : p.s <;> simp_all [Sender.Role.fates, Sender.Role.published]

theorem consumed_snoc (τ : List (Label T)) (l : Label T) :
    oneshot.consumed (τ ++ [l]) = oneshot.consumed τ + l.consumes.toNat := by
  cases hl : l.consumes <;> simp [oneshot.consumed, List.countP_append, hl]

/-- What the sender was called to send is what its session says. -/
theorem Step.sent {τ : List (Label T)} {p p' : Proto T} {l : Label T} (hstep : Step p l p')
    (hsent : ∃ o : Option T, oneshot.sent τ = o.toList ∧ Sender.Carries o p.sender) :
    ∃ o : Option T, oneshot.sent (τ ++ [l]) = o.toList ∧ Sender.Carries o p'.sender := by
  obtain ⟨o, hsent, hcarries⟩ := hsent
  have hτ : oneshot.sent (τ ++ [l]) = oneshot.sent τ ++ l.sent.toList := filterMap_snoc _ _ _
  cases hstep with
  | sender hsession =>
    obtain ⟨o', ho', hcarries'⟩ := Sender.carries_step hsession hcarries
    refine ⟨o', ?_, hcarries'⟩
    rw [hτ, hsent, ho']
  | receiver _ _ hs | stray _ _ hs =>
    refine ⟨o, ?_, hs ▸ hcarries⟩
    rw [hτ, hsent]
    exact List.append_nil _

theorem Ledger.step {τ : List (Label T)} {p p' : Proto T} {l : Label T} (h : Ledger τ p)
    (hstep : Step p l p') : Ledger (τ ++ [l]) p' := by
  obtain ⟨hsent, hresults, hfates, hsender, hreceiver, hconsumed⟩ := h
  have hsent' := hstep.sent hsent
  have hused : oneshot.consumed (τ ++ [l]) = p'.s.used + p'.r.content.used := by
    rw [consumed_snoc, hconsumed]
    cases hstep.moves with
    | still hl hs hr => simp [Label.consumes, hl, hs, hr]
    | @sender α _ hmove hr =>
      rw [hmove.used, hr, show (Label.sender (.act α) : Label T).consumes = α.access.consumes from rfl]
      omega
    | @receiver α _ hmove hs =>
      rw [hmove.used, hs, show (Label.receiver (.act α) : Label T).consumes = α.access.consumes from rfl]
      omega
  cases hstep with
  | sender hsession hmemory hr =>
    obtain ⟨htold, hsender'⟩ := Sender.told_step hsession hsender
    refine ⟨hsent', ?_, ?_, hsender', hr ▸ hreceiver, hused⟩
    · rw [oneshot.results, filterMap_snoc, Sender.answered_step hsession, ← hresults]
      rfl
    · rw [oneshot.fates, filterMap_snoc, htold]
      cases hfate : (Label.sender _ : Label T).fate with
      | none =>
        simp only [Option.toList_none, List.append_nil, hr]
        exact hfates
      | some fate =>
        -- The receiver has told nothing, since the sender has the message.
        have hsome : Sender.told p'.sender ≠ [] := by simp [htold, hfate]
        have hnone := Receiver.told_of_fates (told_exclusive (Sender.fates_of_told hsome))
        rw [hr] at hnone
        rw [← oneshot.fates, hfates, hr, hnone]
        simp
  | receiver hsession hmemory hs =>
    obtain ⟨htold, hreceiver'⟩ := Receiver.told_step hsession hreceiver
    refine ⟨hsent', ?_, ?_, hs ▸ hsender, hreceiver', hused⟩
    · simp only [oneshot.results, filterMap_snoc, Label.result, Option.toList_none, List.append_nil, hs]
      exact hresults
    · rw [oneshot.fates, filterMap_snoc, htold, hs, ← List.append_assoc, ← hfates]
      rfl
  | stray thread hmemory hs hr =>
    refine ⟨hsent', ?_, ?_, hs ▸ hsender, hr ▸ hreceiver, hused⟩
    · simp only [oneshot.results, filterMap_snoc, Label.result, Option.toList_none, List.append_nil, hs]
      exact hresults
    · simp only [oneshot.fates, filterMap_snoc, Label.fate, Option.toList_none, List.append_nil, hs, hr]
      exact hfates

theorem ledger_run {h : Receiver.Handle} {token : Thread → Bool} {τ : List (Label T)} {p : Proto T}
    (hrun : Run Step (init h token) τ p) : Ledger τ p := by
  induction hrun with
  | nil => exact ⟨⟨none, rfl, fun _ => rfl, trivial⟩, rfl, rfl, trivial, trivial, rfl⟩
  | snoc _ hstep ih => exact ih.step hstep

theorem carries_role {ss : (Sender.contract T).Session} {o : Option T}
    (hcarries : Sender.Carries o ss) : Sender.Role.Carries o ss.role := by
  cases ss <;> exact hcarries.2

theorem carries_published {s : Sender.Role T} {o sent : Option T}
    (hcarries : s.Carries o) (hpublished : s.published = some sent) : o = sent := by
  cases s <;> simp_all [Sender.Role.published, Sender.Role.Carries]

/-- What a receiver has taken hold of is what was sent. -/
theorem matches_of_content {p : Proto T} {o : Option T} (hcarries : p.s.Carries o)
    (hcontent : (∃ x, p.r = .own x) ∨ ∃ content seen, p.r = .released content seen) :
    p.s.used = 0 ∧ p.r.content.Matches o p.memory.channel.message := by
  have hagree : Receiver.Role.Agree p.r p.s p.memory.channel := p.agree
  obtain ⟨x, hr⟩ | ⟨content, seen, hr⟩ := hcontent
  all_goals
    rw [hr] at hagree ⊢
    obtain ⟨_, _, sent, hsent, hmatches⟩ := hagree
    obtain rfl := carries_published hcarries hsent
    refine ⟨?_, hmatches⟩
    cases hs : p.s <;> simp_all [Sender.Role.used, Sender.Role.published]

theorem content_cases (r : Receiver.Role T) :
    ((∃ x, r = .own x) ∨ ∃ content seen, r = .released content seen) ∨ r.content = .absent := by
  cases r <;> simp [Receiver.Role.content]

/-- An access that consumes the message is made only by the side that has it. -/
theorem holds_of_next {σ : System T} {p : Proto T} (hsim : Simulates σ p) {o : Option T}
    (hcarries : p.s.Carries o) {a : Access T} (ha : a.consumes = true)
    (hnext : σ.sender.next = some a ∨ σ.receiver.next = some a) :
    ∃ message, o = some message ∧ p.memory.channel.message = some message := by
  obtain hnext | hnext := hnext
  · obtain ⟨f, hon⟩ := hsim.sender.on_next hnext
    obtain ⟨message, hs⟩ := Sender.Role.on_consumes (s := p.s) hon ha
    have hagree : Receiver.Role.Agree p.r p.s p.memory.channel := p.agree
    rw [hs] at hcarries hagree
    exact ⟨message, hcarries, hagree.of_failed⟩
  · obtain ⟨f, hon⟩ := hsim.receiver.on_next hnext
    obtain ⟨x, hr, hfull⟩ := Receiver.Role.on_consumes (r := p.r) hon ha
    have hmatches := (matches_of_content hcarries (.inl ⟨x, hr⟩)).2
    rw [hr] at hmatches
    exact hmatches.full hfull

/-- The fate of a message, from the roles in which both sides end. -/
theorem fate_of_completed {p : Proto T} {message : T} {τ : List (Label T)} (hpatient : p.Patient)
    (hcarries : p.s.Carries (some message)) (hs : Sender.Ready .gone p.s)
    (hr : Receiver.Ready .gone p.r) (hresults : results τ = Sender.answered (.between .gone p.s))
    (hfates : oneshot.fates τ = p.s.fates ++ p.r.fates) :
    (results τ = [.ok ()] ∧
      (oneshot.fates τ = [.received message] ∨ oneshot.fates τ = [.dropped])) ∨
    (results τ = [.error {}] ∧
      (oneshot.fates τ = [.returned message] ∨ oneshot.fates τ = [.discarded])) := by
  have hagree : Receiver.Role.Agree p.r p.s p.memory.channel := p.agree
  cases hps : p.s <;> rw [hps] at hs hcarries hresults hfates hagree
  case finished o =>
    obtain rfl : some message = o := hcarries
    refine .inl ⟨hresults, ?_⟩
    cases hpr : p.r <;> rw [hpr] at hr hfates hagree
    case left => obtain h | h := hagree <;> cases h
    case abandoned waker =>
      have hpublished := hpatient waker (.inr hpr)
      rw [hps] at hpublished
      cases hpublished
    case released content seen =>
      obtain ⟨_, hfull, sent, ⟨⟩, hmatches⟩ := hagree
      cases content with
      | absent => cases hmatches.1
      | full => cases hfull
      | taken m =>
        cases hmatches.1
        exact .inl hfates
      | dropped => exact .inr hfates
    all_goals cases hr
  case freed content =>
    rw [hagree.of_freed] at hfates
    cases content with
    | absent => cases hcarries.1
    | full => cases hcarries.2
    | taken m =>
      cases hcarries.1
      exact .inr ⟨hresults, .inl hfates⟩
    | dropped => exact .inr ⟨hresults, .inr hfates⟩
  all_goals cases hs

end Proto

/-- The message of a run in which no spin loop is left early is conserved. -/
theorem message_kept {h : Receiver.Handle} {token : Thread → Bool} {τ : List (Label T)}
    {σ : System T} {p : Proto T} (hrun : Run Proto.PatientStep (Proto.init h token) τ p)
    (hsim : Proto.Simulates σ p) : MessageKept τ σ := by
  have hpatient : p.Patient := Proto.patient_of_run hrun
  have hledger : Proto.Ledger τ p := Proto.ledger_run (hrun.mono fun _ _ _ h => h.1)
  obtain ⟨⟨o, hsent, hcarried⟩, hresults, hfates, _, _, hconsumed⟩ := hledger
  have hcarries : p.s.Carries o := Proto.carries_role hcarried
  refine ⟨?_, ?_, ?_, ?_⟩
  · intro a hnext ha
    obtain ⟨message, rfl, hcell⟩ := Proto.holds_of_next hsim hcarries ha hnext
    exact ⟨message, hsent, by rw [← hsim.memory, hcell]⟩
  · rw [hconsumed]
    obtain hcontent | habsent := Proto.content_cases p.r
    · rw [(Proto.matches_of_content hcarries hcontent).1, Nat.zero_add]
      exact p.r.content.used_le
    · rw [habsent]
      exact p.s.used_le
  · intro hnone
    obtain rfl : o = none := by simpa [hnone] using hsent
    rw [hconsumed, hcarries.used]
    obtain hcontent | habsent := Proto.content_cases p.r
    · exact (Nat.zero_add _).trans (Proto.matches_of_content hcarries hcontent).2.used
    · rw [habsent]
      rfl
  · intro hcompleted message hmessage
    obtain rfl : o = some message := by cases o <;> simp_all
    obtain ⟨⟨hsender, hs⟩, hreceiver, hr⟩ := hsim.completed hcompleted
    rw [hsender] at hresults hfates
    rw [hreceiver] at hfates
    exact Proto.fate_of_completed hpatient hcarries hs hr hresults hfates

end oneshot
