import Oneshot.Properties.Standing

open conc

namespace oneshot

variable {T : Type}

namespace Receiver

variable {c : Call} {r r' : Role T} {s : Sender.Role T} {x x' : Channel T} {g g' : Progress T}
  {α : (interface T).Action}

/-- An access at which a call settles on nothing leaves the atomic oneshot as it is. -/
theorem keeps_of_point (hmove : r.Move α r') (hagree : r'.Agree s x')
    (htrack : Progress.advance c g α = some g') (hplaced : Placed (.during c r g))
    (hpoint : point c α = none ∨ point c α = some .open ∨ point c α = some .disconnected) :
    s.abstract (r'.standing g.dropping) = s.abstract (r.standing g.dropping) ∧
      s.pointed (r'.standing g.dropping) = s.pointed (r.standing g.dropping) := by
  refine hmove.keeps_abstract hagree hplaced.1 hplaced.2 ?_ ?_ ?_
  · rintro order v rfl
    simp [point, swapPoint] at hpoint
  · rintro message rfl
    simp [point] at hpoint
  · rintro rfl
    exact Progress.dropping_iff.mpr (Progress.dropped_of_drop htrack)

/-- A call that finds nothing yet does so while the channel is open. -/
theorem open_step (hmove : r.Move α r') (hagree : r.Agree s x)
    (hanswers : x.Answers α.access α.resp) (hpoint : point c α = some .open) :
    s.abstract (r.standing false) = .Open := by
  obtain ⟨hr, hne, hne'⟩ := open_of_point hmove hpoint hanswers
  rw [standing_of_apart hr]
  obtain ⟨hopen, _⟩ | ⟨o, _, hstate⟩ := hagree.of_apart hr
  · exact hopen
  · cases o with
    | none => exact (hne' hstate).elim
    | some message => exact (hne hstate).elim

/-- A call that finds the channel closed does so once there is nothing to receive. -/
theorem disconnected_step (hmove : r.Move α r') (hagree : r.Agree s x)
    (hanswers : x.Answers α.access α.resp) (hpoint : point c α = some .disconnected)
    (hdeparting : r.standing false ≠ .departing) : s.abstract (r.standing false) = .Closed := by
  obtain ⟨hstate, hr | ⟨waker, rfl⟩ | ⟨y, rfl, hfull⟩⟩ := disconnected_of_point hmove hpoint hanswers
  · rw [standing_of_apart hr]
    obtain ⟨_, _, _, hne⟩ | ⟨o, ho, hfinal⟩ := hagree.of_apart hr
    · exact (hne hstate).elim
    · obtain ⟨_, hhere, _⟩ := Sender.Role.of_published ho .here
      rw [hhere]
      cases o with
      | none => rfl
      | some message => cases hfinal.symm.trans hstate
  · exact (hdeparting rfl).elim
  · obtain ⟨_, _, o, ho, hmatches⟩ := hagree
    obtain ⟨_, hhere, hconsumed, _⟩ := Sender.Role.of_published ho .here
    obtain ⟨state, content, waker, seen, intact⟩ := y
    cases content with
    | absent =>
      obtain ⟨rfl, _⟩ := hmatches
      exact hhere
    | full => cases hfull
    | taken message => exact hconsumed
    | dropped => exact hconsumed

/-- A call takes the message that the atomic oneshot is full of. -/
theorem message_step (hmove : r.Move α r') (hagree : r.Agree s x)
    (hanswers : x.Answers α.access α.resp) {message : T} (hpoint : point c α = some (.message message)) :
    s.abstract (r.standing false) = .Full message ∧ s.abstract (r'.standing false) = .Closed ∧
      s.pointed (r'.standing false) = s.pointed (r.standing false) := by
  obtain rfl := point_message hpoint
  cases hmove with
  | own_take y _ hfull hseen =>
    obtain ⟨_, _, o, ho, hmatches⟩ := hagree
    obtain ⟨message', rfl, hcell⟩ := hmatches.full hfull
    obtain rfl : message' = message := Option.some.inj (hcell.symm.trans hanswers)
    obtain ⟨state, content, waker, seen, intact⟩ := y
    obtain ⟨hpointed, hhere, hconsumed, _⟩ := Sender.Role.of_published ho .here
    obtain ⟨hpointed', _⟩ := Sender.Role.of_published ho .consumed
    cases content <;> first | exact ⟨hhere, hconsumed, hpointed'.trans hpointed.symm⟩ | cases hfull

theorem final_step (o : Option T) :
    Oneshot.Step (Oneshot.final o) .drop_receiver .dropped .Closed := by
  cases o with
  | none => exact .drop_receiver_closed
  | some message => exact .drop_receiver_full message

/-- A destructor takes effect at its swap, alone or, in the sender's window, right
    after the sender. -/
theorem dropped_step (hmove : r.Move α r') (hagree : r.Agree s x)
    (hanswers : x.Answers α.access α.resp) (hpoint : point c α = some .dropped) :
    (Oneshot.Step (s.abstract (r.standing false)) .drop_receiver .dropped
        (s.abstract (r'.standing true)) ∧
      s.pointed (r'.standing true) = s.pointed (r.standing false)) ∨
    (s.abstract (r.standing false) = .Open ∧ s.pointed (r.standing false) = false ∧
      s.abstract (r'.standing true) = .Closed ∧ s.pointed (r'.standing true) = true ∧
      ∃ b waker, s.Window b waker x) := by
  obtain ⟨order, v, rfl⟩ := dropped_of_point hpoint
  cases hmove with
  | leave =>
    have hstate : x.state = EMPTY := Eq.symm hanswers
    refine .inl ?_
    obtain hs | hs := hagree
    · cases s <;> first | exact ⟨.drop_receiver, rfl⟩ | exact hs.elim
    · obtain ⟨o, _, rfl⟩ := hs.published
      cases o <;> simp at hstate
  | close hfinal | depart_late waker hfinal =>
    refine .inl ?_
    obtain ⟨_, _, hne, hne'⟩ | ⟨o, ho, _⟩ := hagree.of_apart rfl
    · have hstate : x.state = _ := Eq.symm hanswers
      cases hfinal with
      | sent => exact (hne hstate).elim
      | dropped => exact (hne' hstate).elim
    · obtain ⟨hpointed, hhere, hconsumed, _⟩ := Sender.Role.of_published ho .here
      obtain ⟨hpointed', _⟩ := Sender.Role.of_published ho .consumed
      refine ⟨?_, ?_⟩
      · cases hfinal <;> exact (hhere ▸ hconsumed ▸ final_step o)
      · cases hfinal <;> exact hpointed'.trans hpointed.symm
  | depart waker =>
    have hstate : x.state = UNPARKING := Eq.symm hanswers
    obtain hs | hs := hagree
    · refine .inr ?_
      cases s <;> first | exact ⟨rfl, rfl, rfl, rfl, _, _, hs⟩ | exact hs.elim
    · obtain ⟨o, _, rfl⟩ := hs.published
      cases o <;> simp at hstate
  | own_swap y =>
    obtain ⟨_, _, o, ho, _⟩ := hagree
    obtain ⟨hpointed, hhere, hconsumed, _⟩ := Sender.Role.of_published ho .here
    obtain ⟨hpointed', _⟩ := Sender.Role.of_published ho .consumed
    obtain ⟨state, content, waker, seen, intact⟩ := y
    refine .inl ?_
    cases content with
    | absent | full => exact ⟨hhere ▸ hconsumed ▸ final_step o, hpointed'.trans hpointed.symm⟩
    | taken | dropped =>
      refine ⟨?_, rfl⟩
      exact (hconsumed ▸ .drop_receiver_closed)

/-- A destructor that has taken effect leaves no handle. -/
theorem after_of_dropped {v : Ret T} (houtcome : outcome c v = some .dropped) :
    (receiver T).after c v = .gone := by
  cases c <;> cases v <;> try first | rfl | cases houtcome
  case try_recv result =>
    rcases result with (_ | _) | _ <;> cases houtcome
  case recv_ref _ result =>
    rcases result with _ | _ <;> cases houtcome
  case recv_timeout _ _ result | recv_deadline _ _ result =>
    rcases result with (_ | _) | _ <;> cases houtcome
  case poll _ result =>
    rcases result with (_ | _) | _ <;> cases houtcome

theorem Post.outcome_of_op {v : Ret T} (hpost : Post c v r g) {op : Oneshot.Op T}
    (hop : c.op = some op) : ∃ o, outcome c v = some o := by
  obtain ⟨_, hpost⟩ := hpost
  split at hpost
  case h_6 | h_7 => exact ⟨_, rfl⟩
  case h_8 =>
    obtain ⟨o, houtcome, _⟩ := hpost
    exact ⟨o, houtcome⟩
  all_goals cases hop

/-- The return of a call leaves the atomic oneshot as it is. -/
theorem ret_keeps {v : Ret T} (hpost : Post c v r g) (hagree : r.Agree s x) :
    s.abstract (r.standing false) = s.abstract (r.standing g.dropping) ∧
      s.pointed (r.standing false) = s.pointed (r.standing g.dropping) := by
  cases hd : g.dropping with
  | false => exact ⟨rfl, rfl⟩
  | true =>
    have hdropped : outcome c v = some .dropped := by
      rw [← hpost.settled]
      exact Progress.dropping_iff.mp hd
    have hready := hpost.1
    rw [after_of_dropped hdropped] at hready
    cases r with
    | released content seen =>
      obtain ⟨_, hfull, o, ho, hmatches⟩ := hagree
      obtain ⟨hpointed, hhere, hconsumed, _⟩ := Sender.Role.of_published ho .here
      obtain ⟨hpointed', _⟩ := Sender.Role.of_published ho .consumed
      cases content with
      | absent =>
        obtain ⟨rfl, _⟩ := hmatches
        exact ⟨hhere.trans hconsumed.symm, hpointed.trans hpointed'.symm⟩
      | full => cases hfull
      | taken | dropped => exact ⟨rfl, rfl⟩
    | left | abandoned => exact ⟨rfl, rfl⟩
    | _ => exact hready.elim

end Receiver

/-- The atomic oneshot and its two users, as the sessions of the two sides have it. -/
noncomputable def config (ss : (Sender.contract T).Session) (rs : (Receiver.contract T).Session) :
    (atomic T).Config Side where
  obj := Sender.Role.abstract (Receiver.standing rs) ss.role
  status
    | .sender => Sender.status (Receiver.standing rs) ss
    | .receiver => Receiver.status rs

section

variable {ss ss' : (Sender.contract T).Session} {rs rs' : (Receiver.contract T).Session}

/-- A user's own mark moves its own status. -/
theorem step_sender {m : (atomic T).Mark Side} (hm : m.client = .sender)
    (hstatus : Atomic.Status.Step (Sender.status (Receiver.standing rs) ss) m
      (Sender.status (Receiver.standing rs) ss'))
    (heffect : Atomic.Config.Effect (config ss rs).obj m (config ss' rs).obj) :
    Atomic.Config.Step (config ss rs) m (config ss' rs) := by
  refine .intro (by rw [hm]; exact hstatus) ?_ heffect
  intro i hi
  cases i with
  | sender => exact (hi hm.symm).elim
  | receiver => rfl

/-- The sender does not notice what leaves its points alone. -/
theorem status_congr {k k' : Receiver.Standing}
    (hpointed : Sender.Role.pointed k' ss.role = Sender.Role.pointed k ss.role) :
    Sender.status k' ss = Sender.status k ss := by
  cases ss with
  | between h s => rfl
  | during c s g =>
    replace hpointed : Sender.Role.pointed k' s = Sender.Role.pointed k s := hpointed
    simp only [Sender.status, hpointed]

theorem step_receiver {m : (atomic T).Mark Side} (hm : m.client = .receiver)
    (hstatus : Atomic.Status.Step (Receiver.status rs) m (Receiver.status rs'))
    (hpointed : Sender.Role.pointed (Receiver.standing rs') ss.role =
      Sender.Role.pointed (Receiver.standing rs) ss.role)
    (heffect : Atomic.Config.Effect (config ss rs).obj m (config ss rs').obj) :
    Atomic.Config.Step (config ss rs) m (config ss rs') := by
  refine .intro (by rw [hm]; exact hstatus) ?_ heffect
  intro i hi
  cases i with
  | sender => exact status_congr hpointed
  | receiver => exact (hi hm.symm).elim

theorem config_eq (hobj : (config ss' rs').obj = (config ss rs).obj)
    (hs : Sender.status (Receiver.standing rs') ss' = Sender.status (Receiver.standing rs) ss)
    (hr : Receiver.status rs' = Receiver.status rs) : config ss' rs' = config ss rs := by
  have hstatus : (config ss' rs').status = (config ss rs).status := by
    funext i
    cases i with
    | sender => exact hs
    | receiver => exact hr
  calc config ss' rs' = ⟨(config ss' rs').obj, (config ss' rs').status⟩ := rfl
    _ = ⟨(config ss rs).obj, (config ss rs).status⟩ := by rw [hobj, hstatus]

/-- Between the two points of a receiver that is dropped in the sender's window. -/
noncomputable def midway (o : Option T) (ss : (Sender.contract T).Session)
    (rs : (Receiver.contract T).Session) : (atomic T).Config Side where
  obj := Oneshot.final o
  status
    | .sender => Sender.status .departing ss
    | .receiver => Receiver.status rs

/-- A sender at work comes to its point with the message it was called with. -/
theorem announce {c : Sender.Call T} {s : Sender.Role T} {b : UInt8} {waker : ReceiverWaker}
    {x : Channel T} (hs : s.Window b waker x) (hplaced : s.Placed c) :
    ∃ op o, c.op = some op ∧ Oneshot.Step .Open op (s.result c) (Oneshot.final o) := by
  cases s with
  | unparking message | taken message waker' =>
    obtain rfl : c = _ := hplaced
    cases message with
    | none => exact ⟨_, none, rfl, .drop_sender⟩
    | some message => exact ⟨_, some message, rfl, .send message⟩
  | _ => exact hs.elim

/-- The sender takes effect when the receiver is dropped in its window. -/
theorem sender_point {x : Channel T} {b : UInt8} {waker : ReceiverWaker}
    (hs : Sender.Placed ss) (hwindow : ss.role.Window b waker x)
    (hobj : (config ss rs).obj = .Open)
    (hpointed : Sender.Role.pointed (Receiver.standing rs) ss.role = false) :
    Sender.Role.pointed .departing ss.role = true ∧
      ∃ o op res, Atomic.Config.Step (config ss rs) (.point .sender op res) (midway o ss rs) := by
  cases ss with
  | between h s =>
    replace hs : Sender.Ready h s := hs
    replace hwindow : Sender.Role.Window b waker s x := hwindow
    cases h <;> cases s <;> first | exact hs.elim | exact hwindow.elim
  | during c s g =>
    obtain ⟨op, o, hop, hstep⟩ := announce hwindow hs
    have hdeparting : Sender.Role.pointed .departing s = true := by
      replace hwindow : Sender.Role.Window b waker s x := hwindow
      cases s <;> first | rfl | exact hwindow.elim
    replace hpointed : Sender.Role.pointed (Receiver.standing rs) s = false := hpointed
    refine ⟨hdeparting, o, op, Sender.Role.result s c, .intro ?_ ?_ ?_⟩
    · simp only [Atomic.Mark.client, config, midway, Sender.status, hop, hpointed, hdeparting]
      exact .point
    · intro i hi
      cases i with
      | sender => exact (hi rfl).elim
      | receiver => rfl
    · show (atomic T).step (config _ rs).obj op _ _
      rw [hobj]
      exact hstep

/-- The receiver takes effect where its call settles. -/
theorem receiver_point {c : Receiver.Call} {r r' : Receiver.Role T} {g g' : Receiver.Progress T}
    {o : Receiver.Outcome T} (hallows : c.allows o = true) (hbefore : g.settled = none)
    (hafter : g'.settled = some o)
    (hpointed : ss.role.pointed (r'.standing g'.dropping) = ss.role.pointed (r.standing g.dropping))
    (heffect : Oneshot.Step (ss.role.abstract (r.standing g.dropping)) (o.op c) (Receiver.res o)
      (ss.role.abstract (r'.standing g'.dropping))) :
    Atomic.Config.Shows (config ss (.during c r g)) none (config ss (.during c r' g')) := by
  have hop := Receiver.Call.op_of_allows hallows
  refine .of_step (m := .point .receiver (o.op c) (Receiver.res o)) (step_receiver rfl ?_ hpointed ?_)
  · simp only [Receiver.status, hop, hbefore, hafter]
    exact .point
  · exact heffect

/-- An access of the receiving side. -/
theorem receiver_act {c : Receiver.Call} {r r' : Receiver.Role T} {g g' : Receiver.Progress T}
    {α : (interface T).Action} {x x' : Channel T} (hmove : r.Move α r')
    (htrack : Receiver.Progress.advance c g α = some g')
    (hagree : r.Agree ss.role x) (hagree' : r'.Agree ss.role x')
    (hanswers : x.Answers α.access α.resp) (hs : Sender.Placed ss)
    (hr : Receiver.Placed (.during c r g)) :
    Atomic.Config.Shows (config ss (.during c r g)) none (config ss (.during c r' g')) := by
  have hkeeps := Receiver.keeps_of_point hmove hagree' htrack hr
  obtain ⟨hpoint, hsame⟩ | ⟨o, hpoint, hallows, hbefore, hafter⟩ :=
    Receiver.Progress.advance_settled htrack
  · -- Nothing happens at this access.
    obtain ⟨hobj, hpointed⟩ := hkeeps (.inl hpoint)
    have hd : g'.dropping = g.dropping := by simp [Receiver.Progress.dropping, hsame]
    have heq : config ss (.during c r' g') = config ss (.during c r g) := by
      refine config_eq ?_ (status_congr ?_) ?_
      · simp only [config, Receiver.standing, hd, hobj]
      · simp only [Receiver.standing, hd, hpointed]
      · simp only [Receiver.status, hsame]
    rw [heq]
    exact .nothing
  · have hd : g.dropping = false := Receiver.Progress.dropping_none hbefore
    rw [hd] at hkeeps
    cases o with
    | «open» =>
      have hd' : g'.dropping = false := by simp [Receiver.Progress.dropping, hafter]
      obtain ⟨hobj, hpointed⟩ := hkeeps (.inr (.inl hpoint))
      have hopen := Receiver.open_step hmove hagree hanswers hpoint
      refine receiver_point hallows hbefore hafter ?_ ?_
      · rw [hd, hd', hpointed]
      · rw [hd, hd', hobj, hopen]
        exact .open c (Receiver.Call.blocks_of_allows hallows)
    | disconnected =>
      have hd' : g'.dropping = false := by simp [Receiver.Progress.dropping, hafter]
      obtain ⟨hobj, hpointed⟩ := hkeeps (.inr (.inr hpoint))
      have hdeparting : r.standing false ≠ .departing := fun h => by simp [hr.1 h] at hd
      have hclosed := Receiver.disconnected_step hmove hagree hanswers hpoint hdeparting
      refine receiver_point hallows hbefore hafter ?_ ?_
      · rw [hd, hd', hpointed]
      · rw [hd, hd', hobj, hclosed]
        exact .disconnected c
    | message message =>
      have hd' : g'.dropping = false := by simp [Receiver.Progress.dropping, hafter]
      obtain ⟨hfull, hclosed, hpointed⟩ := Receiver.message_step hmove hagree hanswers hpoint
      refine receiver_point hallows hbefore hafter ?_ ?_
      · rw [hd, hd', hpointed]
      · rw [hd, hd', hfull, hclosed]
        exact .receive c message
    | dropped =>
      have hd' : g'.dropping = true := Receiver.Progress.dropping_iff.mpr hafter
      obtain ⟨hstep, hpointed⟩ | ⟨hopen, hunpointed, hclosed, hpointed, b, waker, hwindow⟩ :=
        Receiver.dropped_step hmove hagree hanswers hpoint
      · refine receiver_point hallows hbefore hafter ?_ ?_
        · rw [hd, hd', hpointed]
        · rw [hd, hd']
          exact hstep
      · -- The sender's point comes first, and both fall into this access.
        have hobj : (config ss (.during c r g)).obj = .Open := by
          simp only [config, Receiver.standing, hd, hopen]
        have hbefore' : Sender.Role.pointed (Receiver.standing (.during c r g)) ss.role = false := by
          simp only [Receiver.standing, hd, hunpointed]
        obtain ⟨hdeparting, o, op, res, hsender⟩ := sender_point hs hwindow hobj hbefore'
        have hop : c.op = some (Oneshot.Op.drop_receiver : Oneshot.Op T) :=
          Receiver.Call.op_of_allows hallows
        have hreceiver : Atomic.Config.Step (A := atomic T) (midway o ss (.during c r g))
            (.point Side.receiver Oneshot.Op.drop_receiver Oneshot.Res.dropped)
            (config ss (.during c r' g')) := by
          refine .intro ?_ ?_ ?_
          · simp only [Atomic.Mark.client, config, midway, Receiver.status, hop, hbefore, hafter]
            exact .point
          · intro i hi
            cases i with
            | sender =>
              refine status_congr ?_
              simp only [Receiver.standing, hd', hpointed, hdeparting]
            | receiver => exact (hi rfl).elim
          · show Oneshot.Step _ _ _ _
            simp only [config, Receiver.standing, hd', hclosed]
            exact Receiver.final_step o
        exact .point hsender (.of_step hreceiver)

/-- The sender takes effect, with the result its call will have. -/
theorem sender_settles {c : Sender.Call T} {s s' : Sender.Role T} {g g' : Sender.Progress T}
    {op : Oneshot.Op T} (hop : c.op = some op) (hbefore : s.pointed (Receiver.standing rs) = false)
    (hafter : s'.pointed (Receiver.standing rs) = true)
    (heffect : Oneshot.Step (s.abstract (Receiver.standing rs)) op (s'.result c)
      (s'.abstract (Receiver.standing rs))) :
    Atomic.Config.Shows (config (.during c s g) rs) none (config (.during c s' g') rs) := by
  refine .of_step (m := .point .sender op (s'.result c)) (step_sender rfl ?_ ?_)
  · simp only [Sender.status, hop, hbefore, hafter]
    exact .point
  · exact heffect

/-- Away from its point the sender changes nothing. -/
theorem sender_keeps {c : Sender.Call T} {s s' : Sender.Role T} {g g' : Sender.Progress T}
    (hobj : s'.abstract (Receiver.standing rs) = s.abstract (Receiver.standing rs))
    (hpointed : s'.pointed (Receiver.standing rs) = s.pointed (Receiver.standing rs))
    (hresult : c.op.isSome = true → s'.result c = s.result c) :
    Atomic.Config.Shows (config (.during c s g) rs) none (config (.during c s' g') rs) := by
  have heq : config (.during c s' g') rs = config (.during c s g) rs := by
    refine config_eq hobj ?_ rfl
    simp only [Sender.status, hpointed]
    cases hop : c.op with
    | none => rfl
    | some op => rw [hresult (by rw [hop]; rfl)]
  rw [heq]
  exact .nothing

/-- An access of the sending side. -/
theorem sender_act {c : Sender.Call T} {s s' : Sender.Role T} {g g' : Sender.Progress T}
    {α : (interface T).Action} {x : Channel T} (hmove : s.Move α s')
    (htrack : Sender.Progress.advance c g α = some g') (hagree : Receiver.Role.Agree rs.role s x)
    (hanswers : x.Answers α.access α.resp) (hplaced : s.Placed c) :
    Atomic.Config.Shows (config (.during c s g) rs) none (config (.during c s' g') rs) := by
  obtain ⟨d, hd⟩ := Receiver.standing_role rs
  cases hmove with
  | look order v => exact sender_keeps rfl rfl fun _ => rfl
  | write message =>
    obtain ⟨rfl, _⟩ := Option.ite_none_right_eq_some.mp htrack
    exact sender_keeps rfl rfl fun _ => rfl
  | send message =>
    obtain rfl : c = .send message := hplaced
    have hstate : x.state = EMPTY := Eq.symm hanswers
    obtain ⟨_, h⟩ | ⟨hhere, _⟩ := hagree.before (.inr ⟨message, rfl⟩) d
    · simp [h] at hstate
    · refine sender_settles rfl rfl rfl ?_
      rw [hd, hhere]
      exact .send message
  | send_receiving message =>
    have hstate : x.state = RECEIVING := Eq.symm hanswers
    obtain ⟨_, h⟩ | ⟨hhere, _⟩ := hagree.before (.inr ⟨message, rfl⟩) d
    · simp [h] at hstate
    · refine sender_keeps ?_ ?_ fun _ => ?_
      · rw [hd, hhere]; rfl
      · rw [hd, hhere]; rfl
      · cases c <;> rfl
  | send_disconnected message =>
    obtain rfl : c = .send message := hplaced
    have hstate : x.state = DISCONNECTED := Eq.symm hanswers
    obtain ⟨hleft, _⟩ | ⟨_, h⟩ := hagree.before (.inr ⟨message, rfl⟩) d
    · refine sender_settles rfl rfl rfl ?_
      rw [hd, hleft]
      exact .send_error message
    · exact (h hstate).elim
  | drop =>
    obtain ⟨rfl, _⟩ := Option.ite_none_right_eq_some.mp htrack
    have hstate : x.state = EMPTY := Eq.symm hanswers
    obtain ⟨_, h⟩ | ⟨hhere, _⟩ := hagree.before (.inl rfl) d
    · simp [h] at hstate
    · refine sender_settles rfl rfl rfl ?_
      rw [hd, hhere]
      exact .drop_sender
  | drop_receiving =>
    have hstate : x.state = RECEIVING := Eq.symm hanswers
    obtain ⟨_, h⟩ | ⟨hhere, _⟩ := hagree.before (.inl rfl) d
    · simp [h] at hstate
    · refine sender_keeps ?_ ?_ fun _ => ?_
      · rw [hd, hhere]; rfl
      · rw [hd, hhere]; rfl
      · cases c <;> rfl
  | drop_disconnected =>
    obtain ⟨rfl, _⟩ := Option.ite_none_right_eq_some.mp htrack
    have hstate : x.state = DISCONNECTED := Eq.symm hanswers
    obtain ⟨hleft, _⟩ | ⟨_, h⟩ := hagree.before (.inl rfl) d
    · refine sender_settles rfl rfl rfl ?_
      rw [hd, hleft]
      exact .drop_sender_last
    · exact (h hstate).elim
  | take_waker message waker => exact sender_keeps rfl rfl fun _ => by cases c <;> rfl
  | finish message waker v =>
    obtain hdeparting | hhere := hagree.window d
    · -- The receiver was dropped in the window, and the sender's point was there.
      refine sender_keeps ?_ ?_ fun _ => ?_
      · rw [hd, hdeparting]; rfl
      · rw [hd, hdeparting]; rfl
      · cases c <;> rfl
    · obtain rfl : c = _ := hplaced
      cases message with
      | none =>
        refine sender_settles rfl (by rw [hd, hhere]; rfl) rfl ?_
        rw [hd, hhere]
        exact .drop_sender
      | some message =>
        refine sender_settles rfl (by rw [hd, hhere]; rfl) rfl ?_
        rw [hd, hhere]
        exact .send message
  | unpark | wake | free => exact sender_keeps rfl rfl fun _ => by cases c <;> rfl
  | take_back message | discard message =>
    obtain ⟨rfl, _⟩ := Option.ite_none_right_eq_some.mp htrack
    exact sender_keeps rfl rfl fun h => by cases h

theorem sender_placed_act {c : Sender.Call T} {s s' : Sender.Role T} {g g' : Sender.Progress T}
    {α : (interface T).Action} (hmove : s.Move α s')
    (htrack : Sender.Progress.advance c g α = some g') (hplaced : s.Placed c) : s'.Placed c := by
  cases hmove with
  | write message =>
    obtain ⟨rfl, _⟩ := Option.ite_none_right_eq_some.mp htrack
    rfl
  | drop | drop_receiving =>
    obtain ⟨rfl, _⟩ := Option.ite_none_right_eq_some.mp htrack
    rfl
  | send | send_receiving | take_waker | finish | unpark | wake => exact hplaced
  | _ => trivial

theorem sender_event {e : (atomic T).Event Side}
    (he : (Atomic.Mark.event e).client = .sender)
    (hstatus : Atomic.Status.Step (Sender.status (Receiver.standing rs) ss)
      (.event e : (atomic T).Mark Side) (Sender.status (Receiver.standing rs) ss'))
    (hobj : (config ss' rs).obj = (config ss rs).obj) :
    Atomic.Config.Shows (config ss rs) (some e) (config ss' rs) :=
  .of_step (m := .event e) (step_sender he hstatus hobj)

theorem receiver_event {e : (atomic T).Event Side}
    (he : (Atomic.Mark.event e).client = .receiver)
    (hstatus : Atomic.Status.Step (Receiver.status rs) (.event e : (atomic T).Mark Side)
      (Receiver.status rs'))
    (hpointed : Sender.Role.pointed (Receiver.standing rs') ss.role =
      Sender.Role.pointed (Receiver.standing rs) ss.role)
    (hobj : (config ss rs').obj = (config ss rs).obj) :
    Atomic.Config.Shows (config ss rs) (some e) (config ss rs') :=
  .of_step (m := .event e) (step_receiver he hstatus hpointed hobj)

/-- A call that is no operation changes nothing. -/
theorem sender_quiet {h : Sender.Handle} {c : Sender.Call T} {s : Sender.Role T}
    {g : Sender.Progress T} (hop : c.op = none) :
    config (.during c s g) rs = config (.between h s) rs := by
  refine config_eq rfl ?_ rfl
  simp only [Sender.status, hop]

theorem sender_call {h : Sender.Handle} {c : Sender.Call T} {s : Sender.Role T}
    {g : Sender.Progress T} (haccepts : (sender T).accepts h c = true) (hready : Sender.Ready h s) :
    Atomic.Config.Shows (config (.between h s) rs) (Label.sender (.call c)).event
      (config (.during c s g) rs) := by
  cases c with
  | send message =>
    cases h <;> cases haccepts
    cases s <;> first | exact hready.elim | skip
    exact sender_event (e := .call .sender (Oneshot.Op.send message)) rfl .call rfl
  | drop =>
    cases h <;> cases haccepts
    cases s <;> first | exact hready.elim | skip
    exact sender_event (e := .call .sender Oneshot.Op.drop_sender) rfl .call rfl
  | is_closed | into_inner | drop_error =>
    rw [sender_quiet rfl]
    exact .nothing

/-- A call returns the result it had at its point. -/
theorem sender_ret {c : Sender.Call T} {v : Sender.Ret T} {h : Sender.Handle} {s : Sender.Role T}
    {g : Sender.Progress T} (hpost : Sender.Post c v s g) :
    Atomic.Config.Shows (config (.during c s g) rs) (Label.sender (.ret c v)).event
      (config (.between h s) rs) := by
  unfold Sender.Post at hpost
  split at hpost
  case h_1 =>
    subst hpost
    exact sender_event (e := .ret .sender (Oneshot.Op.send _) Oneshot.Res.sent) rfl .ret rfl
  case h_2 =>
    subst hpost
    exact sender_event (e := .ret .sender (Oneshot.Op.send _) (Oneshot.Res.send_error _)) rfl .ret rfl
  case h_3 | h_5 | h_6 =>
    rw [sender_quiet rfl]
    exact .nothing
  case h_4 =>
    obtain rfl | rfl := hpost
    all_goals
      exact sender_event (e := .ret .sender Oneshot.Op.drop_sender Oneshot.Res.dropped) rfl .ret rfl
  case h_7 => exact hpost.elim

theorem receiver_call {h : Receiver.Handle} {c : Receiver.Call} {r : Receiver.Role T} :
    Atomic.Config.Shows (config ss (.between h r)) (Label.receiver (.call c) : Label T).event
      (config ss (.during c r ⟨none, none⟩)) := by
  cases hop : (c.op : Option (Oneshot.Op T)) with
  | none =>
    have heq : config ss (.during c r ⟨none, none⟩) = config ss (.between h r) := by
      refine config_eq rfl rfl ?_
      simp only [Receiver.status, hop]
    have hevent : (Label.receiver (.call c) : Label T).event = none := by simp [Label.event, hop]
    rw [heq, hevent]
    exact .nothing
  | some op =>
    have hevent : (Label.receiver (.call c) : Label T).event = some (.call .receiver op) := by
      simp [Label.event, hop]
    rw [hevent]
    refine receiver_event rfl ?_ rfl rfl
    simp only [Receiver.status, hop]
    exact .call

/-- A call that returns has no effect any more. -/
theorem receiver_ret {c : Receiver.Call} {v : Receiver.Ret T} {r : Receiver.Role T}
    {g : Receiver.Progress T} {x : Channel T} (hpost : Receiver.Post c v r g)
    (hagree : r.Agree ss.role x) :
    Atomic.Config.Shows (config ss (.during c r g)) (Label.receiver (.ret c v)).event
      (config ss (.between ((receiver T).after c v) r)) := by
  obtain ⟨hobj, hpointed⟩ := Receiver.ret_keeps hpost hagree
  cases hop : (c.op : Option (Oneshot.Op T)) with
  | none =>
    have heq : config ss (.between ((receiver T).after c v) r) = config ss (.during c r g) := by
      refine config_eq hobj (status_congr hpointed) ?_
      simp only [Receiver.status, hop]
    have hevent : (Label.receiver (.ret c v) : Label T).event = none := by simp [Label.event, hop]
    rw [heq, hevent]
    exact .nothing
  | some op =>
    obtain ⟨o, houtcome⟩ := hpost.outcome_of_op hop
    have hsettled : g.settled = some o := hpost.settled.trans houtcome
    have hevent : (Label.receiver (.ret c v) : Label T).event =
        some (.ret .receiver op (Receiver.res o)) := by
      simp [Label.event, hop, houtcome]
    rw [hevent]
    refine receiver_event rfl ?_ hpointed hobj
    simp only [Receiver.status, hop, hsettled]
    exact .ret

end

namespace Proto

/-- What linking the two levels needs to know of a run. -/
structure Linked (p : Proto T) (c : (atomic T).Config Side) : Prop where
  config : c = config p.sender p.receiver
  sender : Sender.Placed p.sender
  receiver : Receiver.Placed p.receiver

/-- Every step of the protocol is matched by the points that fall into it, and shows
    the same calls and returns. -/
theorem Linked.step {p p' : Proto T} {c : (atomic T).Config Side} {l : Label T}
    (hlinked : Linked p c) (hstep : Step p l p') :
    ∃ c', Atomic.Config.Shows c l.event c' ∧ Linked p' c' := by
  obtain ⟨μ, ss, rs, hagree⟩ := p
  obtain ⟨μ', ss', rs', hagree'⟩ := p'
  obtain ⟨rfl, hs, hr⟩ := hlinked
  refine ⟨oneshot.config ss' rs', ?_⟩
  cases hstep with
  | stray thread _ hsender hreceiver =>
    cases hsender; cases hreceiver
    exact ⟨.nothing, rfl, hs, hr⟩
  | sender hsession hmemory hreceiver =>
    cases hreceiver
    cases hsession with
    | call haccepts hready =>
      exact ⟨sender_call haccepts hready, rfl, Sender.placed_call haccepts hready, hr⟩
    | act hon hmove htrack =>
      obtain ⟨env, hexec⟩ := hmemory
      have hanswers := (Memory.exec_channel hexec).1
      have hmove' := Sender.Role.move_of_on hon hmove
      exact ⟨sender_act hmove' htrack hagree hanswers hs, rfl, sender_placed_act hmove' htrack hs, hr⟩
    | enter hwaits => exact hwaits.elim
    | ret hpost => exact ⟨sender_ret hpost, rfl, Sender.post_ready hpost, hr⟩
  | receiver hsession hmemory hsender =>
    cases hsender
    cases hsession with
    | call haccepts hready =>
      exact ⟨receiver_call, rfl, hs, Receiver.placed_call haccepts hready⟩
    | act hon hmove htrack =>
      obtain ⟨env, hexec⟩ := hmemory
      have hanswers := (Memory.exec_channel hexec).1
      have hmove' := Receiver.Role.move_of_on hon hmove
      exact ⟨receiver_act hmove' htrack hagree hagree' hanswers hs hr, rfl, hs,
        Receiver.placed_act hmove' htrack hr⟩
    | enter hwaits => exact ⟨.nothing, rfl, hs, hr⟩
    | ret hpost => exact ⟨receiver_ret hpost hagree, rfl, hs, trivial⟩

theorem init_linked (h : Receiver.Handle) (token : Thread → Bool) :
    (init h token : Proto T).Linked (Atomic.Config.start (atomic T) Side) := by
  refine ⟨?_, trivial, trivial⟩
  have hstatus : (Atomic.Config.start (atomic T) Side).status =
      (oneshot.config (T := T) (init h token).sender (init h token).receiver).status := by
    funext i
    cases i <;> rfl
  calc Atomic.Config.start (atomic T) Side
      = ⟨.Open, (Atomic.Config.start (atomic T) Side).status⟩ := rfl
    _ = _ := by rw [hstatus]; rfl

theorem linearizable {h : Receiver.Handle} {token : Thread → Bool} {τ : List (Label T)}
    {p : Proto T} (hrun : Run Step (init h token) τ p) :
    (atomic T).Linearizable (history τ) :=
  Atomic.linearizable_of_simulation (init_linked h token)
    (fun _ _ _ _ hlinked hstep => hlinked.step hstep) hrun

/-- The error of a failed send has the message. -/
theorem send_error_holds {h : Receiver.Handle} {token : Thread → Bool} {τ : List (Label T)}
    {σ : System T} {p : Proto T} (hrun : Run Step (init h token) τ p) (hsim : Simulates σ p)
    (herror : σ.sender = .idle .send_error) :
    ∃ message, sent τ = [message] ∧ σ.memory.channel.message = some message := by
  obtain ⟨⟨o, hsent, hcarries⟩, _⟩ := ledger_run hrun
  obtain ⟨memory, sender, receiver⟩ := σ
  obtain ⟨μ, ss, rs, hagree⟩ := p
  obtain ⟨rfl, hs, _⟩ := hsim
  obtain rfl : sender = .idle .send_error := herror
  cases hs with
  | @idle _ s hready =>
    cases s with
    | failed message =>
      obtain rfl : o = some message := hcarries.2
      exact ⟨message, hsent, Receiver.Role.Agree.of_failed hagree⟩
    | _ => exact hready.elim

end Proto

/-- A run that has come to `σ` is one of the atomic oneshot: its calls and returns
    are linearizable, and a `send` that failed has left the message in its cell. -/
structure AtomicRun (τ : List (Label T)) (σ : System T) : Prop where
  linearizable : (atomic T).Linearizable (history τ)
  send_error : σ.sender = .idle .send_error →
    ∃ message, sent τ = [message] ∧ σ.memory.channel.message = some message

theorem Proto.atomicRun {σ₀ σ : System T} {h : Receiver.Handle} {token : Thread → Bool}
    {τ : List (Label T)} (hsim : Simulates σ₀ (init h token)) (hrun : Run System.Step σ₀ τ σ) :
    AtomicRun τ σ := by
  obtain ⟨p, hp, hsim'⟩ := hsim.run hrun
  exact ⟨linearizable hp, send_error_holds hp hsim'⟩

/-- Every interleaving of the two sides of a sync channel is linearizable. -/
theorem sync_linearizable {σ : System T} {token : Thread → Bool} {τ : List (Label T)}
    (hrun : Run System.Step (System.channel T token) τ σ) : AtomicRun τ σ :=
  Proto.atomicRun (Proto.simulates_channel token) hrun

theorem sync_linearizable_timed_out :
    AtomicRun ((System.channel Nat fun _ => false).labels System.timed_out)
      ((System.channel Nat fun _ => false).reached System.timed_out) :=
  sync_linearizable (System.run_of_play (by decide))

/-- Every interleaving of the two sides of an async channel is linearizable, also
    one in which the destructor leaves its spin loop early. -/
theorem async_linearizable {σ : System T} {token : Thread → Bool} {τ : List (Label T)}
    (hrun : Run System.Step (System.async_channel T token) τ σ) : AtomicRun τ σ :=
  Proto.atomicRun (Proto.simulates_async_channel token) hrun

theorem async_linearizable_early_exit :
    AtomicRun ((System.async_channel Nat fun _ => false).labels System.early_exit)
      ((System.async_channel Nat fun _ => false).reached System.early_exit) :=
  async_linearizable (System.run_of_play (by decide))

end oneshot
