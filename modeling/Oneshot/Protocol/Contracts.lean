import Oneshot.Protocol.Send
import Oneshot.Protocol.Sync
import Oneshot.Protocol.Async

open conc

namespace oneshot

variable {T : Type}

/-- Every call of the sending side plays the sender's part. -/
theorem Sender.code_plays {h : Sender.Handle} {c : Sender.Call T} {s : Sender.Role T}
    (haccepts : (sender T).accepts h c = true) (hs : Sender.Ready h s) :
    Sender.Plays c ((sender T).code c) s ⟨none, none⟩ (Sender.Post c) := by
  cases c with
  | send message =>
    cases h <;> cases s <;> try contradiction
    refine keeps_bind.mpr (Sender.send_plays.mono ?_)
    rintro (_ | _) s' g h <;> exact h
  | is_closed =>
    cases h <;> cases s <;> try contradiction
    exact keeps_bind.mpr (Sender.is_closed_plays.mono fun _ _ _ h => h)
  | drop =>
    cases h <;> cases s <;> try contradiction
    exact keeps_bind.mpr (Sender.drop_plays.mono fun _ _ _ h => h)
  | into_inner =>
    cases h <;> cases s <;> try contradiction
    exact keeps_bind.mpr (Sender.into_inner_plays.mono fun _ _ _ h => h)
  | drop_error =>
    cases h <;> cases s <;> try contradiction
    exact keeps_bind.mpr ((Sender.drop_error_plays rfl).mono fun _ _ _ h => h)

theorem Sender.post_ready {c : Sender.Call T} {v : Sender.Ret T} {s : Sender.Role T}
    {g : Sender.Progress T} (hpost : Sender.Post c v s g) :
    Sender.Ready ((sender T).after c v) s := by
  unfold Sender.Post at hpost
  split at hpost
  · subst hpost; trivial
  · subst hpost; trivial
  · obtain ⟨rfl, _⟩ := hpost; trivial
  · obtain rfl | rfl := hpost <;> trivial
  · obtain ⟨rfl, _⟩ := hpost; trivial
  · obtain ⟨rfl, _⟩ := hpost; trivial
  · exact hpost.elim

/-- What the protocol asks of the sending side. -/
noncomputable def Sender.contract (T : Type) : Contract (sender T) where
  auto := Sender.protocol T
  Ghost := Sender.Progress T
  start := ⟨none, none⟩
  track := Sender.Progress.advance
  Ready := Sender.Ready
  Post := Sender.Post
  code_follows := Sender.code_plays
  post_ready := Sender.post_ready

/-- A call that settles on an outcome before it returns does what its contract
    asks. -/
theorem Receiver.settles_post {α : Type} {c : Receiver.Call} {p : Code T α} {r : Receiver.Role T}
    {out : α → Receiver.Outcome T} {h : Receiver.Handle} {wrap : α → Receiver.Ret T}
    (hplays : Receiver.Plays c p r ⟨none, none⟩ (Receiver.Settles out h))
    (hpost : ∀ v r g, Receiver.Settles out h v r g → Receiver.Post c (wrap v) r g) :
    Receiver.Plays c (do return wrap (← p)) r ⟨none, none⟩ (Receiver.Post c) :=
  keeps_bind.mpr (hplays.mono hpost)

/-- Every call of the receiving side plays the receiver's part. -/
theorem Receiver.code_plays {h : Receiver.Handle} {c : Receiver.Call} {r : Receiver.Role T}
    (haccepts : (receiver T).accepts h c = true) (hr : Receiver.Ready h r) :
    Receiver.Plays c ((receiver T).code c) r ⟨none, none⟩ (Receiver.Post c) := by
  cases c with
  | try_recv =>
    cases h <;> try contradiction
    exact settles_post (try_recv_plays hr) fun _ _ _ h => ⟨h.1, _, rfl, h.2⟩
  | recv current =>
    cases h <;> try contradiction
    refine keeps_bind.mpr ((recv_plays hr).mono ?_)
    rintro v r g ⟨⟨content, rfl⟩, hsettled⟩
    exact ⟨trivial, ⟨content, rfl⟩, hsettled⟩
  | recv_ref current =>
    cases h <;> try contradiction
    exact settles_post (recv_ref_plays rfl hr)
      fun _ _ _ h => ⟨h.1, _, rfl, h.2⟩
  | recv_timeout current timeout =>
    cases h <;> try contradiction
    exact settles_post (recv_timeout_plays rfl rfl hr)
      fun _ _ _ h => ⟨h.1, _, rfl, h.2⟩
  | recv_deadline current deadline =>
    cases h <;> try contradiction
    exact settles_post (recv_deadline_plays rfl rfl hr)
      fun _ _ _ h => ⟨h.1, _, rfl, h.2⟩
  | is_closed =>
    cases h <;> try contradiction
    exact keeps_bind.mpr ((observer_plays rfl (by simp) hr (.inr rfl)).mono fun _ _ _ h => h)
  | has_message =>
    cases h <;> try contradiction
    exact keeps_bind.mpr ((observer_plays rfl (by simp) hr (.inl rfl)).mono fun _ _ _ h => h)
  | drop =>
    cases h <;> try contradiction
    exact settles_post (drop_plays hr) fun _ _ _ h => ⟨h.1, _, rfl, h.2⟩
  | into_future =>
    cases h <;> try contradiction
    cases r <;> try contradiction
    · exact ⟨trivial, rfl⟩
    · exact ⟨hr, rfl⟩
  | poll cx =>
    cases h <;> try contradiction
    refine keeps_bind.mpr ((poll_plays hr).mono fun v r g h => ?_)
    cases v with
    | Ready result => exact ⟨h.1.1, _, rfl, h.1.2⟩
    | Pending => exact ⟨h.1.1, h.1.2, h.2 rfl⟩
  | async_is_closed =>
    cases h <;> try contradiction
    exact keeps_bind.mpr ((observer_plays rfl (by simp) hr (.inr rfl)).mono fun _ _ _ h => h)
  | async_has_message =>
    cases h <;> try contradiction
    exact keeps_bind.mpr ((observer_plays rfl (by simp) hr (.inl rfl)).mono fun _ _ _ h => h)
  | async_drop =>
    cases h <;> try contradiction
    exact settles_post (async_drop_plays hr) fun _ _ _ h => ⟨h.1, _, rfl, h.2⟩

/-- What the protocol asks of the receiving side. -/
def Receiver.contract (T : Type) : Contract (receiver T) where
  auto := Receiver.protocol T
  Ghost := Receiver.Progress T
  start := ⟨none, none⟩
  track := Receiver.Progress.advance
  Ready := Receiver.Ready
  Post := Receiver.Post
  code_follows := Receiver.code_plays
  post_ready h := h.1

end oneshot
