import Oneshot.Protocol.Agreement
import Oneshot.Protocol.Moves

open conc

namespace oneshot

variable {T : Type}

/-- One channel as the protocol sees it: the memory, and for each side a session
    in which the role says what it knows. The two sides always agree. -/
structure Proto (T : Type) where
  memory : Memory T
  sender : (Sender.contract T).Session
  receiver : (Receiver.contract T).Session
  agree : Receiver.Role.Agree receiver.role sender.role memory.channel

namespace Proto

/-- The sender's role. -/
noncomputable def s (p : Proto T) : Sender.Role T := p.sender.role

/-- The receiver's role. -/
def r (p : Proto T) : Receiver.Role T := p.receiver.role

/-- What an event of one side makes of the memory. -/
def Follows {E : Endpoint (interface T)} (μ : Memory T) : E.Event → Memory T → Prop
  | .act α, μ' => μ.Acts α μ'
  | _, μ' => μ' = μ

inductive Step : Proto T → Label T → Proto T → Prop where
  | sender {p p' : Proto T} {e : (oneshot.sender T).Event}
      (hsession : Contract.Session.Step p.sender e p'.sender)
      (hmemory : Follows p.memory e p'.memory) (hreceiver : p'.receiver = p.receiver) :
      Step p (.sender e) p'
  | receiver {p p' : Proto T} {e : (oneshot.receiver T).Event}
      (hsession : Contract.Session.Step p.receiver e p'.receiver)
      (hmemory : Follows p.memory e p'.memory) (hsender : p'.sender = p.sender) :
      Step p (.receiver e) p'
  | stray {p p' : Proto T} (thread : Thread)
      (hmemory : p'.memory = p.memory.setToken thread true) (hsender : p'.sender = p.sender)
      (hreceiver : p'.receiver = p.receiver) : Step p (.stray thread) p'

/-- Where a channel starts, with the handle its receiving side is created with. -/
noncomputable def init (h : Receiver.Handle) (token : Thread → Bool) : Proto T where
  memory := ⟨Channel.new, true, token⟩
  sender := .between .sender .fresh
  receiver := .between h .idle
  agree := .inl rfl

/-- The code of both sides plays its part from where the two sessions are. -/
structure Simulates (σ : System T) (p : Proto T) : Prop where
  memory : p.memory = σ.memory
  sender : Contract.Session.Tracks σ.sender p.sender
  receiver : Contract.Session.Tracks σ.receiver p.receiver

/-- An event that is no access leaves the memory as it is. -/
theorem follows_of_step {E : Endpoint (interface T)} {st st' : E.State} {μ μ' : Memory T}
    {e : E.Event} (hstep : E.Step Memory.Acts st μ e st' μ') :
    Follows μ e μ' ∧ ((∀ α, e ≠ .act α) → μ' = μ) := by
  cases hstep with
  | act hexec => exact ⟨hexec, fun h => (h _ rfl).elim⟩
  | _ => exact ⟨rfl, fun _ => rfl⟩

/-- Every step of the system is one of the protocol. -/
theorem Simulates.step {σ σ' : System T} {p : Proto T} {l : Label T} (hsim : Simulates σ p)
    (hstep : System.Step σ l σ') : ∃ p', Step p l p' ∧ Simulates σ' p' := by
  obtain ⟨memory, sender, receiver⟩ := σ
  obtain ⟨μ, ss, rs, hagree⟩ := p
  obtain ⟨rfl, hs, hr⟩ := hsim
  cases hstep with
  | @sender e s' μ' hstep =>
    obtain ⟨hfollows, hkeep⟩ := follows_of_step hstep
    obtain ⟨ss', hsession, htracks, hagree'⟩ := hs.step hstep
      (P := fun s => Receiver.Role.Agree rs.role s μ'.channel)
      (by
        rintro α f _ hon ⟨env, hexec⟩
        obtain ⟨hanswers, hupdate⟩ := Memory.exec_channel hexec
        rw [hupdate]
        exact Sender.sound hagree hon hanswers)
      (fun hno => by rw [hkeep hno]; exact hagree)
    exact ⟨⟨μ', ss', rs, hagree'⟩, .sender hsession hfollows rfl, rfl, htracks, hr⟩
  | @receiver e r' μ' hstep =>
    obtain ⟨hfollows, hkeep⟩ := follows_of_step hstep
    obtain ⟨rs', hsession, htracks, hagree'⟩ := hr.step hstep
      (P := fun r => Receiver.Role.Agree r ss.role μ'.channel)
      (by
        rintro α f _ hon ⟨env, hexec⟩
        obtain ⟨hanswers, hupdate⟩ := Memory.exec_channel hexec
        rw [hupdate]
        exact Receiver.sound hagree hon hanswers)
      (fun hno => by rw [hkeep hno]; exact hagree)
    exact ⟨⟨μ', ss, rs', hagree'⟩, .receiver hsession hfollows rfl, rfl, hs, htracks⟩
  | stray thread =>
    exact ⟨⟨μ.setToken thread true, ss, rs, hagree⟩, .stray thread rfl rfl rfl, rfl, hs, hr⟩

/-- At the end of a completed run both sides hold nothing any more. -/
theorem Simulates.completed {σ : System T} {p : Proto T} (hsim : Simulates σ p)
    (hcompleted : σ.Completed) : (p.sender = .between .gone p.s ∧ Sender.Ready .gone p.s) ∧
      p.receiver = .between .gone p.r ∧ Receiver.Ready .gone p.r := by
  obtain ⟨memory, sender, receiver⟩ := σ
  obtain ⟨μ, ss, rs, hagree⟩ := p
  obtain ⟨_, hs, hr⟩ := hsim
  obtain ⟨rfl, rfl⟩ := hcompleted
  cases hs with
  | idle hs =>
    cases hr with
    | idle hr => exact ⟨⟨rfl, hs⟩, rfl, hr⟩

theorem simulates_channel (token : Thread → Bool) :
    Simulates (System.channel T token) (init .receiver token) :=
  ⟨rfl, .idle trivial, .idle trivial⟩

theorem simulates_async_channel (token : Thread → Bool) :
    Simulates (System.async_channel T token) (init .async_receiver token) :=
  ⟨rfl, .idle trivial, .idle trivial⟩

theorem simulates_initial {σ : System T} (hinitial : σ.Initial) :
    ∃ h token, Simulates σ (init h token) := by
  obtain ⟨token, rfl | rfl⟩ := hinitial
  · exact ⟨_, _, simulates_channel token⟩
  · exact ⟨_, _, simulates_async_channel token⟩

/-- Every run of the system is one of the protocol, with the same labels. -/
theorem Simulates.run {σ₀ σ : System T} {p₀ : Proto T} {τ : List (Label T)}
    (hsim : Simulates σ₀ p₀) (hrun : Run System.Step σ₀ τ σ) :
    ∃ p, Run Step p₀ τ p ∧ Simulates σ p := by
  have hstep (σ : System T) (p : Proto T) (l : Label T) (σ' : System T) (hsim : Simulates σ p)
      (hstep : System.Step σ l σ') : ∃ p', Step p l p' ∧ Simulates σ' p' := hsim.step hstep
  exact hrun.simulation hsim hstep

/-- What one step does to the roles and the channel: nothing, or an access that
    moves one of the two roles as its protocol says. -/
inductive Moves (p : Proto T) : Label T → Proto T → Prop where
  | still {l : Label T} {p' : Proto T} (hl : l.action = none) (hs : p'.s = p.s) (hr : p'.r = p.r)
      (hchannel : p'.memory.channel = p.memory.channel)
      (hallocated : p'.memory.allocated = p.memory.allocated)
      (htoken : ∀ thread, p.memory.token thread = true → p'.memory.token thread = true) :
      Moves p l p'
  | sender {α : (interface T).Action} {p' : Proto T} (hmove : p.s.Move α p'.s) (hr : p'.r = p.r)
      (hacts : p.memory.Acts α p'.memory) : Moves p (.sender (.act α)) p'
  | receiver {α : (interface T).Action} {p' : Proto T} (hmove : p.r.Move α p'.r) (hs : p'.s = p.s)
      (hacts : p.memory.Acts α p'.memory) : Moves p (.receiver (.act α)) p'

theorem Step.moves {p p' : Proto T} {l : Label T} (hstep : Step p l p') : Moves p l p' := by
  obtain ⟨μ, ss, rs, hagree⟩ := p
  obtain ⟨μ', ss', rs', hagree'⟩ := p'
  cases hstep with
  | sender hsession hmemory hreceiver =>
    cases hreceiver
    cases hsession with
    | act hon hmove htrack => exact .sender (Sender.Role.move_of_on hon hmove) rfl hmemory
    | call haccepts hready => cases hmemory; exact .still rfl rfl rfl rfl rfl fun _ h => h
    | enter hwaits => cases hmemory; exact .still rfl rfl rfl rfl rfl fun _ h => h
    | ret hpost => cases hmemory; exact .still rfl rfl rfl rfl rfl fun _ h => h
  | receiver hsession hmemory hsender =>
    cases hsender
    cases hsession with
    | act hon hmove htrack => exact .receiver (Receiver.Role.move_of_on hon hmove) rfl hmemory
    | call haccepts hready => cases hmemory; exact .still rfl rfl rfl rfl rfl fun _ h => h
    | enter hwaits => cases hmemory; exact .still rfl rfl rfl rfl rfl fun _ h => h
    | ret hpost => cases hmemory; exact .still rfl rfl rfl rfl rfl fun _ h => h
  | stray thread hmemory hsender hreceiver =>
    cases hmemory; cases hsender; cases hreceiver
    exact .still rfl rfl rfl rfl rfl fun _ h => Memory.token_setToken (.inl h)

end Proto

end oneshot
