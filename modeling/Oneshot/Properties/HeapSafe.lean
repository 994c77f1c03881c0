import Oneshot.Properties.Isolation

open conc

namespace oneshot.Heap

variable {T : Type} {h h' : Heap T} {τ : List (HeapLabel T)} {e : Ends T}
  {handle : Receiver.Handle}

/-- An end that was given away is held by whoever has the pointer. -/
def Given (h : Heap T) : Prop :=
  ∀ (i : Nat) (e : Ends T) (side : Side), h.ends[i]? = some e → e.raw side = true →
    e.holds side = true

theorem Given.step (hgiven : h.Given) {l : HeapLabel T} (hstep : Step h l h') : h'.Given := by
  intro i e' side he' hraw
  cases hstep.meets he' with
  | made => cases hraw
  | @own e l' σ _ he hallows hstep' =>
    have hholds := hgiven i e side he hraw
    cases side with
    | sender =>
      have hl : l'.ofSender = false := by
        cases l' with
        | sender => simp_all [allows]
        | _ => rfl
      simpa [Ends.holds, System.sender_of_other hstep' hl, view] using hholds
    | receiver =>
      have hl : l'.ofReceiver = false := by
        cases l' with
        | receiver event => cases event <;> simp_all [allows]
        | _ => rfl
      simpa [Ends.holds, System.receiver_of_other hstep' hl, view] using hholds
  | other _ he _ hsender hreceiver hkept =>
    have hholds := (hkept side hraw).elim (hgiven i _ side he) id
    cases side with
    | sender => simpa [Ends.holds, hsender] using hholds
    | receiver => simpa [Ends.holds, hreceiver] using hholds

/-- What the code that uses the heap can count on. -/
structure Safe (τ : List (HeapLabel T)) (h : Heap T) : Prop where
  /-- No step touches an allocation that was freed, or that another channel has got since. -/
  touches : ∀ (i : Nat) (e : Ends T) l h', h.ends[i]? = some e → Step h (.on i l) h' →
    l.touches = true → h.live e.channel_ptr = true ∧ frees (part i τ) = 0
  /-- An end that is held keeps its channel alive. -/
  handle : ∀ (i : Nat) (e : Ends T), h.ends[i]? = some e →
    (∃ c, e.sender = .idle c ∧ c ≠ .gone) ∨ (∃ c, e.receiver = .idle c ∧ c ≠ .gone) →
    h.live e.channel_ptr = true
  /-- No allocation outlives both ends of its channel. -/
  freed : ∀ a, h.live a = true →
    ∃ (i : Nat) (e : Ends T), h.ends[i]? = some e ∧ e.channel_ptr = a ∧ ¬ (h.view e).Completed
  /-- A raw pointer stands for one end only. -/
  raw : ∀ (i j : Nat) (e e' : Ends T) side, h.ends[i]? = some e → h.ends[j]? = some e' →
    e.raw side = true → e'.raw side = true → e.channel_ptr = e'.channel_ptr → i = j
  /-- The error of a failed `send` has the message that could not be sent. -/
  as_inner : ∀ (i : Nat) (e : Ends T), h.ends[i]? = some e → e.failed = true →
    ∃ message, Step h (.as_inner i message) h ∧ sent (part i τ) = [message]

theorem Tame.given (htame : Tame τ h) : h.Given := by
  obtain ⟨h₀, hinitial, hrun⟩ := htame
  have hrun' : Run Step h₀ τ h := hrun.elim (·.mono fun _ _ _ h => h.1) (·.1)
  refine hrun'.keeps (P := Given) (fun _ _ _ hgiven hstep => hgiven.step hstep) fun i e side he => ?_
  rw [hinitial.2] at he
  cases he

theorem idle_of_holds {e : Ends T} {side : Side} (hholds : e.holds side = true) :
    (∃ c, e.sender = .idle c ∧ c ≠ .gone) ∨ ∃ c, e.receiver = .idle c ∧ c ≠ .gone := by
  cases side with
  | sender =>
    simp only [Ends.holds] at hholds
    split at hholds
    · exact .inl ⟨.sender, ‹_›, nofun⟩
    · cases hholds
  | receiver =>
    simp only [Ends.holds] at hholds
    split at hholds
    · exact .inr ⟨.receiver, ‹_›, nofun⟩
    · cases hholds

/-- An end that is held keeps its channel from being freed. -/
theorem Projects.unfreed {τ : List (Label T)} {σ : System T} (hproj : h.Projects handle e τ σ)
    (hheld : (∃ c, e.sender = .idle c ∧ c ≠ .gone) ∨ ∃ c, e.receiver = .idle c ∧ c ≠ .gone) :
    frees τ = 0 := by
  rw [← hproj.sender, ← hproj.receiver] at hheld
  exact hproj.alone.unfreed_of_handle hheld

/-- In every run of a program with any number of channels, whose addresses are used again, no
    allocation is used after it was freed, freed twice, or leaked, and raw pointers and the
    errors of failed sends stand for what they were made of. -/
theorem heap_safe (htame : Tame τ h) : Safe τ h where
  touches i e l h' he hstep hl := by
    obtain ⟨_, σ, _, hproj⟩ := htame.sound.projects i e he
    cases hstep with
    | on he' _ hstep =>
      rw [he] at he'
      obtain rfl := Option.some.inj he'
      have hzero := hproj.alone.unfreed hproj.sender hproj.receiver hstep hl
      exact ⟨(hproj.held hzero).2, hzero⟩
  handle i e he hheld := by
    obtain ⟨_, σ, _, hproj⟩ := htame.sound.projects i e he
    exact (hproj.held (hproj.unfreed hheld)).2
  freed a ha := by
    obtain ⟨i, e, he, hptr, hzero⟩ := htame.sound.owned a ha
    refine ⟨i, e, he, hptr, fun hcompleted => ?_⟩
    obtain ⟨_, σ, _, hproj⟩ := htame.sound.projects i e he
    obtain ⟨_, p, hp, hsim⟩ := hproj.alone.proto
    have hone := (allocation_kept hp hsim).2.2
      ⟨hproj.sender.trans hcompleted.1, hproj.receiver.trans hcompleted.2⟩
    rw [hzero] at hone
    cases hone
  raw i j e e' side he he' hraw hraw' hptr := by
    have hsound := htame.sound
    obtain ⟨_, σ, _, hproj⟩ := hsound.projects i e he
    obtain ⟨_, σ', _, hproj'⟩ := hsound.projects j e' he'
    exact hsound.apart i j e e' he he'
      (hproj.unfreed (idle_of_holds (htame.given i e side he hraw)))
      (hproj'.unfreed (idle_of_holds (htame.given j e' side he' hraw'))) hptr
  as_inner i e he hfailed := by
    obtain ⟨_, σ, _, hproj⟩ := htame.sound.projects i e he
    have hidle : e.sender = .idle .send_error := by
      simp only [Ends.failed] at hfailed
      split at hfailed
      · assumption
      · cases hfailed
    obtain ⟨_, token, hrun⟩ := id hproj.alone
    have hatomic := Proto.atomicRun (hproj.alone.simulates token) (hrun.mono fun _ _ _ h => h.1)
    obtain ⟨message, hsent, hcell⟩ := hatomic.send_error (hproj.sender.trans hidle)
    refine ⟨message, .as_inner he hfailed ?_, hsent⟩
    have hzero := hproj.unfreed (.inl ⟨_, hidle, nofun⟩)
    rw [← (hproj.held hzero).1]
    exact hcell

/-- The first channel is given away, the error of the second one, at its address, is held,
    and gives its message back. -/
theorem heap_safe_reuse :
    Safe ((start Nat).labels (reuse.take 3)) ((start Nat).reached (reuse.take 3)) ∧
      Safe ((start Nat).labels (reuse.take 23)) ((start Nat).reached (reuse.take 23)) ∧
      Safe ((start Nat).labels (reuse.take 25)) ((start Nat).reached (reuse.take 25)) :=
  ⟨heap_safe (tame_of_play (by decide) (by decide)),
    heap_safe (tame_of_play (by decide) (by decide)),
    heap_safe (tame_of_play (by decide) (by decide))⟩

end oneshot.Heap
