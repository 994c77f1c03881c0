import Mathlib.Data.List.Forall2
import Oneshot.Conc.Views

namespace conc

/-! One atomic location that keeps every value ever written to it, in their modification
order. A thread may read any of them, as long as it has not come across a later one: what
it has come across is what happens before its next event. -/

/-- One write to the location. -/
structure Entry (V : Type*) where
  val : V
  /-- The events that come with the value. -/
  events : Finset ℕ
  /-- The events that wrote or read it. -/
  marks : Finset ℕ
  /-- It was written by a read-modify-write that read the entry before it. -/
  chained : Bool

variable {V : Type*}

def Entry.mark (e : Entry V) (n : ℕ) : Entry V := { e with marks := insert n e.marks }

/-- The location, and what each thread has seen of the events around it. Of what a token
    brings with it there is one copy, as in `Views`. -/
structure History (ι K V : Type*) where
  time : ℕ
  view : ι → Finset ℕ
  pending : ι → Finset ℕ
  given : K → Finset ℕ
  writes : List (Entry V)

namespace SyncOp

variable {K : Type*}

def reads : SyncOp K → Bool
  | .load _ | .update _ => true
  | _ => false

def writes : SyncOp K → Bool
  | .store _ | .update _ => true
  | _ => false

end SyncOp

namespace History

variable {ι K : Type*}

/-- The location holds one value, which was there before the threads were. -/
def start (v : V) : History ι K V := ⟨0, fun _ => ∅, fun _ => ∅, fun _ => ∅, [⟨v, ∅, ∅, false⟩]⟩

/-- An event of no thread. -/
def tick (H : History ι K V) : History ι K V := { H with time := H.time + 1 }

/-- The views of a thread that finds `events` with what it reads. -/
def views (H : History ι K V) (events : Finset ℕ) : Views ι K :=
  ⟨H.time, H.view, H.pending, events, H.given⟩

/-- The views `W` of the threads, together with what was written. -/
def moved (W : Views ι K) (writes : List (Entry V)) : History ι K V :=
  ⟨W.time, W.view, W.pending, W.given, writes⟩

def latest (H : History ι K V) : Option V := H.writes.getLast?.map (·.val)

/-- What comes with the latest value. -/
def released (H : History ι K V) : Finset ℕ := (H.writes.getLast?.map (·.events)).getD ∅

/-- The views of threads that read nothing but the latest value. -/
def current (H : History ι K V) : Views ι K := H.views H.released

/-- Thread `i` has come across none of these writes. -/
def Unseen (H : History ι K V) (i : ι) (es : List (Entry V)) : Prop :=
  ∀ e ∈ es, Disjoint e.marks (H.view i)

/-- Nothing has to stay right behind the entry before these. -/
def Free (es : List (Entry V)) : Prop := ∀ e ∈ es.head?, e.chained = false

/-- One event `o` of thread `i`, which finds the value `u` and leaves `v`. A read finds any
    value that no later one is known of. A write is put behind all that the thread has
    come across, and a read-modify-write right behind what it has read. -/
inductive Step [DecidableEq ι] [DecidableEq K] (H : History ι K V) (i : ι) : SyncOp K → V → V → History ι K V → Prop where
  | load {order : MemOrder} {before after : List (Entry V)} {e : Entry V}
      (hwrites : H.writes = before ++ e :: after) (hunseen : H.Unseen i after) :
      Step H i (.load order) e.val e.val
        (moved ((H.views e.events).step i (.load order)) (before ++ e.mark H.time :: after))
  | update {order : MemOrder} {before after : List (Entry V)} {e : Entry V} (v : V)
      (hwrites : H.writes = before ++ e :: after) (hunseen : H.Unseen i after)
      (hfree : Free after) :
      Step H i (.update order) e.val v
        (moved ((H.views e.events).step i (.update order))
          (before ++ e.mark H.time ::
            ⟨v, ((H.views e.events).step i (.update order)).attached, {H.time}, true⟩ :: after))
  | store {order : MemOrder} {before after : List (Entry V)} {u : V} (v : V)
      (hwrites : H.writes = before ++ after) (hbefore : before ≠ [])
      (hunseen : H.Unseen i after) (hfree : Free after) (hu : H.latest = some u) :
      Step H i (.store order) u v
        (moved ((H.views ∅).step i (.store order))
          (before ++ ⟨v, ((H.views ∅).step i (.store order)).attached, {H.time}, false⟩ :: after))
  | other {o : SyncOp K} {u : V} (hreads : o.reads = false) (hwrites : o.writes = false)
      (hu : H.latest = some u) :
      Step H i o u u (moved (H.current.step i o) H.writes)

/-- All writes but the first are read-modify-writes, each of what is before it. -/
def Chain (H : History ι K V) : Prop := ∀ e ∈ H.writes.tail, e.chained = true

/-- The values from one that thread `i` may still read up to the latest. -/
def Sees (H : History ι K V) (i : ι) (vs : List V) : Prop :=
  ∃ e es, e :: es <:+ H.writes ∧ H.Unseen i es ∧ vs = (e :: es).map (·.val)

/-- Thread `i` can read nothing but the latest value. -/
def Informed (H : History ι K V) (i : ι) : Prop := ∀ vs, H.Sees i vs → ∃ v, vs = [v]

/-- The event `n` has written the latest value, or read it. -/
def Marked (H : History ι K V) (n : ℕ) : Prop := ∃ es e, H.writes = es ++ [e] ∧ n ∈ e.marks

/-- Thread `i` finds the latest value once it has the events `E` in view. -/
def Tells (H : History ι K V) (i : ι) (E : Finset ℕ) : Prop :=
  H.Informed i ∨ ∃ n ∈ E, H.Marked n

/-- An event that finds the latest value, and leaves the latest one. -/
structure Fresh [DecidableEq ι] [DecidableEq K] (H : History ι K V) (i : ι) (o : SyncOp K) (u v : V)
    (H' : History ι K V) : Prop where
  found : H.latest = some u
  left : H'.latest = some v
  current : H'.current = H.current.step i o
  chain : (∀ order, o ≠ .store order) → H.Chain → H'.Chain
  own : o.reads = true ∨ o.writes = true → ∀ vs, H'.Sees i vs → vs = [v]
  kept : o.writes = false → ∀ j vs, H'.Sees j vs → H.Sees j vs
  extended : o.writes = true → ∀ j vs, H'.Sees j vs →
    vs = [v] ∨ ∃ vs', H.Sees j vs' ∧ vs = vs' ++ [v]
  mark : o.reads = true ∨ o.writes = true → H'.Marked H.time
  marked : o.writes = false → ∀ n, H.Marked n → H'.Marked n

/-- A load that finds a value that was overwritten since. -/
structure Stale (H : History ι K V) (i : ι) (o : SyncOp K) (u v : V) (H' : History ι K V) :
    Prop where
  load : ∃ order, o = .load order
  same : v = u
  found : ∃ vs, vs ≠ [] ∧ H.Sees i (u :: vs) ∧ ∀ ws, H'.Sees i ws → ws <:+ u :: vs
  kept : ∀ j vs, H'.Sees j vs → H.Sees j vs
  latest : H'.latest = H.latest
  released : H'.released = H.released
  chain : H.Chain → H'.Chain
  marked : ∀ n, H.Marked n → H'.Marked n
  time : H'.time = H.time + 1
  view : ∀ j, H.view j ⊆ H'.view j
  own : H.time ∈ H'.view i
  pending : ∀ j, H.pending j ⊆ H'.pending j
  given : H'.given = H.given

section

variable {H H' : History ι K V} {i j : ι} {o : SyncOp K} {u v : V} {vs : List V}

@[simp] theorem time_moved (W : Views ι K) (es : List (Entry V)) : (moved W es).time = W.time := rfl
@[simp] theorem view_moved (W : Views ι K) (es : List (Entry V)) : (moved W es).view = W.view := rfl
@[simp] theorem pending_moved (W : Views ι K) (es : List (Entry V)) :
    (moved W es).pending = W.pending := rfl
@[simp] theorem given_moved (W : Views ι K) (es : List (Entry V)) : (moved W es).given = W.given := rfl
@[simp] theorem writes_moved (W : Views ι K) (es : List (Entry V)) : (moved W es).writes = es := rfl

@[simp] theorem time_views (events : Finset ℕ) : (H.views events).time = H.time := rfl
@[simp] theorem view_views (events : Finset ℕ) : (H.views events).view = H.view := rfl
@[simp] theorem pending_views (events : Finset ℕ) : (H.views events).pending = H.pending := rfl
@[simp] theorem given_views (events : Finset ℕ) : (H.views events).given = H.given := rfl
@[simp] theorem attached_views (events : Finset ℕ) : (H.views events).attached = events := rfl

theorem current_moved {W : Views ι K} {es : List (Entry V)}
    (hes : (moved W es : History ι K V).released = W.attached) :
    (moved W es : History ι K V).current = W := by
  rw [current, views, hes]
  rfl

theorem latest_of_writes {es : List (Entry V)} {e : Entry V} (hwrites : H.writes = es ++ [e]) :
    H.latest = some e.val ∧ H.released = e.events := by
  simp [latest, released, hwrites]

/-- What a thread sees ends with the latest value. -/
theorem Sees.last (hsees : H.Sees i vs) : vs.getLast? = H.latest := by
  obtain ⟨e, es, ⟨before, hwrites⟩, _, rfl⟩ := hsees
  simp only [latest, ← hwrites, List.map_cons, List.getLast?_append, List.getLast?_cons,
    List.getLast?_map]
  cases es.getLast? <;> simp

theorem Sees.ne_nil (hsees : H.Sees i vs) : vs ≠ [] := by
  obtain ⟨e, es, _, _, rfl⟩ := hsees
  simp

/-- Writes that are known, or known of, in no more places are seen from where they were. -/
theorem Sees.mono (hsees : H'.Sees i vs) (hview : H.view i ⊆ H'.view i)
    (hwrites : List.Forall₂ (fun e e' => e.val = e'.val ∧ e.marks ⊆ e'.marks) H.writes H'.writes) :
    H.Sees i vs := by
  obtain ⟨e', es', ⟨before, hsuffix⟩, hunseen, rfl⟩ := hsees
  rw [← hsuffix] at hwrites
  have hdrop := List.forall₂_drop_append _ _ _ hwrites
  obtain ⟨e, es, ⟨heq, _⟩, hes, hrest⟩ := List.forall₂_cons_right_iff.mp hdrop
  have hvals : ∀ {es es' : List (Entry V)},
      List.Forall₂ (fun e e' => e.val = e'.val ∧ e.marks ⊆ e'.marks) es es' →
      es.map (·.val) = es'.map (·.val) ∧ (H'.Unseen i es' → H.Unseen i es) := by
    intro es es' h
    induction h with
    | nil => exact ⟨rfl, fun _ => by simp [Unseen]⟩
    | cons he _ ih =>
      refine ⟨by simp [he.1, ih.1], fun h => List.forall_mem_cons.mpr ?_⟩
      obtain ⟨hfirst, hothers⟩ := List.forall_mem_cons.mp h
      exact ⟨(hfirst.mono_left he.2).mono_right hview, ih.2 hothers⟩
  refine ⟨e, es, ?_, (hvals hes).2 hunseen, by simp [heq, (hvals hes).1]⟩
  rw [← hrest]
  exact List.drop_suffix _ _

theorem marked_refl (es : List (Entry V)) :
    List.Forall₂ (fun e e' : Entry V => e.val = e'.val ∧ e.marks ⊆ e'.marks) es es :=
  List.forall₂_same.mpr fun _ _ => ⟨rfl, Finset.Subset.refl _⟩

theorem marked_mark (before after : List (Entry V)) (e : Entry V) (n : ℕ) :
    List.Forall₂ (fun e e' : Entry V => e.val = e'.val ∧ e.marks ⊆ e'.marks)
      (before ++ e :: after) (before ++ e.mark n :: after) := by
  refine List.rel_append (marked_refl before) (.cons ⟨rfl, ?_⟩ (marked_refl after))
  exact Finset.subset_insert _ _

/-- Of the writes before one that it knows a thread sees none. -/
theorem Sees.of_known (hsees : H.Sees i vs) {e : Entry V} {es : List (Entry V)}
    (hsuffix : e :: es <:+ H.writes) {n : ℕ} (hn : n ∈ e.marks) (hknown : n ∈ H.view i) :
    vs <:+ (e :: es).map (·.val) := by
  obtain ⟨e', es', hsuffix', hunseen, rfl⟩ := hsees
  obtain h | h := List.suffix_or_suffix_of_suffix hsuffix' hsuffix
  · exact h.map _
  · obtain heq | h := List.suffix_cons_iff.mp h
    · rw [heq]
    · have hmem : e ∈ es' := h.subset (List.mem_cons_self ..)
      exact (Finset.disjoint_left.mp (hunseen e hmem) hn hknown).elim

theorem Marked.mono {n : ℕ} (hmarked : H.Marked n)
    (hwrites : List.Forall₂ (fun e e' => e.val = e'.val ∧ e.marks ⊆ e'.marks) H.writes H'.writes) :
    H'.Marked n := by
  obtain ⟨es, e, heq, hn⟩ := hmarked
  rw [heq] at hwrites
  have hlast {es ws : List (Entry V)}
      (h : List.Forall₂ (fun e e' => e.val = e'.val ∧ e.marks ⊆ e'.marks) (es ++ [e]) ws) :
      ∃ es' e', ws = es' ++ [e'] ∧ e.marks ⊆ e'.marks := by
    induction es generalizing ws with
    | nil =>
      obtain ⟨e', _, ⟨_, he⟩, hnil, rfl⟩ := List.forall₂_cons_left_iff.mp h
      cases hnil
      exact ⟨[], e', rfl, he⟩
    | cons b es ih =>
      obtain ⟨b', ws', _, hrest, rfl⟩ := List.forall₂_cons_left_iff.mp h
      obtain ⟨es', e', rfl, he⟩ := ih hrest
      exact ⟨b' :: es', e', rfl, he⟩
  obtain ⟨es', e', heq', he⟩ := hlast hwrites
  exact ⟨es', e', heq', he hn⟩

/-- What is seen after a write at the end is that write alone, or what was seen before
    with the write after it. -/
theorem Sees.of_append (hsees : H'.Sees i vs) {es : List (Entry V)} {e : Entry V}
    (hwrites' : H'.writes = es ++ [e]) (hview : H.view i ⊆ H'.view i)
    (hwrites : List.Forall₂ (fun e e' => e.val = e'.val ∧ e.marks ⊆ e'.marks) H.writes es) :
    vs = [e.val] ∨ ∃ vs', H.Sees i vs' ∧ vs = vs' ++ [e.val] := by
  obtain ⟨e', es', ⟨before, hsuffix⟩, hunseen, rfl⟩ := hsees
  rw [hwrites'] at hsuffix
  obtain rfl | ⟨es'', e'', rfl⟩ := List.eq_nil_or_concat es'
  · obtain ⟨_, h⟩ := List.append_inj' hsuffix rfl
    cases h
    exact .inl rfl
  · rw [List.concat_eq_append, ← List.cons_append, ← List.append_assoc] at hsuffix
    obtain ⟨hes, h⟩ := List.append_inj' hsuffix rfl
    cases h
    have hold : (⟨H'.time, H'.view, H'.pending, H'.given, es⟩ : History ι K V).Sees i
        ((e' :: es'').map (·.val)) :=
      ⟨e', es'', ⟨before, hes⟩, fun e he => hunseen e (by simp [he]), rfl⟩
    exact .inr ⟨_, hold.mono hview hwrites, by simp⟩

/-- The entries behind one that a thread reads are those it has not come across. -/
theorem Informed.after {before after : List (Entry V)} {e : Entry V} (hinformed : H.Informed i)
    (hwrites : H.writes = before ++ e :: after) (hunseen : H.Unseen i after) : after = [] := by
  obtain ⟨v, hv⟩ := hinformed _ ⟨e, after, ⟨before, hwrites.symm⟩, hunseen, rfl⟩
  rw [List.map_cons] at hv
  exact List.map_eq_nil_iff.mp (List.cons.inj hv).2

theorem Chain.after {before after : List (Entry V)} {e : Entry V} (hchain : H.Chain)
    (hwrites : H.writes = before ++ e :: after) (hfree : Free after) : after = [] := by
  cases after with
  | nil => rfl
  | cons e' after =>
    have hmem : e' ∈ H.writes.tail := by
      rw [hwrites]
      cases before <;> simp
    have hlast := hfree e' rfl
    rw [hchain e' hmem] at hlast
    cases hlast

theorem chain_mark {before after : List (Entry V)} {e : Entry V} (hchain : H.Chain)
    (hwrites : H.writes = before ++ e :: after) (n : ℕ) :
    ∀ e' ∈ (before ++ e.mark n :: after).tail, e'.chained = true := by
  intro e' he'
  cases before with
  | nil =>
    refine hchain e' ?_
    rw [hwrites]
    exact he'
  | cons b before =>
    have hold : ∀ e'' ∈ before ++ e :: after, e''.chained = true := by
      intro e'' he''
      refine hchain e'' ?_
      rw [hwrites]
      exact he''
    simp only [List.cons_append, List.tail_cons, List.mem_append, List.mem_cons] at he'
    obtain h | rfl | h := he'
    · exact hold e' (by simp [h])
    · exact hold e (by simp)
    · exact hold e' (by simp [h])

/-- A thread that has just written the latest value, or read it, sees no other. -/
theorem Sees.single (hsees : H'.Sees i vs) {before : List (Entry V)} {e : Entry V}
    (hwrites' : H'.writes = before ++ [e]) {n : ℕ} (hn : n ∈ e.marks) (hknown : n ∈ H'.view i) :
    vs = [e.val] := by
  have hsuffix : [e] <:+ H'.writes := ⟨before, hwrites'.symm⟩
  obtain h | h := List.suffix_cons_iff.mp (hsees.of_known hsuffix hn hknown)
  · exact h
  · exact (hsees.ne_nil (List.suffix_nil.mp h)).elim

/-- A thread that knows who has marked the latest value can read no other. -/
theorem Marked.informed {n : ℕ} (hmarked : H.Marked n) (hknown : n ∈ H.view i) : H.Informed i := by
  obtain ⟨es, e, hwrites, hn⟩ := hmarked
  exact fun vs hsees => ⟨e.val, hsees.single hwrites hn hknown⟩

section

variable {E E' : Finset ℕ}

theorem Informed.kept (h : H.Informed j) (hkept : ∀ vs, H'.Sees j vs → H.Sees j vs) :
    H'.Informed j := fun vs hsees => h vs (hkept vs hsees)

theorem Tells.mono (h : H.Tells i E) (hsub : E ⊆ E') : H.Tells i E' :=
  h.imp id fun ⟨n, hn, hmarked⟩ => ⟨n, hsub hn, hmarked⟩

theorem Tells.informed (h : H.Tells i E) (hsub : E ⊆ H.view i) : H.Informed i := by
  obtain h | ⟨n, hn, hmarked⟩ := h
  · exact h
  · exact hmarked.informed (hsub hn)

theorem Stale.tells (h : Stale H i o u v H') (ht : H.Tells j E) : H'.Tells j E :=
  ht.imp (·.kept (h.kept j)) fun ⟨n, hn, hmarked⟩ => ⟨n, hn, h.marked n hmarked⟩

/-- Nobody who is told of the latest value finds another one. -/
theorem Stale.not_informed (h : Stale H i o u v H') : ¬ H.Informed i := by
  intro hinformed
  obtain ⟨vs, hvs, hsees, _⟩ := h.found
  obtain ⟨w, hw⟩ := hinformed _ hsees
  exact hvs (List.cons.inj hw).2

end

variable [DecidableEq ι] [DecidableEq K]

/-- After an event its thread sees it, and nobody has lost sight of anything. -/
theorem view_event (events : Finset ℕ) (es : List (Entry V)) :
    H.time ∈ (moved ((H.views events).step i o) es : History ι K V).view i ∧
      ∀ j, H.view j ⊆ (moved ((H.views events).step i o) es : History ι K V).view j :=
  ⟨Views.view_step (V := H.views events) (Finset.mem_insert_self _ _),
    fun _ => Views.view_mono (V := H.views events)⟩

theorem load_fresh {order : MemOrder} {before : List (Entry V)} {e : Entry V}
    (hwrites : H.writes = before ++ [e]) :
    Fresh H i (.load order) e.val e.val
      (moved ((H.views e.events).step i (.load order)) (before ++ [e.mark H.time])) := by
  obtain ⟨hlatest, hreleased⟩ := latest_of_writes hwrites
  have hmarked := marked_mark before [] e H.time
  rw [← hwrites] at hmarked
  refine ⟨hlatest, (latest_of_writes (writes_moved _ _)).1, ?_, ?_, ?_, ?_, by rintro ⟨⟩, ?_, ?_⟩
  · rw [current_moved, current, hreleased]
    rw [(latest_of_writes (writes_moved _ _)).2]
    simp [Views.step, Entry.mark]
  · exact fun _ hchain => chain_mark hchain hwrites _
  · exact fun _ vs hsees => hsees.single (e := e.mark H.time) (writes_moved _ _)
      (Finset.mem_insert_self _ _) (view_event _ _).1
  · exact fun _ j vs hsees => hsees.mono ((view_event _ _).2 j) hmarked
  · exact fun _ => ⟨before, e.mark H.time, rfl, Finset.mem_insert_self _ _⟩
  · exact fun _ n hn => hn.mono hmarked

/-- A load of another value than the latest. -/
theorem load_stale {order : MemOrder} {before after : List (Entry V)} {e : Entry V}
    (hwrites : H.writes = before ++ e :: after) (hunseen : H.Unseen i after) (hafter : after ≠ []) :
    Stale H i (.load order) e.val e.val
      (moved ((H.views e.events).step i (.load order)) (before ++ e.mark H.time :: after)) := by
  have hmarked := marked_mark before after e H.time
  rw [← hwrites] at hmarked
  obtain ⟨es, e', rfl⟩ : ∃ es e', after = es ++ [e'] := by
    obtain rfl | ⟨es, e', rfl⟩ := List.eq_nil_or_concat after
    · exact (hafter rfl).elim
    · exact ⟨es, e', List.concat_eq_append⟩
  have hold := latest_of_writes (show H.writes = (before ++ e :: es) ++ [e'] by simp [hwrites])
  have hnew (W : Views ι K) : (moved W (before ++ e.mark H.time :: (es ++ [e']))).writes =
      (before ++ e.mark H.time :: es) ++ [e'] := by simp
  refine ⟨⟨order, rfl⟩, rfl, ⟨(es ++ [e']).map (·.val), by simp, ?_, ?_⟩, ?_, ?_, ?_, ?_, ?_, ?_, ?_,
    ?_, ?_, ?_⟩
  · exact ⟨e, es ++ [e'], ⟨before, hwrites.symm⟩, hunseen, rfl⟩
  · exact fun ws hsees => hsees.of_known (e := e.mark H.time) ⟨before, rfl⟩
      (Finset.mem_insert_self _ _) (view_event _ _).1
  · exact fun j vs hsees => hsees.mono ((view_event _ _).2 j) hmarked
  · rw [hold.1]
    exact (latest_of_writes (hnew _)).1
  · rw [hold.2]
    exact (latest_of_writes (hnew _)).2
  · exact fun hchain => chain_mark hchain hwrites _
  · exact fun n hn => hn.mono hmarked
  · simp
  · exact (view_event _ _).2
  · exact (view_event _ _).1
  · exact fun j => Views.pending_mono (V := H.views e.events) (o := .load order)
  · simp [Views.step]

theorem update_fresh {order : MemOrder} {before : List (Entry V)} {e : Entry V} (v : V)
    (hwrites : H.writes = before ++ [e]) :
    Fresh H i (.update order) e.val v
      (moved ((H.views e.events).step i (.update order)) (before ++ [e.mark H.time,
        ⟨v, ((H.views e.events).step i (.update order)).attached, {H.time}, true⟩])) := by
  obtain ⟨hlatest, hreleased⟩ := latest_of_writes hwrites
  have hmarked := marked_mark before [] e H.time
  rw [← hwrites] at hmarked
  have happend : ∀ e', before ++ [e.mark H.time, e'] = (before ++ [e.mark H.time]) ++ [e'] := by simp
  rw [happend]
  refine ⟨hlatest, (latest_of_writes (writes_moved _ _)).1, ?_, ?_, ?_, by rintro ⟨⟩, ?_, ?_,
    by rintro ⟨⟩⟩
  · rw [current_moved, current, hreleased]
    rw [(latest_of_writes (writes_moved _ _)).2]
  · intro _ hchain e' he'
    rw [writes_moved, List.tail_append_of_ne_nil (by simp)] at he'
    obtain he' | he' := List.mem_append.mp he'
    · exact chain_mark hchain hwrites _ e' he'
    · rw [List.mem_singleton.mp he']
  · exact fun _ vs hsees =>
      hsees.single (writes_moved _ _) (Finset.mem_singleton_self _) (view_event _ _).1
  · exact fun _ j vs hsees => hsees.of_append (writes_moved _ _) ((view_event _ _).2 j) hmarked
  · exact fun _ => ⟨_, _, rfl, Finset.mem_singleton_self _⟩

theorem store_fresh {order : MemOrder} (v : V) (hu : H.latest = some u) :
    Fresh H i (.store order) u v
      (moved ((H.views ∅).step i (.store order))
        (H.writes ++ [⟨v, ((H.views ∅).step i (.store order)).attached, {H.time}, false⟩])) := by
  refine ⟨hu, (latest_of_writes (writes_moved _ _)).1, ?_, fun h => (h order rfl).elim, ?_,
    by rintro ⟨⟩, ?_, ?_, by rintro ⟨⟩⟩
  · rw [current_moved]
    · rfl
    · rw [(latest_of_writes (writes_moved _ _)).2]
  · exact fun _ vs hsees =>
      hsees.single (writes_moved _ _) (Finset.mem_singleton_self _) (view_event _ _).1
  · exact fun _ j vs hsees =>
      hsees.of_append (writes_moved _ _) ((view_event _ _).2 j) (marked_refl _)
  · exact fun _ => ⟨_, _, rfl, Finset.mem_singleton_self _⟩

/-- Every event finds the latest value and leaves its own as the latest, or loads an old
    one: provided that whoever writes knows the latest value, or that all are read-modify-writes. -/
theorem Step.fresh_or_stale (hstep : H.Step i o u v H')
    (hknown : o.writes = true → H.Informed i ∨ (H.Chain ∧ ∀ order, o ≠ .store order)) :
    Fresh H i o u v H' ∨ Stale H i o u v H' := by
  cases hstep with
  | @load order before after e hwrites hunseen =>
    by_cases hafter : after = []
    · subst hafter
      exact .inl (load_fresh hwrites)
    · exact .inr (load_stale hwrites hunseen hafter)
  | @update order before after e v hwrites hunseen hfree =>
    have hafter : after = [] := by
      obtain hinformed | ⟨hchain, _⟩ := hknown rfl
      · exact hinformed.after hwrites hunseen
      · exact hchain.after hwrites hfree
    subst hafter
    exact .inl (update_fresh v hwrites)
  | @store order before after u v hwrites hbefore hunseen hfree hu =>
    have hafter : after = [] := by
      obtain hinformed | ⟨_, hno⟩ := hknown rfl
      · obtain rfl | ⟨es, e, rfl⟩ := List.eq_nil_or_concat before
        · exact (hbefore rfl).elim
        · rw [List.concat_eq_append, List.append_assoc] at hwrites
          exact hinformed.after hwrites hunseen
      · exact (hno order rfl).elim
    subst hafter
    rw [List.append_nil] at hwrites
    rw [← hwrites]
    exact .inl (store_fresh v hu)
  | other hreads hwrites hu =>
    have hno : ¬ (o.reads = true ∨ o.writes = true) := by simp [hreads, hwrites]
    refine .inl ⟨hu, hu, ?_, fun _ hchain => hchain, fun h => (hno h).elim, ?_, by simp [hwrites],
      fun h => (hno h).elim, fun _ n hn => hn⟩
    · refine current_moved (Eq.symm ?_)
      cases o with
      | load | update => cases hreads
      | store => cases hwrites
      | _ => rfl
    · exact fun _ j vs hsees =>
        hsees.mono (Views.view_mono (V := H.current)) (marked_refl _)

theorem Fresh.view (h : Fresh H i o u v H') (j : ι) : H.view j ⊆ H'.view j := by
  have hview : H'.view = (H.current.step i o).view := congrArg Views.view h.current
  rw [hview]
  exact Views.view_mono (V := H.current)

theorem Fresh.own_view (h : Fresh H i o u v H') : H.time ∈ H'.view i := by
  have hview : H'.view = (H.current.step i o).view := congrArg Views.view h.current
  rw [hview]
  exact Views.view_step (V := H.current) (Finset.mem_insert_self _ _)

theorem Fresh.given {k : K} (h : Fresh H i o u v H') (ho : o ≠ .take k) : H.given k ⊆ H'.given k := by
  have hgiven : H'.given = (H.current.step i o).given := congrArg Views.given h.current
  rw [hgiven]
  exact Views.given_mono (V := H.current) ho

theorem Fresh.gives {k : K} (h : Fresh H i (.give k) u v H') : H.view i ⊆ H'.given k := by
  have hgiven : H'.given = (H.current.step i (.give k)).given := congrArg Views.given h.current
  rw [hgiven]
  exact Views.given_give (V := H.current)

theorem Fresh.takes {k : K} (h : Fresh H i (.take k) u v H') : H.given k ⊆ H'.view i := by
  have hview : H'.view = (H.current.step i (.take k)).view := congrArg Views.view h.current
  rw [hview]
  exact Views.view_take (V := H.current)

/-- A thread that has read the byte, or written it, finds its latest value. -/
theorem Fresh.informed (h : Fresh H i o u v H') (ho : o.reads = true ∨ o.writes = true) :
    H'.Informed i := fun vs hsees => ⟨v, h.own ho vs hsees⟩

/-- What tells a thread of the latest value goes on to do so, until another one writes. -/
theorem Fresh.tells {E : Finset ℕ} (h : Fresh H i o u v H') (hwrites : o.writes = false ∨ i = j)
    (ht : H.Tells j E) : H'.Tells j E := by
  cases ho : o.writes with
  | true =>
    obtain hno | rfl := hwrites
    · rw [ho] at hno
      cases hno
    · exact .inl (h.informed (.inr ho))
  | false =>
    exact ht.imp (·.kept (h.kept ho j)) fun ⟨n, hn, hmarked⟩ => ⟨n, hn, h.marked ho n hmarked⟩

/-- The latest value may always be found. -/
theorem exists_fresh (i : ι) (o : SyncOp K) (hu : H.latest = some u) (hv : o.writes = false → v = u) :
    ∃ H', H.Step i o u v H' ∧ H'.current = H.current.step i o ∧ H'.latest = some v := by
  obtain ⟨e, he, rfl⟩ := Option.map_eq_some_iff.mp hu
  obtain ⟨es, hwrites⟩ := List.getLast?_eq_some_iff.mp he
  have hunseen : H.Unseen i [] := by simp [Unseen]
  have hfree : Free ([] : List (Entry V)) := by simp [Free]
  cases o with
  | load order =>
    obtain rfl := hv rfl
    have hfresh : Fresh H i (.load order) _ _ _ := load_fresh hwrites
    exact ⟨_, .load hwrites hunseen, hfresh.current, hfresh.left⟩
  | update order =>
    have hfresh : Fresh H i (.update order) _ _ _ := update_fresh v hwrites
    exact ⟨_, .update v hwrites hunseen hfree, hfresh.current, hfresh.left⟩
  | store order =>
    have hfresh : Fresh H i (.store order) _ _ _ := store_fresh v hu
    refine ⟨_, .store v (List.append_nil _).symm ?_ hunseen hfree hu, hfresh.current, hfresh.left⟩
    simp [hwrites]
  | plain | fence order | give k | take k =>
    obtain rfl := hv rfl
    exact ⟨_, .other rfl rfl hu, rfl, hu⟩

end

/-- The write that a read finds when it passes over the last `n`, between those before it and
    those it passes over. -/
def pick (es : List (Entry V)) (n : ℕ) : Option (List (Entry V) × Entry V × List (Entry V)) :=
  match es.splitAt (es.length - (n + 1)) with
  | (before, e :: after) => some (before, e, after)
  | (_, []) => none

theorem pick_eq {es before after : List (Entry V)} {e : Entry V} {n : ℕ}
    (hpick : pick es n = some (before, e, after)) : es = before ++ e :: after := by
  unfold pick at hpick
  split at hpick
  · next hsplit =>
    cases hpick
    rw [List.splitAt_eq, Prod.mk.injEq] at hsplit
    rw [← hsplit.1, ← hsplit.2, List.take_append_drop]
  · cases hpick

/-- The value that such a read finds. -/
def found (H : History ι K V) (n : ℕ) : Option V := (pick H.writes n).map (·.2.1.val)

instance (H : History ι K V) (i : ι) (es : List (Entry V)) : Decidable (H.Unseen i es) :=
  inferInstanceAs (Decidable (∀ e ∈ es, Disjoint e.marks (H.view i)))

instance (es : List (Entry V)) : Decidable (Free es) :=
  inferInstanceAs (Decidable (∀ e ∈ es.head?, e.chained = false))

section

variable [DecidableEq ι] [DecidableEq K] [DecidableEq V]

/-- An event computed: a read passes over the last `n` writes, and a store is put behind all
    of them. -/
def event (H : History ι K V) (i : ι) (n : ℕ) (o : SyncOp K) (u v : V) : Option (History ι K V) :=
  match o with
  | .load order => (pick H.writes n).bind fun (before, e, after) =>
    if H.Unseen i after ∧ e.val = u ∧ v = u then
      some (moved ((H.views e.events).step i (.load order)) (before ++ e.mark H.time :: after))
    else none
  | .update order => (pick H.writes n).bind fun (before, e, after) =>
    if H.Unseen i after ∧ Free after ∧ e.val = u then
      some (moved ((H.views e.events).step i (.update order))
        (before ++ e.mark H.time ::
          ⟨v, ((H.views e.events).step i (.update order)).attached, {H.time}, true⟩ :: after))
    else none
  | .store order =>
    if H.latest = some u then
      some (moved ((H.views ∅).step i (.store order))
        (H.writes ++ [⟨v, ((H.views ∅).step i (.store order)).attached, {H.time}, false⟩]))
    else none
  | o => if H.latest = some u ∧ v = u then some (moved (H.current.step i o) H.writes) else none

theorem event_sound {H H' : History ι K V} {i : ι} {n : ℕ} {o : SyncOp K} {u v : V}
    (hevent : H.event i n o u v = some H') : H.Step i o u v H' := by
  cases o with
  | load order =>
    obtain ⟨⟨before, e, after⟩, hpick, hrest⟩ := Option.bind_eq_some_iff.mp hevent
    obtain ⟨⟨hunseen, rfl, rfl⟩, heq⟩ := Option.ite_none_right_eq_some.mp hrest
    cases heq
    exact .load (pick_eq hpick) hunseen
  | update order =>
    obtain ⟨⟨before, e, after⟩, hpick, hrest⟩ := Option.bind_eq_some_iff.mp hevent
    obtain ⟨⟨hunseen, hfree, rfl⟩, heq⟩ := Option.ite_none_right_eq_some.mp hrest
    cases heq
    exact .update v (pick_eq hpick) hunseen hfree
  | store order =>
    obtain ⟨hu, heq⟩ := Option.ite_none_right_eq_some.mp hevent
    cases heq
    refine .store v (List.append_nil _).symm ?_ (by simp [Unseen]) (by simp [Free]) hu
    rintro hnil
    simp [latest, hnil] at hu
  | plain | fence order | give k | take k =>
    obtain ⟨⟨hu, rfl⟩, heq⟩ := Option.ite_none_right_eq_some.mp hevent
    cases heq
    exact .other rfl rfl hu

end

end History

end conc
