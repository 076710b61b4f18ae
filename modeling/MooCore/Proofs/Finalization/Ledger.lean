import MooCore.Proofs.Finalization.Owners
import MooCore.Proofs.Finalization.History
/-!
# The ledger of a queue

Where every value of a queue stands, between two steps of any course of work. An entry waits and
nothing happened to it, or its finalizer has been started and it is not destroyed. During a pass
some marked entries still wait for their finalizer, and some values that left the queue still wait
to be destroyed; nothing refers to those.
-/

set_option autoImplicit false
namespace MooCore.Workspace

open Heap

structure Ledger (s : SinkId) (past : List Happening) (h : Heap) (fresh done : List Value) :
    Prop where
  lawful : Lawful past
  claimed : ∀ x ∈ past, ∀ c, x.value.cell? = some c → h.Claimed c
  kind : ∀ e ∈ h.entries s, e.value.isFinalizable = true
  waiting : ∀ e ∈ h.entries s, e.finalized = false → Silent past e.value
  started : ∀ e ∈ h.entries s, e.finalized = true →
    e.value ∈ fresh ∨ (Started past e.value ∧ Undestroyed past e.value)
  marked : ∀ v ∈ fresh, Silent past v ∧ ⟨v, true⟩ ∈ h.entries s
  apart : fresh.Pairwise fun u v => u.cell? ≠ v.cell?
  finished : ∀ v ∈ done, Started past v ∧ Undestroyed past v ∧
    ∀ c, v.cell? = some c → h.Asleep c

variable {s : SinkId} {past : List Happening} {h h' : Heap} {own pin fresh done : List Value}
  {v : Value} {x : Happening}

/-! ## What two places of a queue have in common -/

theorem mentions_entries_le (b : Balanced h own pin) (c : CellId) :
    mentions c (pin ++ (h.entries s).map Entry.value) ≤ 1 := by
  have le := b.toCounted.mentions_pin_le c
  cases hs : h.queue? s with
  | none =>
    simp only [Heap.entries, hs, Option.getD_none, List.map_nil, List.append_nil]
    rw [mentions_append] at le
    omega
  | some es =>
    rw [entries_eq hs]
    have at_s : h.queues.toList[s]? = some (some es) := by
      simpa [queue?, Option.join_eq_some_iff] using hs
    have part : mentions c (es.map Entry.value) ≤ mentions c h.queued := by
      have moved := mentions_perm (queued_putQueue hs []) c
      rw [List.map_nil, List.nil_append, mentions_append] at moved
      omega
    rw [mentions_append] at le ⊢
    omega

theorem eq_of_mentions_le {es : List Entry} {e e' : Entry} {c : CellId}
    (le : mentions c (es.map Entry.value) ≤ 1) (he : e ∈ es) (he' : e' ∈ es)
    (hc : e.value.cell? = some c) (hc' : e'.value.cell? = some c) : e = e' := by
  induction es with
  | nil => cases he
  | cons a es ih =>
    rw [List.map_cons, mentions_cons] at le
    have none : ∀ f ∈ es, f.value.cell? = some c → 0 < mentions c (es.map Entry.value) :=
      fun f hf at_c => mentions_pos (List.mem_map_of_mem hf) at_c
    rcases List.mem_cons.1 he with first | rest <;> rcases List.mem_cons.1 he' with first' | rest'
    · rw [first, first']
    · have pos := none e' rest' hc'
      rw [← first, if_pos hc] at le
      omega
    · have pos := none e rest hc
      rw [← first', if_pos hc'] at le
      omega
    · exact ih (by omega) rest rest'

theorem entry_unique (b : Balanced h own pin) {e e' : Entry} {c : CellId}
    (he : e ∈ h.entries s) (he' : e' ∈ h.entries s) (hc : e.value.cell? = some c)
    (hc' : e'.value.cell? = some c) : e = e' := by
  have le := mentions_entries_le (s := s) b c
  rw [mentions_append] at le
  exact eq_of_mentions_le (by omega) he he' hc hc'

theorem entry_not_pinned (b : Balanced h own pin) {e : Entry} {c : CellId}
    (he : e ∈ h.entries s) (hv : v ∈ pin) (hc : v.cell? = some c) :
    e.value.cell? ≠ some c := by
  intro hc'
  have le := mentions_entries_le (s := s) b c
  have first := mentions_pos hv hc
  have second := mentions_pos (List.mem_map_of_mem he) hc'
  rw [mentions_append] at le
  omega

theorem mem_queued_of_entry {e : Entry} (he : e ∈ h.entries s) : e.value ∈ h.queued := by
  cases hs : h.queue? s with
  | none => simp [Heap.entries, hs] at he
  | some es =>
    rw [entries_eq hs] at he
    exact mem_queued hs he

theorem claimed_of_pinned (b : Balanced h own pin) {c : CellId} (hv : v ∈ pin ++ h.queued)
    (hc : v.cell? = some c) : h.Claimed c := by
  obtain ⟨cell, at_c, -, queued, -⟩ := b.toCounted.cell_of_pinned hv hc
  refine ⟨cell?_lt at_c, fun cell' at_c' => ?_⟩
  rw [at_c] at at_c'
  cases at_c'
  exact queued

/-! ## Time goes by -/

theorem Started.mono (started : Started past v) (more : List Happening) :
    Started (past ++ more) v := by
  rcases started with ⟨refs, hx⟩ | hx
  · exact Or.inl ⟨refs, List.mem_append_left _ hx⟩
  · exact Or.inr (List.mem_append_left _ hx)

theorem Undestroyed.snoc (kept : Undestroyed past v)
    (apart : ∀ c, v.cell? = some c → Destroys c x = false) : Undestroyed (past ++ [x]) v := by
  intro y hy c hc
  rcases List.mem_append.1 hy with hy | hy
  · exact kept y hy c hc
  · obtain rfl := List.mem_singleton.1 hy
    exact apart c hc

theorem Silent.snoc (silent : Silent past v)
    (apart : ∀ c, v.cell? = some c → x.value.cell? ≠ some c) : Silent (past ++ [x]) v := by
  refine silent.append fun y hy => ?_
  obtain rfl := List.mem_singleton.1 hy
  exact apart

theorem Ledger.empty (hs : h.entries s = []) : Ledger s [] h [] [] := by
  refine ⟨lawful_nil, ?_, ?_, ?_, ?_, ?_, List.Pairwise.nil, ?_⟩ <;> simp [hs]

/-- Work of the owners leaves the ledger as it is. -/
theorem Ledger.later (ledger : Ledger s past h fresh done) (later : Later (Held done) h h')
    (alive : ∃ es, h.queue? s = some es) : Ledger s past h' fresh done := by
  obtain ⟨es, hs⟩ := alive
  obtain ⟨new, hs', unclaimed⟩ := later.queues s es hs
  have entries' : h'.entries s = h.entries s ++ new := by rw [entries_eq hs', entries_eq hs]
  refine ⟨ledger.lawful, fun x hx c hc => later.claimed c (ledger.claimed x hx c hc), ?_, ?_, ?_, ?_,
    ledger.apart, ?_⟩
  · intro e he
    rw [entries'] at he
    rcases List.mem_append.1 he with he | he
    · exact ledger.kind e he
    · exact (unclaimed e he).2.1
  · intro e he flag
    rw [entries'] at he
    rcases List.mem_append.1 he with he | he
    · exact ledger.waiting e he flag
    · obtain ⟨-, -, c, hc, free⟩ := unclaimed e he
      intro x hx d hd hx'
      rw [hc] at hd
      cases hd
      exact free (ledger.claimed x hx c hx')
  · intro e he flag
    rw [entries'] at he
    rcases List.mem_append.1 he with he | he
    · exact ledger.started e he flag
    · rw [(unclaimed e he).1] at flag
      cases flag
  · intro v hv
    refine ⟨(ledger.marked v hv).1, ?_⟩
    rw [entries']
    exact List.mem_append_left _ (ledger.marked v hv).2
  · intro v hv
    obtain ⟨started, undestroyed, asleep⟩ := ledger.finished v hv
    exact ⟨started, undestroyed, fun c hc => later.asleep c (mentions_pos hv hc) (asleep c hc)⟩

/-! ## The steps of a pass -/

theorem beginPass_queue {es : List Entry} (hs : h.queue? s = some es) :
    (h.beginPass s).2.queue? s = some ((h.entries s).map fun e => { e with finalized := true }) := by
  rw [Heap.beginPass, queue?_putQueue hs, if_pos rfl]

theorem endPass_queue {es : List Entry} (hs : h.queue? s = some es) :
    (h.endPass s).2.queue? s = some ((h.entries s).filter fun e => !h.isDone e) := by
  rw [Heap.endPass, queue?_putQueue hs, if_pos rfl]

theorem Ledger.beginPass (ledger : Ledger s past h [] []) (b : Balanced h own pin)
    (alive : ∃ es, h.queue? s = some es) :
    Ledger s past (h.beginPass s).2 (h.beginPass s).1 [] := by
  obtain ⟨es, hs⟩ := alive
  have entries' := entries_eq (beginPass_queue hs)
  have fresh_mem : ∀ v ∈ (h.beginPass s).1, ⟨v, false⟩ ∈ h.entries s := by
    intro v hv
    obtain ⟨e, he, rfl⟩ := List.mem_map.1 hv
    obtain ⟨mem, flag⟩ := List.mem_filter.1 he
    have same : e = ⟨e.value, false⟩ := by
      cases e
      simp_all
    rwa [← same]
  refine ⟨ledger.lawful, ledger.claimed, ?_, ?_, ?_, ?_, ?_, by simp⟩
  · intro e he
    rw [entries'] at he
    obtain ⟨e, mem, rfl⟩ := List.mem_map.1 he
    exact ledger.kind e mem
  · intro e he flag
    rw [entries'] at he
    obtain ⟨e, mem, rfl⟩ := List.mem_map.1 he
    cases flag
  · intro e he _
    rw [entries'] at he
    obtain ⟨e, mem, rfl⟩ := List.mem_map.1 he
    cases flag : e.finalized with
    | true => exact Or.inr ((ledger.started e mem flag).resolve_left (by simp))
    | false =>
      refine Or.inl (List.mem_map.2 ⟨e, List.mem_filter.2 ⟨mem, ?_⟩, rfl⟩)
      simp [flag]
  · intro v hv
    refine ⟨ledger.waiting _ (fresh_mem v hv) rfl, ?_⟩
    rw [entries']
    exact List.mem_map.2 ⟨_, fresh_mem v hv, rfl⟩
  · -- the unmarked entries are among the entries, of which no two have the same cell
    have all : ∀ es : List Entry, (∀ e ∈ es, e.value.isFinalizable = true) →
        (∀ c, mentions c (es.map Entry.value) ≤ 1) →
        (((es.filter fun e => !e.finalized).map Entry.value).Pairwise
          fun u v => u.cell? ≠ v.cell?) := by
      intro es kind le
      refine List.Pairwise.sublist ((List.filter_sublist).map _) ?_
      induction es with
      | nil => exact List.Pairwise.nil
      | cons e es ih =>
        have cons : ∀ c, mentions c (es.map Entry.value) +
            (if e.value.cell? = some c then 1 else 0) ≤ 1 := by
          intro c
          have le := le c
          rwa [List.map_cons, mentions_cons] at le
        refine List.Pairwise.cons ?_ (ih (fun e he => kind e (List.mem_cons_of_mem _ he))
          fun c => by have := cons c; omega)
        intro v hv same
        obtain ⟨c, hc⟩ := Value.cell?_of_isFinalizable (kind e (by simp))
        have pos := mentions_pos hv (same ▸ hc)
        have le := cons c
        rw [if_pos hc] at le
        omega
    refine all _ ledger.kind fun c => ?_
    have le := mentions_entries_le (s := s) b c
    rw [mentions_append] at le
    omega

theorem Ledger.finalize (ledger : Ledger s past h (v :: fresh) []) (b : Balanced h own pin)
    (refs : Nat) : Ledger s (past ++ [.pass (.finalize v refs)]) h fresh [] := by
  obtain ⟨silent, mem⟩ := ledger.marked v (by simp)
  have kind := ledger.kind _ mem
  obtain ⟨apart, rest⟩ := List.pairwise_cons.1 ledger.apart
  refine ⟨ledger.lawful.snoc ⟨kind, silent⟩, ?_, ledger.kind, ?_, ?_, ?_, rest, by simp⟩
  · intro x hx c hc
    rcases List.mem_append.1 hx with hx | hx
    · exact ledger.claimed x hx c hc
    · obtain rfl := List.mem_singleton.1 hx
      exact claimed_of_pinned b (List.mem_append_right _ (mem_queued_of_entry mem)) hc
  · intro e he flag
    refine (ledger.waiting e he flag).snoc fun c hc hc' => ?_
    have same := entry_unique b he mem hc hc'
    rw [same] at flag
    cases flag
  · intro e he flag
    rcases ledger.started e he flag with hv | ⟨started, undestroyed⟩
    · rcases List.mem_cons.1 hv with hv | hv
      · refine Or.inr ⟨Or.inl ⟨refs, ?_⟩, ?_⟩
        · rw [hv]
          simp
        · rw [hv]
          exact silent.undestroyed.snoc fun _ _ => rfl
      · exact Or.inl hv
    · exact Or.inr ⟨started.mono _, undestroyed.snoc fun _ _ => rfl⟩
  · intro u hu
    obtain ⟨silent', mem'⟩ := ledger.marked u (List.mem_cons_of_mem _ hu)
    refine ⟨silent'.snoc fun c hc hc' => ?_, mem'⟩
    exact apart u hu (by rw [hc]; exact hc')

theorem Ledger.failed (ledger : Ledger s past h fresh done) {refs : Nat}
    (hx : .pass (.finalize v refs) ∈ past) (f : FinalizerFailure) :
    Ledger s (past ++ [.pass (.failed v f)]) h fresh done := by
  have quiet : ∀ u, Silent past u → Silent (past ++ [.pass (.failed v f)]) u :=
    fun u silent => silent.snoc fun c hc => silent _ hx c hc
  refine ⟨ledger.lawful.snoc ⟨refs, hx⟩, ?_, ledger.kind, ?_, ?_, ?_, ledger.apart, ?_⟩
  · intro y hy c hc
    rcases List.mem_append.1 hy with hy | hy
    · exact ledger.claimed y hy c hc
    · obtain rfl := List.mem_singleton.1 hy
      exact ledger.claimed _ hx c hc
  · exact fun e he flag => quiet _ (ledger.waiting e he flag)
  · intro e he flag
    rcases ledger.started e he flag with hv | ⟨started, undestroyed⟩
    · exact Or.inl hv
    · exact Or.inr ⟨started.mono _, undestroyed.snoc fun _ _ => rfl⟩
  · exact fun u hu => ⟨quiet u (ledger.marked u hu).1, (ledger.marked u hu).2⟩
  · intro u hu
    obtain ⟨started, undestroyed, asleep⟩ := ledger.finished u hu
    exact ⟨started.mono _, undestroyed.snoc fun _ _ => rfl, asleep⟩

theorem isDone_iff {e : Entry} :
    h.isDone e = true ↔ e.finalized = true ∧ h.refs e.value = 0 := by
  simp [isDone]

theorem asleep_of_refs (b : Balanced h own pin) {e : Entry} (he : e ∈ h.entries s)
    (zero : h.refs e.value = 0) {c : CellId} (hc : e.value.cell? = some c) : h.Asleep c := by
  have hv : e.value ∈ pin ++ h.queued := List.mem_append_right _ (mem_queued_of_entry he)
  obtain ⟨cell, at_c, -⟩ := b.toCounted.cell_of_pinned hv hc
  refine ⟨cell?_lt at_c, fun cell' at_c' => ?_⟩
  simpa [Heap.refs, refs?, cellOf?, hc, at_c'] using zero

theorem Ledger.endPass (ledger : Ledger s past h [] []) (b : Balanced h own pin)
    (alive : ∃ es, h.queue? s = some es) : Ledger s past (h.endPass s).2 [] (h.endPass s).1 := by
  obtain ⟨es, hs⟩ := alive
  have entries' := entries_eq (endPass_queue hs)
  have mem : ∀ e ∈ (h.endPass s).2.entries s, e ∈ h.entries s := by
    intro e he
    rw [entries'] at he
    exact (List.mem_filter.1 he).1
  refine ⟨ledger.lawful, ledger.claimed, fun e he => ledger.kind e (mem e he),
    fun e he => ledger.waiting e (mem e he), fun e he => ledger.started e (mem e he), by simp,
    List.Pairwise.nil, ?_⟩
  intro v hv
  obtain ⟨e, he, rfl⟩ := List.mem_map.1 hv
  obtain ⟨he, isDone⟩ := List.mem_filter.1 he
  obtain ⟨flag, zero⟩ := isDone_iff.1 isDone
  obtain ⟨started, undestroyed⟩ := (ledger.started e he flag).resolve_left (by simp)
  exact ⟨started, undestroyed, fun c hc => asleep_of_refs b he zero hc⟩

theorem refs_of_asleep (asleep : ∀ c, v.cell? = some c → h.Asleep c) : h.refs v = 0 := by
  cases hc : v.cell? with
  | none => simp [Heap.refs, refs?, cellOf?, hc]
  | some c =>
    cases at_c : h.cell? c with
    | none => simp [Heap.refs, refs?, cellOf?, hc, at_c]
    | some cell => simpa [Heap.refs, refs?, cellOf?, hc, at_c] using (asleep c hc).2 cell at_c

theorem Ledger.destroy (ledger : Ledger s past h [] (v :: done))
    (b : Balanced h own (pin ++ v :: done)) :
    Ledger s (past ++ [.pass (.destroy v (h.refs v))]) h [] done := by
  obtain ⟨started, undestroyed, asleep⟩ := ledger.finished v (by simp)
  have zero := refs_of_asleep asleep
  have elsewhere : ∀ e ∈ h.entries s, ∀ c, e.value.cell? = some c → v.cell? ≠ some c :=
    fun e he c hc hc' => entry_not_pinned b he (by simp) hc' hc
  have others : ∀ u ∈ done, ∀ c, u.cell? = some c → v.cell? ≠ some c := by
    intro u hu c hc hc'
    have le := b.toCounted.mentions_pin_le c
    have pos := mentions_pos hu hc
    rw [mentions_append, mentions_append, mentions_cons, if_pos hc'] at le
    omega
  refine ⟨ledger.lawful.snoc ⟨zero, started, undestroyed⟩, ?_, ledger.kind, ?_, ?_, by simp,
    List.Pairwise.nil, ?_⟩
  · intro x hx c hc
    rcases List.mem_append.1 hx with hx | hx
    · exact ledger.claimed x hx c hc
    · obtain rfl := List.mem_singleton.1 hx
      exact claimed_of_pinned b (v := v) (by simp) hc
  · exact fun e he flag => (ledger.waiting e he flag).snoc (elsewhere e he)
  · intro e he flag
    obtain ⟨started', undestroyed'⟩ := (ledger.started e he flag).resolve_left (by simp)
    refine Or.inr ⟨started'.mono _, undestroyed'.snoc fun c hc => ?_⟩
    simpa [Destroys] using elsewhere e he c hc
  · intro u hu
    obtain ⟨started', undestroyed', asleep'⟩ := ledger.finished u (List.mem_cons_of_mem _ hu)
    refine ⟨started'.mono _, undestroyed'.snoc fun c hc => ?_, asleep'⟩
    simpa [Destroys] using others u hu c hc

end MooCore.Workspace
