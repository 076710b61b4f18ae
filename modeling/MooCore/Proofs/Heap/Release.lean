import MooCore.Proofs.Heap.Balance
/-!
# Letting go

Giving up references one after another, where a cell that is freed by it adds its contents to what
is still to be given up. Every release is such a fall, so what holds of single steps holds of
releases. Balance is kept, and nothing that waits in a queue is disturbed.
-/

set_option autoImplicit false
namespace MooCore.Heap

/-! ## What stays as time goes by -/

/-- The cell has used up its place in a queue, whether it is still there or not. -/
def Claimed (h : Heap) (c : CellId) : Prop :=
  c < h.cells.size ∧ ∀ cell, h.cell? c = some cell → cell.queued = true

/-- Nothing refers to the cell. -/
def Asleep (h : Heap) (c : CellId) : Prop :=
  c < h.cells.size ∧ ∀ cell, h.cell? c = some cell → cell.refs = 0

/-- What a queue is given when a value is queued for the first time. -/
def Unclaimed (h : Heap) (e : Entry) : Prop :=
  e.finalized = false ∧ e.value.isFinalizable = true ∧
    ∃ c, e.value.cell? = some c ∧ ¬ h.Claimed c

/-- How a heap may change while its owners work: cells keep their values until they go, claims are
not taken back, cells that are meant to sleep do, and queues only grow, by values never queued
before. -/
structure Later (still : CellId → Prop) (h h' : Heap) : Prop where
  grown : h.cells.size ≤ h'.cells.size
  old : ∀ c cell', c < h.cells.size → h'.cell? c = some cell' →
    ∃ cell, h.cell? c = some cell ∧ cell'.value = cell.value
  claimed : ∀ c, h.Claimed c → h'.Claimed c
  asleep : ∀ c, still c → h.Asleep c → h'.Asleep c
  queues : ∀ s es, h.queue? s = some es →
    ∃ new, h'.queue? s = some (es ++ new) ∧ ∀ e ∈ new, h.Unclaimed e

variable {many : Prop} {still : CellId → Prop} {h h' h'' : Heap} {own pin : List Value}

theorem Later.refl (h : Heap) : Later still h h where
  grown := Nat.le_refl _
  old c cell' _ hc := ⟨cell', hc, rfl⟩
  claimed _ hc := hc
  asleep _ _ hc := hc
  queues _ es hs := ⟨[], by rw [List.append_nil, hs], by simp⟩

theorem Later.overdraw (h : Heap) : Later still h h.overdraw := by
  obtain ⟨grown, old, claimed, asleep, queues⟩ : Later still h h := Later.refl h
  exact ⟨grown, old, claimed, asleep, queues⟩

theorem Later.trans (first : Later still h h') (second : Later still h' h'') :
    Later still h h'' := by
  refine ⟨Nat.le_trans first.grown second.grown, ?_, ?_, ?_, ?_⟩
  · intro c cell'' lt hc
    obtain ⟨cell', hc', same'⟩ := second.old c cell'' (Nat.lt_of_lt_of_le lt first.grown) hc
    obtain ⟨cell, hc, same⟩ := first.old c cell' lt hc'
    exact ⟨cell, hc, same'.trans same⟩
  · exact fun c hc => second.claimed c (first.claimed c hc)
  · exact fun c sc hc => second.asleep c sc (first.asleep c sc hc)
  · intro s es hs
    obtain ⟨new, hs', fresh⟩ := first.queues s es hs
    obtain ⟨new', hs'', fresh'⟩ := second.queues s _ hs'
    refine ⟨new ++ new', by rw [hs'', List.append_assoc], fun e he => ?_⟩
    rcases List.mem_append.1 he with he | he
    · exact fresh e he
    · obtain ⟨flag, kind, c, hc, unclaimed⟩ := fresh' e he
      exact ⟨flag, kind, c, hc, fun claimed => unclaimed (first.claimed c claimed)⟩

theorem Later.put {c : CellId} {old cell : Cell} (hc : h.cell? c = some old)
    (value : cell.value = old.value) (queued : old.queued = true → cell.queued = true)
    (refs : still c → old.refs = 0 → cell.refs = 0) : Later still h (h.put c cell) := by
  refine ⟨by rw [size_put], ?_, ?_, ?_, fun s es hs => ⟨[], by simp [hs], by simp⟩⟩
  · intro d cell' _ hd
    rw [cell?_put hc] at hd
    split at hd
    · rename_i e
      subst e
      cases hd
      exact ⟨old, hc, value⟩
    · exact ⟨cell', hd, rfl⟩
  · rintro d ⟨lt, claimed⟩
    refine ⟨by rwa [size_put], fun cell' hd => ?_⟩
    rw [cell?_put hc] at hd
    split at hd
    · rename_i e
      subst e
      cases hd
      exact queued (claimed old hc)
    · exact claimed cell' hd
  · rintro d sd ⟨lt, asleep⟩
    refine ⟨by rwa [size_put], fun cell' hd => ?_⟩
    rw [cell?_put hc] at hd
    split at hd
    · rename_i e
      subst e
      cases hd
      exact refs sd (asleep old hc)
    · exact asleep cell' hd

theorem Later.erase {c : CellId} {old : Cell} (hc : h.cell? c = some old) :
    Later still h (h.erase c) := by
  have alive : ∀ d cell', (h.erase c).cell? d = some cell' → h.cell? d = some cell' := by
    intro d cell' hd
    rw [cell?_erase hc] at hd
    split at hd
    · cases hd
    · exact hd
  refine ⟨by rw [size_erase], ?_, ?_, ?_, fun s es hs => ⟨[], by simp [hs], by simp⟩⟩
  · exact fun d cell' _ hd => ⟨cell', alive d cell' hd, rfl⟩
  · exact fun d ⟨lt, claimed⟩ =>
      ⟨by rwa [size_erase], fun cell' hd => claimed cell' (alive d cell' hd)⟩
  · exact fun d _ ⟨lt, asleep⟩ =>
      ⟨by rwa [size_erase], fun cell' hd => asleep cell' (alive d cell' hd)⟩

theorem Later.alloc (h : Heap) (make : CellId → Value) : Later still h (h.alloc make).2 := by
  have alive : ∀ d cell', d < h.cells.size → (h.alloc make).2.cell? d = some cell' →
      h.cell? d = some cell' := by
    intro d cell' lt hd
    rwa [cell?_alloc, if_neg (Nat.ne_of_lt lt)] at hd
  refine ⟨by rw [size_alloc]; exact Nat.le_succ _, ?_, ?_, ?_,
    fun s es hs => ⟨[], by simp [hs], by simp⟩⟩
  · exact fun d cell' lt hd => ⟨cell', alive d cell' lt hd, rfl⟩
  · exact fun d ⟨lt, claimed⟩ => ⟨by rw [size_alloc]; exact Nat.lt_succ_of_lt lt,
      fun cell' hd => claimed cell' (alive d cell' lt hd)⟩
  · exact fun d _ ⟨lt, asleep⟩ => ⟨by rw [size_alloc]; exact Nat.lt_succ_of_lt lt,
      fun cell' hd => asleep cell' (alive d cell' lt hd)⟩

theorem Later.push {s : SinkId} {es : List Entry} {e : Entry} (hs : h.queue? s = some es)
    (fresh : h.Unclaimed e) : Later still h (h.putQueue s (es ++ [e])) := by
  refine ⟨Nat.le_refl _, fun c cell' _ hc => ⟨cell', hc, rfl⟩, fun _ hc => hc, fun _ _ hc => hc,
    ?_⟩
  intro t es' ht
  rw [queue?_putQueue hs]
  split
  · rename_i e'
    subst e'
    rw [hs] at ht
    cases ht
    exact ⟨[e], rfl, by simpa using fresh⟩
  · exact ⟨[], by simp [ht], by simp⟩

theorem unclaimed_of_cell {v : Value} {c : CellId} {cell : Cell}
    (kind : v.isFinalizable = true) (hv : v.cell? = some c) (hc : h.cell? c = some cell)
    (fresh : cell.queued = false) : h.Unclaimed ⟨v, false⟩ := by
  refine ⟨rfl, kind, c, hv, fun claimed => ?_⟩
  rw [claimed.2 cell hc] at fresh
  cases fresh

/-! ## Sharing, claims and pins -/

theorem modify_eq {v : Value} {c : CellId} {cell : Cell} (hv : v.cell? = some c)
    (hc : h.cell? c = some cell) (f : Cell → Cell) : h.modify v f = h.put c (f cell) := by
  simp only [modify, hv, adjust, hc]

theorem modify_scalar {v : Value} (hv : v.cell? = none) (f : Cell → Cell) : h.modify v f = h := by
  simp only [modify, hv]

theorem share_balanced (b : Weighed many h own pin) {v : Value}
    (hv : v ∈ (own ++ h.inside) ++ (pin ++ h.queued)) :
    Weighed many (h.share v) (v :: own) pin := by
  cases cv : v.cell? with
  | none =>
    rw [share, modify_scalar cv]
    exact b.plain cv
  | some c =>
    obtain ⟨cell, at_c, rfl⟩ := b.present v hv c cv
    rw [share, modify_eq cv at_c]
    have refs := b.refs c cell at_c
    have counted : Counted many (h.put c { cell with refs := cell.refs + 1 })
        (cell.value :: own) pin := by
      refine b.toCounted.put at_c rfl (fun u hu => (List.mem_cons.1 hu).symm)
        (fun u hu => Or.inl hu) (fun d ne => mentions_cons_ne cv ne own) (fun _ _ => rfl) ?_
        (b.pins c cell at_c) (b.claimed c cell at_c)
      rw [List.cons_append, mentions_cons, if_pos cv, ← refs]
    refine Weighed.of_keptBut counted ((b.keptBut c).put at_c _) fun cell' hc' => ?_
    rw [cell?_put at_c, if_pos rfl] at hc'
    cases hc'
    exact Nat.lt_of_lt_of_le (Nat.succ_pos _) (Nat.le_add_right _ _)

theorem share_later {v : Value}
    (awake : ∀ c, v.cell? = some c → still c → ∃ cell, h.cell? c = some cell ∧ 0 < cell.refs) :
    Later still h (h.share v) := by
  cases cv : v.cell? with
  | none =>
    rw [share, modify_scalar cv]
    exact Later.refl h
  | some c =>
    cases hc : h.cell? c with
    | none =>
      simp only [share, modify, cv, adjust, hc]
      exact Later.refl h
    | some cell =>
      rw [share, modify_eq cv hc]
      refine Later.put hc rfl id fun sc zero => ?_
      obtain ⟨cell', hc', pos⟩ := awake c cv sc
      rw [hc] at hc'
      cases hc'
      omega

theorem claim_ok (b : Weighed many h own pin) {v : Value}
    (hv : v ∈ (own ++ h.inside) ++ (pin ++ h.queued)) (granted : h.claim v = .ok h') :
    ∃ c cell, v.cell? = some c ∧ h.cell? c = some cell ∧ cell.value = v ∧ cell.queued = false ∧
      v.isFinalizable = true ∧
        h' = h.put c { cell with queued := true, pins := cell.pins + 1 } := by
  unfold claim at granted
  split at granted
  · rename_i finalizable
    obtain ⟨c, cv⟩ := Value.cell?_of_isFinalizable finalizable
    obtain ⟨cell, at_c, value⟩ := b.present v hv c cv
    split at granted
    · cases granted
    · rename_i unqueued
      cases granted
      have fresh : cell.queued = false := by
        simpa [isQueued, cellOf?, cv, at_c] using unqueued
      exact ⟨c, cell, cv, at_c, value, fresh, finalizable, modify_eq cv at_c _⟩
  · cases granted

theorem claim_balanced (b : Weighed many h own pin) {v : Value}
    (hv : v ∈ (own ++ h.inside) ++ (pin ++ h.queued)) (granted : h.claim v = .ok h') :
    Weighed many h' own (v :: pin) := by
  obtain ⟨c, cell, cv, at_c, rfl, fresh, -, rfl⟩ := claim_ok b hv granted
  exact b.pinned at_c rfl rfl rfl rfl (Or.inl (b.toCounted.unpinned at_c fresh))

theorem claim_later (b : Weighed many h own pin) {v : Value}
    (hv : v ∈ (own ++ h.inside) ++ (pin ++ h.queued)) (granted : h.claim v = .ok h') :
    Later still h h' := by
  obtain ⟨c, cell, cv, at_c, value, fresh, -, rfl⟩ := claim_ok b hv granted
  exact Later.put at_c rfl (fun _ => rfl) fun _ zero => zero

theorem entries_eq {s : SinkId} {es : List Entry} (hs : h.queue? s = some es) :
    h.entries s = es := by
  simp only [entries, hs, Option.getD_some]

theorem pushEntry_balanced {s : SinkId} {es : List Entry} {e : Entry}
    (b : Weighed many h own (e.value :: pin)) (hs : h.queue? s = some es) :
    Weighed many (h.pushEntry s e) own pin := by
  rw [pushEntry, entries_eq hs]
  refine b.requeue rfl rfl (putQueue_moved hs ?_)
  rw [List.map_append, ← List.append_assoc]
  exact List.perm_append_comm

theorem enqueue_ok (b : Weighed many h own pin) {s : SinkId} {es : List Entry} {v : Value}
    (hv : v ∈ (own ++ h.inside) ++ (pin ++ h.queued)) (hs : h.queue? s = some es)
    (granted : h.enqueue s v = .ok h') : Weighed many h' own pin ∧ Later still h h' := by
  unfold enqueue at granted
  cases claimed : h.claim v with
  | error e =>
    rw [claimed] at granted
    cases granted
  | ok mid =>
    rw [claimed] at granted
    cases granted
    obtain ⟨c, cell, cv, at_c, value, fresh, kind, rfl⟩ := claim_ok b hv claimed
    refine ⟨pushEntry_balanced (claim_balanced b hv claimed) (by simpa using hs), ?_⟩
    change Later still h ((h.put c _).pushEntry s ⟨v, false⟩)
    have queue : (h.put c { cell with queued := true, pins := cell.pins + 1 }).queue? s =
        some es := hs
    rw [pushEntry, entries_eq queue]
    have pushed : Later still h (h.putQueue s (es ++ [⟨v, false⟩])) :=
      Later.push hs (unclaimed_of_cell kind cv at_c fresh)
    have same : (h.putQueue s (es ++ [⟨v, false⟩])).cell? c = some cell := at_c
    exact pushed.trans (Later.put same rfl (fun _ => rfl) fun _ zero => zero)

/-! ## One reference less -/

theorem handOff_counted (k : Counted many h own pin) {v : Value} {c : CellId} {cell : Cell}
    (hc : h.cell? c = some cell) (same : cell.value = v) (but : h.KeptBut c) :
    Counted many (h.handOff v c cell) own pin ∧ (h.handOff v c cell).KeptBut c ∧
      ∃ cell', (h.handOff v c cell).cell? c = some cell' ∧ cell'.value = v := by
  unfold handOff
  split
  · exact ⟨k, but, cell, hc, same⟩
  · rename_i s _
    split
    · exact ⟨k, but, cell, hc, same⟩
    · rename_i es hs
      split
      · exact ⟨k, but, cell, hc, same⟩
      · rename_i unqueued
        subst same
        have fresh : cell.queued = false := by simpa using unqueued
        have claimed : Counted many (h.put c { cell with queued := true, pins := cell.pins + 1 })
            own (cell.value :: pin) :=
          k.pinned hc rfl rfl rfl rfl (Or.inl (k.unpinned hc fresh))
        have queue : (h.put c { cell with queued := true, pins := cell.pins + 1 }).queue? s =
            some es := hs
        refine ⟨claimed.requeue rfl rfl (putQueue_moved queue ?_), ?_,
          { cell with queued := true, pins := cell.pins + 1 }, ?_, rfl⟩
        · rw [List.map_append, ← List.append_assoc]
          exact List.perm_append_comm
        · exact but.put hc _
        · rw [cell?_putQueue, cell?_put hc, if_pos rfl]

theorem handOff_later {v : Value} {c : CellId} {cell : Cell} (hv : v.cell? = some c)
    (hc : h.cell? c = some cell) : Later still h (h.handOff v c cell) := by
  unfold handOff
  split
  · exact Later.refl h
  · rename_i s sink
    split
    · exact Later.refl h
    · rename_i es hs
      split
      · exact Later.refl h
      · rename_i unqueued
        have fresh : cell.queued = false := by simpa using unqueued
        have pushed : Later still h (h.putQueue s (es ++ [⟨v, false⟩])) :=
          Later.push hs (unclaimed_of_cell (Value.isFinalizable_of_sink? sink) hv hc fresh)
        have same : (h.putQueue s (es ++ [⟨v, false⟩])).cell? c = some cell := hc
        exact pushed.trans (Later.put same rfl (fun _ => rfl) fun _ zero => zero)

def spill (freed : Bool) (v : Value) : List Value := if freed then v.children else []

theorem reap_balanced (k : Counted many h own pin) {c : CellId} {cell : Cell}
    (hc : h.cell? c = some cell) (but : h.KeptBut c) :
    Weighed many (h.reap c).2 (spill (h.reap c).1 cell.value ++ own) pin := by
  simp only [reap, hc]
  split
  · rename_i idle
    exact k.erase hc idle.1 idle.2 but
  · rename_i busy
    refine Weighed.of_keptBut k but fun cell' hc' => ?_
    rw [hc] at hc'
    cases hc'
    omega

theorem reap_later (h : Heap) (c : CellId) : Later still h (h.reap c).2 := by
  cases hc : h.cell? c with
  | none =>
    simp only [reap, hc]
    exact Later.refl h
  | some cell =>
    simp only [reap, hc]
    split
    · exact Later.erase hc
    · exact Later.refl h

theorem dropRef_balanced {v : Value} {c : CellId} (b : Weighed many h (v :: own) pin)
    (hv : v.cell? = some c) :
    Weighed many (h.dropRef v c).2 (spill (h.dropRef v c).1 v ++ own) pin := by
  obtain ⟨cell, hc, value, pos⟩ := b.toCounted.cell_of_owned (v := v) (by simp) hv
  have refs := b.refs c cell hc
  rw [List.cons_append, mentions_cons, if_pos hv] at refs
  have own_else : ∀ d, d ≠ c → mentions d own = mentions d (v :: own) :=
    fun d ne => (mentions_cons_ne hv ne own).symm
  simp only [dropRef, hc]
  rw [if_neg (Nat.ne_of_gt pos)]
  split
  · have counted : Counted many (h.put c { cell with refs := 0 }) own pin :=
      b.toCounted.put hc rfl (fun u hu => Or.inl (List.mem_cons_of_mem _ hu))
        (fun u hu => Or.inl hu) own_else (fun _ _ => rfl) (by change 0 = _; omega)
        (b.pins c cell hc) (b.claimed c cell hc)
    have at_c : (h.put c { cell with refs := 0 }).cell? c = some { cell with refs := 0 } := by
      rw [cell?_put hc, if_pos rfl]
    obtain ⟨counted', but', cell', hc', rfl⟩ :=
      handOff_counted counted at_c value ((b.keptBut c).put hc _)
    exact reap_balanced counted' hc' but'
  · rename_i more
    let left : Cell :=
      { cell with refs := cell.refs - 1, color := if v.mayCycle then .purple else cell.color }
    have counted : Counted many (h.put c left) own pin :=
      b.toCounted.put hc rfl (fun u hu => Or.inl (List.mem_cons_of_mem _ hu))
        (fun u hu => Or.inl hu) own_else (fun _ _ => rfl) (by change cell.refs - 1 = _; omega)
        (b.pins c cell hc) (b.claimed c cell hc)
    refine Weighed.of_keptBut counted ((b.keptBut c).put hc _) fun cell' hc' => ?_
    rw [cell?_put hc, if_pos rfl] at hc'
    cases hc'
    change 0 < (cell.refs - 1) + cell.pins
    omega

theorem dropRef_later (h : Heap) {v : Value} {c : CellId} (hv : v.cell? = some c) :
    Later still h (h.dropRef v c).2 := by
  cases hc : h.cell? c with
  | none =>
    simp only [dropRef, hc]
    exact Later.overdraw h
  | some cell =>
    simp only [dropRef, hc]
    split
    · exact Later.overdraw h
    · rename_i some_left
      split
      · have zeroed : Later still h (h.put c { cell with refs := 0 }) :=
          Later.put hc rfl id fun _ _ => rfl
        have at_c : (h.put c { cell with refs := 0 }).cell? c = some { cell with refs := 0 } := by
          rw [cell?_put hc, if_pos rfl]
        exact (zeroed.trans (handOff_later hv at_c)).trans (reap_later _ c)
      · exact Later.put hc rfl id fun _ zero => absurd zero some_left

/-! ## Falling -/

/-- Giving up references in order, with what falls out of freed cells first. -/
inductive Falls : Heap → List Value → Heap → Prop
  | done (h : Heap) : Falls h [] h
  | scalar {h h' : Heap} {v : Value} {vs : List Value} (hv : v.cell? = none)
      (rest : Falls h vs h') : Falls h (v :: vs) h'
  | drop {h h' : Heap} {v : Value} {c : CellId} {vs : List Value} (hv : v.cell? = some c)
      (rest : Falls (h.dropRef v c).2 (spill (h.dropRef v c).1 v ++ vs) h') : Falls h (v :: vs) h'

theorem releasePairs_eq (h : Heap) (kvs : List (Value × Value)) :
    h.releasePairs kvs = h.releaseAll (kvs.flatMap fun (k, v) => [k, v]) := by
  induction kvs generalizing h with
  | nil => simp only [releasePairs, List.flatMap_nil, releaseAll]
  | cons kv kvs ih =>
    simp only [releasePairs, List.flatMap_cons, List.cons_append, List.nil_append, releaseAll]
    exact ih _

theorem release_scalar {v : Value} (hv : v.cell? = none) : h.release v = h := by
  cases v <;> first | rfl | cases hv

theorem releaseAll_spill (made : Bool × Heap) (v : Value) :
    (match made with
      | (true, h) => releaseAll h v.children
      | (false, h) => h) = made.2.releaseAll (spill made.1 v) := by
  obtain ⟨_ | _, h⟩ := made <;> simp [spill, releaseAll]

theorem release_eq {v : Value} {c : CellId} (hv : v.cell? = some c) :
    h.release v = (h.dropRef v c).2.releaseAll (spill (h.dropRef v c).1 v) := by
  cases v with
  | none | int _ | float _ | obj _ | err _ => cases hv
  | str d s =>
    cases hv
    simp only [release, spill, Value.children, ite_self, releaseAll]
  | list d xs =>
    cases hv
    simp only [release]
    exact releaseAll_spill _ (.list c xs)
  | map d kvs =>
    cases hv
    simp only [release, releasePairs_eq]
    exact releaseAll_spill _ (.map c kvs)
  | anon d s id parent =>
    cases hv
    simp only [release, spill, Value.children, ite_self, releaseAll]
  | waif d s id cls owner ps =>
    cases hv
    simp only [release]
    exact releaseAll_spill _ (.waif c s id cls owner ps)

theorem Falls.of_releaseAll {vs ws : List Value}
    (each : ∀ v ∈ vs, ∀ (h h' : Heap) (us : List Value),
      Falls (h.release v) us h' → Falls h (v :: us) h')
    (rest : Falls (h.releaseAll vs) ws h') : Falls h (vs ++ ws) h' := by
  induction vs generalizing h with
  | nil =>
    simp only [releaseAll] at rest
    exact rest
  | cons v vs ih =>
    simp only [releaseAll] at rest
    exact each v (by simp) _ _ _ (ih (fun u hu => each u (List.mem_cons_of_mem _ hu)) rest)

theorem Falls.of_release {v : Value} {vs : List Value} (rest : Falls (h.release v) vs h') :
    Falls h (v :: vs) h' := by
  induction v using Value.children_induction generalizing h h' vs with
  | step v ih =>
    cases hv : v.cell? with
    | none =>
      rw [release_scalar hv] at rest
      exact Falls.scalar hv rest
    | some c =>
      rw [release_eq hv] at rest
      refine Falls.drop hv (Falls.of_releaseAll (fun u hu h h' us => ?_) rest)
      refine ih u ?_
      unfold spill at hu
      split at hu
      · exact hu
      · cases hu

theorem release_falls (h : Heap) (v : Value) : Falls h [v] (h.release v) :=
  Falls.of_release (Falls.done _)

theorem releaseAll_falls (h : Heap) (vs : List Value) : Falls h vs (h.releaseAll vs) := by
  have falls : Falls h (vs ++ []) (h.releaseAll vs) :=
    Falls.of_releaseAll (fun _ _ _ _ _ => Falls.of_release) (Falls.done _)
  rwa [List.append_nil] at falls

theorem Falls.balanced {vs : List Value} (falls : Falls h vs h')
    (b : Weighed many h (vs ++ own) pin) : Weighed many h' own pin := by
  induction falls with
  | done => exact b
  | scalar hv _ ih => exact ih (Weighed.vanish b hv)
  | drop hv _ ih =>
    refine ih ?_
    rw [List.append_assoc]
    exact dropRef_balanced b hv

theorem Falls.later {vs : List Value} (falls : Falls h vs h') : Later still h h' := by
  induction falls with
  | done h => exact Later.refl h
  | scalar _ _ ih => exact ih
  | drop hv _ ih => exact (dropRef_later _ hv).trans ih

theorem release_balanced {v : Value} (b : Weighed many h (v :: own) pin) :
    Weighed many (h.release v) own pin :=
  (release_falls h v).balanced b

theorem releaseAll_balanced {vs : List Value} (b : Weighed many h (vs ++ own) pin) :
    Weighed many (h.releaseAll vs) own pin :=
  (releaseAll_falls h vs).balanced b

theorem release_later (h : Heap) (v : Value) : Later still h (h.release v) :=
  (release_falls h v).later

theorem releaseAll_later (h : Heap) (vs : List Value) : Later still h (h.releaseAll vs) :=
  (releaseAll_falls h vs).later

/-! ## One pin less -/

def unpin (h : Heap) (c : CellId) : Bool × Heap :=
  (h.adjust c fun cell => { cell with pins := cell.pins - 1 }).reap c

theorem dropPin_eq (h : Heap) {v : Value} {c : CellId} (hv : v.cell? = some c) :
    h.dropPin v = (h.unpin c).2.releaseAll (spill (h.unpin c).1 v) := by
  simp only [dropPin, hv, unpin]
  exact releaseAll_spill _ v

theorem unpin_none {c : CellId} (hc : h.cell? c = none) : h.unpin c = (false, h) := by
  simp only [unpin, adjust, hc, reap]

theorem unpin_eq {c : CellId} {cell : Cell} (hc : h.cell? c = some cell) :
    h.unpin c = if cell.refs = 0 ∧ cell.pins ≤ 1 then (true, h.erase c)
      else (false, h.put c { cell with pins := cell.pins - 1 }) := by
  have at_c : (h.put c { cell with pins := cell.pins - 1 }).cell? c =
      some { cell with pins := cell.pins - 1 } := by
    rw [cell?_put hc, if_pos rfl]
  simp only [unpin, adjust, hc, reap, at_c, erase_put]
  refine if_congr ?_ rfl rfl
  omega

theorem unpin_counted {v : Value} {c : CellId} {cell : Cell} (b : Weighed many h own (v :: pin))
    (hv : v.cell? = some c) (hc : h.cell? c = some cell) :
    Counted many (h.put c { cell with pins := cell.pins - 1 }) own pin := by
  have pins := b.pins c cell hc
  rw [List.cons_append, mentions_cons, if_pos hv] at pins
  refine b.toCounted.put hc rfl (fun u hu => Or.inl hu)
    (fun u hu => Or.inl (List.mem_cons_of_mem _ hu)) (fun _ _ => rfl)
    (fun d ne => (mentions_cons_ne hv ne pin).symm) (b.refs c cell hc) ?_ ?_
  · change cell.pins - 1 = _
    omega
  · obtain ⟨queued, single⟩ := b.claimed c cell hc
    exact ⟨fun pos => queued (Nat.lt_of_lt_of_le pos (Nat.sub_le _ _)),
      single.imp_left fun one => (Nat.sub_le _ _).trans one⟩

theorem unpin_balanced {v : Value} {c : CellId} (b : Weighed many h own (v :: pin))
    (hv : v.cell? = some c) :
    Weighed many (h.unpin c).2 (spill (h.unpin c).1 v ++ own) pin := by
  obtain ⟨cell, hc, rfl, -⟩ := b.toCounted.cell_of_held (v := v) (by simp) hv
  have at_c : (h.put c { cell with pins := cell.pins - 1 }).cell? c =
      some { cell with pins := cell.pins - 1 } := by
    rw [cell?_put hc, if_pos rfl]
  have rest := reap_balanced (unpin_counted b hv hc) at_c ((b.keptBut c).put hc _)
  rw [unpin, adjust, hc]
  exact rest

theorem unpin_later (h : Heap) (c : CellId) : Later still h (h.unpin c).2 := by
  cases hc : h.cell? c with
  | none =>
    rw [unpin_none hc]
    exact Later.refl h
  | some cell =>
    rw [unpin_eq hc]
    split
    · exact Later.erase hc
    · exact Later.put hc rfl id fun _ zero => zero

theorem dropPin_balanced {v : Value} (b : Weighed many h own (v :: pin)) :
    Weighed many (h.dropPin v) own pin := by
  cases hv : v.cell? with
  | none =>
    simp only [dropPin, hv]
    refine ⟨⟨?_, b.refs, ?_, b.claimed, b.named, b.older, b.solvent⟩, b.kept⟩
    · intro u hu
      refine b.present u ?_
      simp only [List.mem_append, List.cons_append, List.mem_cons] at hu ⊢
      tauto
    · intro c cell hc
      rw [b.pins c cell hc, List.cons_append, mentions_cons, hv]
      simp
  | some c =>
    rw [dropPin_eq h hv]
    exact releaseAll_balanced (unpin_balanced b hv)

theorem dropPin_later (h : Heap) (v : Value) : Later still h (h.dropPin v) := by
  cases hv : v.cell? with
  | none =>
    simp only [dropPin, hv]
    exact Later.refl h
  | some c =>
    rw [dropPin_eq h hv]
    exact (unpin_later h c).trans (releaseAll_later _ _)

/-! ## Queues that go -/

def closeQueue (h : Heap) (s : SinkId) : Heap :=
  { h with queues := h.queues.setIfInBounds s none }

theorem closeQueue_moved {s : SinkId} {es : List Entry} (hs : h.queue? s = some es)
    (pin : List Value) :
    ((es.map Entry.value ++ pin) ++ (h.closeQueue s).queued).Perm (pin ++ h.queued) := by
  have at_s : h.queues.toList[s]? = some (some es) := by
    simpa [queue?, Option.join_eq_some_iff] using hs
  have left : h.queued.Perm (es.map Entry.value ++ (h.closeQueue s).queued) := by
    simpa [queued, entriesOf, closeQueue] using flatMap_set_perm entriesOf at_s none
  rw [List.append_assoc]
  exact (List.perm_append_comm_assoc _ _ _).trans (left.symm.append_left pin)

end MooCore.Heap
