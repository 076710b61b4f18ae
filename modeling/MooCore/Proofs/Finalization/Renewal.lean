import MooCore.Proofs.Finalization.Restart
import MooCore.Proofs.Value.Canonical
/-!
# A queue taken in again

A value with nothing to merge is built of new cells only, and what else is in the heap stays as it
is. The value of an entry is claimed before the reader's reference goes, so it is queued by the
reader and not by its release; what is inside it is bound to the queue but not in it. A claim is
never taken back, so no release at any later time queues the value again.
-/

set_option autoImplicit false
namespace MooCore.Heap

variable {s : SinkId} {sink : Option SinkId} {h h' h'' : Heap}

/-! ## Building without merging -/

theorem length_members (kvs : List (Value × Value)) :
    (Value.members kvs).length = 2 * kvs.length := by
  induction kvs with
  | nil => rfl
  | cons kv kvs ih =>
    rw [Value.members_cons, List.length_cons, List.length_cons, ih, List.length_cons]
    omega

theorem insertPairs_none {kvs : List (Value × Value)}
    (all : (insertPairs [] kvs).1.length = kvs.length) : (insertPairs [] kvs).2 = [] := by
  have length := (insertPairs_perm [] kvs).length_eq
  rw [List.length_append, List.length_append, length_members, length_members, length_members, all,
    List.length_nil] at length
  exact List.eq_nil_of_length_eq_zero (by omega)

/-- Cells are added that nobody has claimed, those of finalizable values bound to a queue, and
nothing else happens. -/
structure Extends (sink : Option SinkId) (h h' : Heap) : Prop where
  queues : h'.queues = h.queues
  grown : h.cells.size ≤ h'.cells.size
  old : ∀ c < h.cells.size, h'.cell? c = h.cell? c
  fresh : ∀ c cell, h.cells.size ≤ c → h'.cell? c = some cell →
    cell.queued = false ∧ (cell.value.isFinalizable = true → cell.value.sink? = sink)

theorem Extends.refl (h : Heap) : Extends sink h h :=
  ⟨rfl, Nat.le_refl _, fun _ _ => rfl, fun _ _ le hc => absurd (cell?_lt hc) (Nat.not_lt.2 le)⟩

theorem Extends.trans (first : Extends sink h h') (second : Extends sink h' h'') :
    Extends sink h h'' := by
  refine ⟨second.queues.trans first.queues, first.grown.trans second.grown, ?_, ?_⟩
  · intro c lt
    rw [second.old c (lt.trans_le first.grown), first.old c lt]
  · intro c cell le hc
    by_cases inner : c < h'.cells.size
    · rw [second.old c inner] at hc
      exact first.fresh c cell le hc
    · exact second.fresh c cell (Nat.not_lt.1 inner) hc

theorem Extends.alloc (parts : Extends sink h h') (make : CellId → Value)
    (sunk : (make h'.cells.size).isFinalizable = true → (make h'.cells.size).sink? = sink) :
    Extends sink h (h'.alloc make).2 := by
  refine parts.trans ⟨rfl, by rw [size_alloc]; exact Nat.le_succ _, ?_, ?_⟩
  · intro c lt
    rw [cell?_alloc, if_neg (Nat.ne_of_lt lt)]
  · intro c cell le hc
    rw [cell?_alloc] at hc
    split at hc
    · cases hc
      exact ⟨rfl, sunk⟩
    · exact absurd (cell?_lt hc) (Nat.not_lt.2 le)

theorem Extends.newMap {kvs : List (Value × Value)} (parts : Extends sink h h')
    (all : (insertPairs [] kvs).1.length = kvs.length) : Extends sink h (h'.newMap kvs).2 := by
  have stays : h'.releaseAll (insertPairs [] kvs).2 = h' := by rw [insertPairs_none all, releaseAll]
  have made := parts.alloc (fun c => .map c (insertPairs [] kvs).1) fun kind => by cases kind
  rw [← stays] at made
  exact made

mutual

theorem build_extends (sink : Option SinkId) (h : Heap) (t : Shape) (settled : t.merged = t) :
    Extends sink h (h.build sink t).2 := by
  cases t with
  | none | int _ | float _ | obj _ | err _ => exact Extends.refl h
  | str t => exact (Extends.refl h).alloc (fun c => .str c t) fun kind => nomatch kind
  | list xs =>
    exact (buildAll_extends sink h xs (Shape.list.inj settled)).alloc (fun c => .list c _)
      fun kind => nomatch kind
  | map kvs =>
    have pairs : Shape.insertPairs [] (Shape.mergedPairs kvs) = kvs := Shape.map.inj settled
    have inner : Shape.mergedPairs kvs = kvs := by
      have kept := (Shape.insertPairs_length [] (Shape.mergedPairs kvs)).2 (by
        rw [pairs, Shape.mergedPairs_length, List.length_nil, Nat.zero_add])
      rwa [kept] at pairs
    -- Built keys are in different cells, so they are merged by their shapes, which are all apart.
    refine (buildPairs_extends sink h kvs inner).newMap ?_
    have shapes : Value.pairShapes (insertPairs [] (h.buildPairs sink kvs).1).1 =
        Value.pairShapes (h.buildPairs sink kvs).1 := by
      rw [insertPairs_shapes (by simp) (buildPairs_apart sink h kvs), buildPairs_shapes, inner]
      rw [inner] at pairs
      exact pairs
    have length := congrArg List.length shapes
    rwa [Value.pairShapes_eq_map, Value.pairShapes_eq_map, List.length_map, List.length_map]
      at length
  | anon id parent =>
    exact (Extends.refl h).alloc (fun c => .anon c sink id parent) fun _ => rfl
  | waif id cls owner ps =>
    exact (buildAll_extends sink h ps (Shape.waif.inj settled).2.2.2).alloc
      (fun c => .waif c sink id cls owner _) fun _ => rfl

theorem buildAll_extends (sink : Option SinkId) (h : Heap) (xs : List Shape)
    (settled : Shape.mergedAll xs = xs) : Extends sink h (h.buildAll sink xs).2 := by
  cases xs with
  | nil => exact Extends.refl h
  | cons x xs =>
    obtain ⟨first, rest⟩ := List.cons.inj settled
    exact (build_extends sink h x first).trans (buildAll_extends sink _ xs rest)

theorem buildPairs_extends (sink : Option SinkId) (h : Heap) (kvs : List (Shape × Shape))
    (settled : Shape.mergedPairs kvs = kvs) : Extends sink h (h.buildPairs sink kvs).2 := by
  cases kvs with
  | nil => exact Extends.refl h
  | cons kv kvs =>
    obtain ⟨first, rest⟩ := List.cons.inj settled
    obtain ⟨key, value⟩ := Prod.mk.inj first
    exact ((build_extends sink h kv.1 key).trans (build_extends sink _ kv.2 value)).trans
      (buildPairs_extends sink _ kvs rest)

end

/-! ## One entry -/

theorem release_claimed {v : Value} {c : CellId} {cell : Cell} (hv : v.cell? = some c)
    (hc : h.cell? c = some cell) (last : cell.refs = 1) (queued : cell.queued = true)
    (pinned : 0 < cell.pins) : h.release v = h.put c { cell with refs := 0 } := by
  have at_c : (h.put c { cell with refs := 0 }).cell? c = some { cell with refs := 0 } := by
    rw [cell?_put hc, if_pos rfl]
  have stays : (h.put c { cell with refs := 0 }).handOff v c { cell with refs := 0 } =
      h.put c { cell with refs := 0 } := by
    unfold handOff
    split
    · rfl
    · split
      · rfl
      · rw [if_pos queued]
  have dropped : h.dropRef v c = (false, h.put c { cell with refs := 0 }) := by
    simp only [dropRef, hc, last, Nat.one_ne_zero, if_false, if_true]
    rw [stays, reap_pinned at_c pinned]
  rw [release_eq hv, dropped]
  simp only [spill, Bool.false_eq_true, if_false, releaseAll]

theorem build_cell (h : Heap) {t : Shape} {x : UInt64} (hx : t.id? = some x) :
    ∃ c, (h.build (some s) t).1.cell? = some c ∧ h.cells.size ≤ c ∧
      (h.build (some s) t).1.sink? = some s ∧
      (h.build (some s) t).2.cell? c = some (Cell.fresh (h.build (some s) t).1) := by
  obtain ⟨-, fresh⟩ := build_fresh (s := s) h hx
  have between := (build_between (some s) h t).2
  cases t with
  | none | int _ | float _ | obj _ | err _ | str _ | list _ | map _ => cases hx
  | anon id parent => exact ⟨_, rfl, (between _ (List.mem_cons_self ..)).1, rfl, fresh⟩
  | waif id cls owner ps => exact ⟨_, rfl, (between _ (List.mem_cons_self ..)).1, rfl, fresh⟩

/-- An entry that came back: the flag, the kind, the number and the contents are those it had, no
reference to it is left, it cannot be claimed again, and it is bound to the queue. -/
structure CameBack (s : SinkId) (h : Heap) (e e' : Entry) : Prop where
  flag : e'.finalized = e.finalized
  contents : e'.value.shape = e.value.shape.canonical
  unreferenced : h.refs? e'.value = some 0
  claimed : h.isQueued e'.value = true
  attached : e'.value.sink? = some s

/-- The queue gets some entries more. Their values and all that is in them stand in new cells, and
are bound to the queue without being in it, but for the values of the entries. -/
structure TakesIn (s : SinkId) (es new : List Entry) (h h' : Heap) : Prop where
  queue : h'.queue? s = some (h.entries s ++ new)
  back : List.Forall₂ (CameBack s h') es new
  elsewhere : ∀ t, t ≠ s → h'.queue? t = h.queue? t
  grown : h.cells.size ≤ h'.cells.size
  old : ∀ c < h.cells.size, h'.cell? c = h.cell? c
  inside : ∀ e ∈ new, ∀ c ∈ e.value.cells, h.cells.size ≤ c ∧ c < h'.cells.size
  fresh : ∀ c cell, h.cells.size ≤ c → h'.cell? c = some cell →
    (cell.value.isFinalizable = true → cell.value.sink? = some s) ∧
      (cell.queued = true → ∃ e ∈ new, e.value.cell? = some c)

variable {e e' : Entry} {es fs new more : List Entry}

theorem CameBack.cell (back : CameBack s h e e') :
    ∃ c cell, e'.value.cell? = some c ∧ h.cell? c = some cell ∧ cell.queued = true := by
  have claimed := back.claimed
  unfold isQueued cellOf? at claimed
  cases hv : e'.value.cell? with
  | none => simp [hv] at claimed
  | some c =>
    cases hc : h.cell? c with
    | none => simp [hv, hc] at claimed
    | some cell => exact ⟨c, cell, rfl, hc, by simpa [hv, hc] using claimed⟩

theorem CameBack.mono (back : CameBack s h e e')
    (old : ∀ c < h.cells.size, h'.cell? c = h.cell? c) : CameBack s h' e e' := by
  obtain ⟨c, cell, hv, hc, -⟩ := back.cell
  have same : h'.cellOf? e'.value = h.cellOf? e'.value := by
    simp only [cellOf?, hv, Option.bind_some, old c (cell?_lt hc)]
  refine ⟨back.flag, back.contents, ?_, ?_, back.attached⟩
  · rw [refs?, same]
    exact back.unreferenced
  · rw [isQueued, same]
    exact back.claimed

theorem TakesIn.nil (alive : ∃ es, h.queue? s = some es) : TakesIn s [] [] h h := by
  obtain ⟨es, hs⟩ := alive
  exact ⟨by rw [entries_eq hs, hs, List.append_nil], .nil, fun _ _ => rfl, Nat.le_refl _,
    fun _ _ => rfl, by simp, fun _ _ le hc => absurd (cell?_lt hc) (Nat.not_lt.2 le)⟩

theorem TakesIn.trans (first : TakesIn s es new h h') (second : TakesIn s fs more h' h'') :
    TakesIn s (es ++ fs) (new ++ more) h h'' := by
  refine ⟨?_, ?_, fun t ne => (second.elsewhere t ne).trans (first.elsewhere t ne),
    first.grown.trans second.grown, ?_, ?_, ?_⟩
  · rw [second.queue, entries_eq first.queue, List.append_assoc]
  · exact List.rel_append (first.back.imp fun _ _ back => back.mono second.old) second.back
  · intro c lt
    rw [second.old c (lt.trans_le first.grown), first.old c lt]
  · intro e he c hc
    rcases List.mem_append.1 he with he | he
    · exact (first.inside e he c hc).imp_right fun lt => lt.trans_le second.grown
    · exact (second.inside e he c hc).imp_left first.grown.trans
  · intro c cell le hc
    by_cases inner : c < h'.cells.size
    · rw [second.old c inner] at hc
      obtain ⟨sunk, queued⟩ := first.fresh c cell le hc
      exact ⟨sunk, fun hq => (queued hq).imp fun e found => ⟨List.mem_append_left _ found.1, found.2⟩⟩
    · obtain ⟨sunk, queued⟩ := second.fresh c cell (Nat.not_lt.1 inner) hc
      exact ⟨sunk, fun hq =>
        (queued hq).imp fun e found => ⟨List.mem_append_right _ found.1, found.2⟩⟩

/-- An entry whose value comes back with its contents, and with nothing to merge. -/
structure Renewable (e : Entry) : Prop where
  kind : e.value.isFinalizable = true
  echo : e.value.shape.echo = e.value.shape.canonical
  settled : e.value.shape.canonical.merged = e.value.shape.canonical

def takenCell (v : Value) : Cell := { Cell.fresh v with refs := 0, pins := 1, queued := true }

theorem renew_eq {c : CellId} {v : Value} {mid : Heap}
    (made : h.build (some s) e.value.shape.echo = (v, mid)) (hv : v.cell? = some c)
    (hc : mid.cell? c = some (Cell.fresh v)) :
    h.renew s e = (mid.put c (takenCell v)).pushEntry s ⟨v, e.finalized⟩ := by
  let held : Cell := { Cell.fresh v with queued := true, pins := 1 }
  have claimed : mid.modify v (fun cell => { cell with queued := true, pins := cell.pins + 1 }) =
      mid.put c held := modify_eq hv hc _
  have at_c : (mid.put c held).cell? c = some held := by rw [cell?_put hc, if_pos rfl]
  have released : (mid.put c held).release v = mid.put c (takenCell v) := by
    rw [release_claimed hv at_c rfl rfl Nat.one_pos, put_put]
    rfl
  rw [renew, made]
  dsimp only
  rw [claimed, released]

theorem renew_takesIn (alive : ∃ es, h.queue? s = some es) (able : Renewable e) :
    ∃ e', TakesIn s [e] [e'] h (h.renew s e) := by
  obtain ⟨es, hs⟩ := alive
  obtain ⟨x, hx⟩ := Option.isSome_iff_exists.1 able.kind
  have id : e.value.shape.echo.id? = some x := by
    rw [Shape.echo_id?, Value.shape_id?, hx]
  have built : Extends (some s) h (h.build (some s) e.value.shape.echo).2 :=
    build_extends (some s) h e.value.shape.echo (by rw [able.echo, able.settled])
  have shape : (h.build (some s) e.value.shape.echo).1.shape = e.value.shape.canonical := by
    rw [build_shape, able.echo, able.settled]
  have between := (build_between (some s) h e.value.shape.echo).2
  obtain ⟨c, hv, le, sink, hc⟩ := build_cell (s := s) h id
  cases made : h.build (some s) e.value.shape.echo with
  | mk v mid =>
    rw [made] at built shape between hv sink hc
    have queue : (mid.put c (takenCell v)).queue? s = some es := by
      rw [queue?_put, queue?, built.queues]
      exact hs
    have cells := cell?_put hc (takenCell v)
    rw [renew_eq made hv hc, pushEntry, entries_eq queue]
    -- What is in `c` is the only cell that was touched after the value was built.
    refine ⟨⟨v, e.finalized⟩, ?_, .cons ⟨rfl, shape, ?_, ?_, sink⟩ .nil, ?_, ?_, ?_, ?_, ?_⟩
    · rw [queue?_putQueue queue, if_pos rfl, entries_eq hs]
    · simp only [refs?, cellOf?, hv, Option.bind_some, cell?_putQueue, cells, if_true,
        Option.map_some]
      rfl
    · simp only [isQueued, cellOf?, hv, Option.bind_some, cell?_putQueue, cells, if_true,
        Option.any_some]
      rfl
    · intro t ne
      rw [queue?_putQueue queue, if_neg ne, queue?_put, queue?, built.queues, queue?]
    · rw [size_putQueue, size_put]
      exact built.grown
    · intro d lt
      rw [cell?_putQueue, cells, if_neg (Nat.ne_of_lt (lt.trans_le le))]
      exact built.old d lt
    · intro f hf
      obtain rfl := List.mem_singleton.1 hf
      rw [size_putQueue, size_put]
      exact between
    · intro d cell later hd
      rw [cell?_putQueue, cells] at hd
      split at hd
      · rename_i same
        cases hd
        exact ⟨fun _ => sink, fun _ => ⟨_, List.mem_singleton_self _, by rw [same]; exact hv⟩⟩
      · obtain ⟨free, sunk⟩ := built.fresh d cell later hd
        exact ⟨sunk, fun queued => absurd queued (by rw [free]; decide)⟩

theorem renewAll_takesIn (alive : ∃ es, h.queue? s = some es) (able : ∀ e ∈ es, Renewable e) :
    ∃ new, TakesIn s es new h (h.renewAll s es) := by
  induction es generalizing h with
  | nil => exact ⟨[], TakesIn.nil alive⟩
  | cons e es ih =>
    obtain ⟨e', first⟩ := renew_takesIn alive (able e (List.mem_cons_self ..))
    obtain ⟨new, rest⟩ := ih ⟨_, first.queue⟩ fun f hf => able f (List.mem_cons_of_mem _ hf)
    exact ⟨e' :: new, first.trans rest⟩

/-! ## No second time -/

mutual

theorem build_later (still : CellId → Prop) (sink : Option SinkId) (h : Heap) (t : Shape) :
    Later still h (h.build sink t).2 := by
  cases t with
  | none | int _ | float _ | obj _ | err _ => exact Later.refl h
  | str t => exact Later.alloc h fun c => .str c t
  | list xs => exact (buildAll_later still sink h xs).trans (Later.alloc _ fun c => .list c _)
  | map kvs =>
    exact (buildPairs_later still sink h kvs).trans
      ((releaseAll_later _ _).trans (Later.alloc _ fun c => .map c _))
  | anon id parent => exact Later.alloc h fun c => .anon c sink id parent
  | waif id cls owner ps =>
    exact (buildAll_later still sink h ps).trans (Later.alloc _ fun c => .waif c sink id cls owner _)

theorem buildAll_later (still : CellId → Prop) (sink : Option SinkId) (h : Heap) (xs : List Shape) :
    Later still h (h.buildAll sink xs).2 := by
  cases xs with
  | nil => exact Later.refl h
  | cons x xs => exact (build_later still sink h x).trans (buildAll_later still sink _ xs)

theorem buildPairs_later (still : CellId → Prop) (sink : Option SinkId) (h : Heap)
    (kvs : List (Shape × Shape)) : Later still h (h.buildPairs sink kvs).2 := by
  cases kvs with
  | nil => exact Later.refl h
  | cons kv kvs =>
    exact ((build_later still sink h kv.1).trans (build_later still sink _ kv.2)).trans
      (buildPairs_later still sink _ kvs)

end

/-- What owners, passes and readers do to a heap. A pass or a reader may put anything into a queue. -/
inductive Work : Heap → Heap → Prop
  | build (h : Heap) (sink : Option SinkId) (t : Shape) : Work h (h.build sink t).2
  | share (h : Heap) (v : Value) : Work h (h.share v)
  | release (h : Heap) (v : Value) : Work h (h.release v)
  | claim {h h' : Heap} {v : Value} (granted : h.claim v = .ok h') : Work h h'
  | dropPin (h : Heap) (v : Value) : Work h (h.dropPin v)
  | newQueue (h : Heap) : Work h h.newQueue.2
  | putQueue (h : Heap) (s : SinkId) (es : List Entry) : Work h (h.putQueue s es)
  | dropQueue (h : Heap) (s : SinkId) : Work h (h.dropQueue s)

theorem modify_claimed (h : Heap) (v : Value) {f : Cell → Cell}
    (keeps : ∀ cell, cell.queued = true → (f cell).queued = true) {c : CellId} (hc : h.Claimed c) :
    (h.modify v f).Claimed c := by
  unfold modify
  split
  · rename_i d _
    unfold adjust
    split
    · rename_i cell hd
      refine ⟨by rw [size_put]; exact hc.1, fun cell' at_c => ?_⟩
      rw [cell?_put hd] at at_c
      split at at_c
      · rename_i same
        cases at_c
        exact keeps cell (hc.2 cell (same ▸ hd))
      · exact hc.2 cell' at_c
    · exact hc
  · exact hc

theorem Work.claimed (work : Work h h') {c : CellId} (hc : h.Claimed c) : h'.Claimed c := by
  have kept {g g' : Heap} (later : Later (fun _ => False) g g') (hg : g.Claimed c) : g'.Claimed c :=
    later.claimed c hg
  cases work with
  | build sink t => exact kept (build_later _ sink h t) hc
  | share v =>
    exact modify_claimed h v (f := fun cell => { cell with refs := cell.refs + 1 })
      (fun _ queued => queued) hc
  | release v => exact kept (release_later h v) hc
  | claim granted =>
    unfold Heap.claim at granted
    split at granted
    · split at granted
      · cases granted
      · cases granted
        exact modify_claimed h _ (fun _ _ => rfl) hc
    · cases granted
  | dropPin v => exact kept (dropPin_later h v) hc
  | newQueue => exact hc
  | putQueue s es => exact hc
  | dropQueue s =>
    have pins (vs : List Value) (g : Heap) (hg : g.Claimed c) : (g.dropPins vs).Claimed c := by
      induction vs generalizing g with
      | nil => exact hg
      | cons v vs ih =>
        exact ih _ (kept (dropPin_later g v) hg)
    exact pins _ _ hc

theorem claimed_of_works (works : Relation.ReflTransGen Work h h') {c : CellId}
    (hc : h.Claimed c) : h'.Claimed c := by
  induction works with
  | refl => exact hc
  | tail _ work ih => exact work.claimed ih

theorem CameBack.not_again (back : CameBack s h e e') (works : Relation.ReflTransGen Work h h')
    (u : Value) {t : SinkId} (ht : h'.queue? t = some es) :
    ∃ more, (h'.release u).queue? t = some (es ++ more) ∧
      ∀ a ∈ more, a.value.cell? ≠ e'.value.cell? := by
  obtain ⟨c, cell, hv, hc, queued⟩ := back.cell
  have claimed : h.Claimed c := ⟨cell?_lt hc, fun cell' hc' => by
    rw [hc] at hc'
    cases hc'
    exact queued⟩
  have later : Later (fun _ => False) h' (h'.release u) := release_later h' u
  obtain ⟨more, grown, unclaimed⟩ := later.queues t es ht
  refine ⟨more, grown, fun a ha same => ?_⟩
  obtain ⟨-, -, d, hd, free⟩ := unclaimed a ha
  rw [same, hv] at hd
  cases hd
  exact free (claimed_of_works works claimed)

end MooCore.Heap
