import MooCore.Proofs.Background.Numbering
import MooCore.Proofs.Background.Stories
/-!
# Books of requests

The table, the requests that are being dealt with and the trace always agree: each waiter has its
request, each request that is being dealt with has told its story so far, and every other one has
told it to the end.
-/

set_option autoImplicit false
namespace MooCore.Background

/-- A request that is being dealt with, on the thread with the handle or on the spot, and what its
callback came to. -/
structure Post where
  request : Nat
  handle : Option Handle
  task : TaskId
  result : Option Value := none

namespace Post

def entry (p : Post) : Option (Handle × Nat × TaskId) :=
  p.handle.map fun h => (h, p.request, p.task)

def chapter (g : Gateway) (p : Post) : Chapter :=
  match p.handle, p.result with
  | none, none => .asked
  | none, some v => .worked v
  | some h, result => .waiting h (g.isActive h) result

theorem chapter_congr {g g' : Gateway} {p : Post}
    (same : ∀ h, p.handle = some h → g'.isActive h = g.isActive h) :
    p.chapter g' = p.chapter g := by
  obtain ⟨request, handle, task, result⟩ := p
  cases handle with
  | none => cases result <;> rfl
  | some h => simp only [chapter, same h rfl]

end Post

def Waiter.entry (w : Waiter) : Handle × Nat × TaskId := (w.handle, w.request, w.task)

def Accounted (g : Gateway) (trace : List Event) : Prop :=
  total .accepted trace =
    g.waiters.length + total .sent trace + total .discarded trace + total .lost trace

structure Books (g : Gateway) (made : List (TaskId × Request)) (trace : List Event)
    (posts : List Post) : Prop where
  numbered : g.Numbered
  manned : (posts.filterMap Post.entry).Perm (g.waiters.map Waiter.entry)
  distinct : (posts.map Post.request).Nodup
  current : ∀ p ∈ posts, ∃ r, made[p.request]? = some (p.task, r) ∧
    Tells trace p.request p.task r (about p.request trace) (p.chapter g)
  closed : ∀ n task r, made[n]? = some (task, r) → n ∉ posts.map Post.request →
    ∃ ch : Chapter, ch.Over ∧ Tells trace n task r (about n trace) ch
  unmade : ∀ n, made.length ≤ n → about n trace = []
  accounted : Accounted g trace

variable {g g' : Gateway} {made : List (TaskId × Request)} {trace : List Event} {p p' : Post}
  {ps qs : List Post} {e : Event} {m : Mark} {h : Handle} {n : Nat} {task : TaskId} {r : Request}

namespace Books

theorem perm (books : Books g made trace ps) (same : ps.Perm qs) : Books g made trace qs where
  numbered := books.numbered
  manned := (same.filterMap _).symm.trans books.manned
  distinct := (same.map _).nodup_iff.1 books.distinct
  current := fun p hp => books.current p (same.symm.subset hp)
  closed := fun n task r there none_left => books.closed n task r there fun open_post =>
    none_left ((same.map _).subset open_post)
  unmade := books.unmade
  accounted := books.accounted

theorem handles_perm (books : Books g made trace ps) :
    (ps.filterMap Post.handle).Perm g.handles := by
  have fst := books.manned.map Prod.fst
  rw [List.map_filterMap, List.map_map] at fst
  refine List.Perm.trans (List.Perm.of_eq ?_) fst
  refine List.filterMap_congr fun p _ => ?_
  unfold Post.entry
  cases p.handle <;> rfl

theorem waiter_of_post (books : Books g made trace ps) (hp : p ∈ ps) (hh : p.handle = some h) :
    ∃ w ∈ g.waiters, w.entry = (h, p.request, p.task) := by
  refine List.mem_map.1 (books.manned.subset (List.mem_filterMap.2 ⟨p, hp, ?_⟩))
  rw [Post.entry, hh, Option.map_some]

theorem post_of_waiter (books : Books g made trace ps) {w : Waiter} (hw : w ∈ g.waiters) :
    ∃ p ∈ ps, p.handle = some w.handle ∧ p.request = w.request ∧ p.task = w.task := by
  obtain ⟨p, hp, entry⟩ := List.mem_filterMap.1
    (books.manned.symm.subset (List.mem_map_of_mem (f := Waiter.entry) hw))
  obtain ⟨h, hh, same⟩ := Option.map_eq_some_iff.1 entry
  simp only [Waiter.entry, Prod.mk.injEq] at same
  obtain ⟨rfl, request, task⟩ := same
  exact ⟨p, hp, hh, request, task⟩

theorem handle_mem (books : Books g made trace ps) (hp : p ∈ ps) (hh : p.handle = some h) :
    h ∈ g.handles := books.handles_perm.subset (List.mem_filterMap.2 ⟨p, hp, hh⟩)

theorem handle_ne (books : Books g made trace (p :: ps)) (hh : p.handle = some h) {q : Post}
    (hq : q ∈ ps) : q.handle ≠ some h := by
  intro same
  have distinct := books.handles_perm.nodup_iff.2 books.numbered.distinct
  rw [List.filterMap_cons_some hh, List.nodup_cons] at distinct
  exact distinct.1 (List.mem_filterMap.2 ⟨q, hq, same⟩)

theorem request_ne (books : Books g made trace (p :: ps)) {q : Post} (hq : q ∈ ps) :
    p.request ≠ q.request := by
  intro same
  have distinct := books.distinct
  rw [List.map_cons, List.nodup_cons] at distinct
  exact distinct.1 (same ▸ List.mem_map_of_mem hq)

theorem request_lt (books : Books g made trace ps) (hp : p ∈ ps) : p.request < made.length := by
  obtain ⟨r, there, -⟩ := books.current p hp
  exact (List.getElem?_eq_some_iff.1 there).1

/-! ## One event at a time -/

theorem current_on (books : Books g made trace ps) (hp : p ∈ ps) (es : List Event) :
    ∃ r, made[p.request]? = some (p.task, r) ∧
      Tells (trace ++ es) p.request p.task r (about p.request trace) (p.chapter g) := by
  obtain ⟨r, there, told⟩ := books.current p hp
  exact ⟨r, there, told.mono (List.prefix_append ..)⟩

theorem closed_on (books : Books g made trace ps) (there : made[n]? = some (task, r))
    (none_left : n ∉ ps.map Post.request) (es : List Event) :
    ∃ ch : Chapter, ch.Over ∧ Tells (trace ++ es) n task r (about n trace) ch := by
  obtain ⟨ch, ends, told⟩ := books.closed n task r there none_left
  exact ⟨ch, ends, told.mono (List.prefix_append ..)⟩

/-- Only the request that an event is about goes on. -/
theorem turn (books : Books g made trace (p :: ps)) (said : e.mark? = some (p.request, m))
    (request : p'.request = p.request) (same_task : p'.task = p.task) (numbered : g'.Numbered)
    (manned : ((p' :: ps).filterMap Post.entry).Perm (g'.waiters.map Waiter.entry))
    (others : ∀ q ∈ ps, q.chapter g' = q.chapter g)
    (tells : ∀ r es, made[p.request]? = some (p.task, r) →
      Tells (trace ++ [e]) p.request p.task r es (p.chapter g) →
      Tells (trace ++ [e]) p.request p.task r (es ++ [e]) (p'.chapter g'))
    (accounted : Accounted g' (trace ++ [e])) : Books g' made (trace ++ [e]) (p' :: ps) where
  numbered := numbered
  manned := manned
  distinct := by
    have distinct := books.distinct
    rw [List.map_cons] at distinct ⊢
    rwa [request]
  current := by
    intro q hq
    rw [about_append]
    rcases List.mem_cons.1 hq with rfl | hq
    · obtain ⟨r, there, told⟩ := books.current_on (List.mem_cons_self ..) [e]
      rw [request, same_task, about_self said]
      exact ⟨r, there, tells r _ there told⟩
    · rw [about_other said (books.request_ne hq), List.append_nil, others q hq]
      exact books.current_on (List.mem_cons_of_mem _ hq) [e]
  closed := by
    intro n task r there none_left
    rw [List.map_cons, request, ← List.map_cons (f := Post.request)] at none_left
    have ne : p.request ≠ n := fun same => none_left (same ▸ List.mem_cons_self ..)
    rw [about_append, about_other said ne, List.append_nil]
    exact books.closed_on there none_left [e]
  unmade := by
    intro n beyond
    have ne : p.request ≠ n := by
      have lt := books.request_lt (List.mem_cons_self ..)
      omega
    rw [about_append, about_other said ne, List.append_nil]
    exact books.unmade n beyond
  accounted := accounted

/-- The request that the event is about is done with. -/
theorem close (books : Books g made trace (p :: ps)) (said : e.mark? = some (p.request, m))
    (numbered : g'.Numbered)
    (manned : (ps.filterMap Post.entry).Perm (g'.waiters.map Waiter.entry))
    (others : ∀ q ∈ ps, q.chapter g' = q.chapter g)
    (tells : ∀ r es, Tells (trace ++ [e]) p.request p.task r es (p.chapter g) →
      ∃ ch : Chapter, ch.Over ∧ Tells (trace ++ [e]) p.request p.task r (es ++ [e]) ch)
    (accounted : Accounted g' (trace ++ [e])) : Books g' made (trace ++ [e]) ps where
  numbered := numbered
  manned := manned
  distinct := books.distinct.of_cons
  current := by
    intro q hq
    rw [about_append, about_other said (books.request_ne hq), List.append_nil, others q hq]
    exact books.current_on (List.mem_cons_of_mem _ hq) [e]
  closed := by
    intro n task r there none_left
    rw [about_append]
    by_cases same : p.request = n
    · obtain ⟨r', there', told⟩ := books.current_on (List.mem_cons_self ..) [e]
      rw [same, there] at there'
      obtain ⟨rfl, rfl⟩ := Prod.mk.inj (Option.some.inj there')
      subst same
      rw [about_self said]
      exact tells r _ told
    · rw [about_other said same, List.append_nil]
      refine books.closed_on there (fun open_post => ?_) [e]
      rw [List.map_cons, List.mem_cons] at open_post
      rcases open_post with first | rest
      · exact same first.symm
      · exact none_left rest
  unmade := by
    intro n beyond
    have ne : p.request ≠ n := by
      have lt := books.request_lt (List.mem_cons_self ..)
      omega
    rw [about_append, about_other said ne, List.append_nil]
    exact books.unmade n beyond
  accounted := accounted

theorem mute (books : Books g made trace ps) {es : List Event} (mute : ∀ e ∈ es, e.mark? = none) :
    Books g made (trace ++ es) ps where
  numbered := books.numbered
  manned := books.manned
  distinct := books.distinct
  current := fun p hp => by
    rw [about_append, about_mute mute, List.append_nil]
    exact books.current_on hp es
  closed := fun n task r there none_left => by
    rw [about_append, about_mute mute, List.append_nil]
    exact books.closed_on there none_left es
  unmade := fun n beyond => by
    rw [about_append, about_mute mute, List.append_nil]
    exact books.unmade n beyond
  accounted := by
    have accounted := books.accounted
    unfold Accounted at accounted ⊢
    simp only [total_append, total_mute mute, Nat.add_zero]
    exact accounted

theorem relabel (books : Books g made trace ps) (numbered : g'.Numbered)
    (waiters : g'.waiters = g.waiters) : Books g' made trace ps := by
  have active : ∀ h, g'.isActive h = g.isActive h := fun h => by
    rw [Gateway.isActive, Gateway.isActive, Gateway.waiter?, Gateway.waiter?, waiters]
  refine ⟨numbered, ?_, books.distinct, fun p hp => ?_, books.closed, books.unmade, ?_⟩
  · rw [waiters]
    exact books.manned
  · rw [Post.chapter_congr fun h _ => active h]
    exact books.current p hp
  · have accounted := books.accounted
    unfold Accounted at accounted ⊢
    rw [waiters]
    exact accounted

/-! ## Requests -/

theorem filterMap_cons_spot (spot : p.handle = none) :
    (p :: ps).filterMap Post.entry = ps.filterMap Post.entry :=
  List.filterMap_cons_none (by rw [Post.entry, spot, Option.map_none])

theorem filterMap_cons_thread (thread : p.handle = some h) :
    (p :: ps).filterMap Post.entry = (h, p.request, p.task) :: ps.filterMap Post.entry :=
  List.filterMap_cons_some (by rw [Post.entry, thread, Option.map_some])

theorem accounted_other (accounted : Accounted g trace)
    (said : e.mark? = some (n, m)) (other : m ∉ [Mark.accepted, .sent, .discarded, .lost])
    (length : g'.waiters.length = g.waiters.length) : Accounted g' (trace ++ [e]) := by
  unfold Accounted at accounted ⊢
  simp only [List.mem_cons, List.not_mem_nil, or_false, not_or] at other
  obtain ⟨accepted, sent, discarded, lost⟩ := other
  simp only [total_append, total_single said, if_neg accepted, if_neg sent, if_neg discarded,
    if_neg lost, length, Nat.add_zero]
  exact accounted

/-- A request is made. -/
theorem ask (books : Books g made trace ps) (task : TaskId) (r : Request) :
    Books g (made ++ [(task, r)]) trace ({ request := made.length, handle := none, task } :: ps) where
  numbered := books.numbered
  manned := by
    rw [filterMap_cons_spot rfl]
    exact books.manned
  distinct := by
    rw [List.map_cons, List.nodup_cons]
    refine ⟨fun taken => ?_, books.distinct⟩
    obtain ⟨p, hp, same⟩ := List.mem_map.1 taken
    have lt := books.request_lt hp
    rw [same] at lt
    exact Nat.lt_irrefl _ lt
  current := by
    intro p hp
    rcases List.mem_cons.1 hp with rfl | hp
    · refine ⟨r, by simp, ?_⟩
      rw [books.unmade made.length (Nat.le_refl _)]
      exact .asked
    · obtain ⟨r', there, told⟩ := books.current p hp
      exact ⟨r', by rw [List.getElem?_append_left (books.request_lt hp), there], told⟩
  closed := by
    intro n task' r' there none_left
    rw [List.map_cons, List.mem_cons, not_or] at none_left
    have lt : n < made.length := by
      have lt := (List.getElem?_eq_some_iff.1 there).1
      rw [List.length_append, List.length_singleton] at lt
      have ne := none_left.1
      simp only at ne
      omega
    rw [List.getElem?_append_left lt] at there
    exact books.closed n task' r' there none_left.2
  unmade := by
    intro n beyond
    rw [List.length_append] at beyond
    exact books.unmade n (by omega)
  accounted := books.accounted

theorem refuse (books : Books g made trace (p :: ps)) (spot : p.handle = none)
    (undone : p.result = none) (why : Refusal) :
    Books g made (trace ++ [.refused p.request why]) ps := by
  refine books.close rfl books.numbered ?_ (fun _ _ => rfl) (fun r es told => ?_)
    (accounted_other books.accounted rfl (by decide) rfl)
  · have manned := books.manned
    rwa [filterMap_cons_spot spot] at manned
  · have asked : p.chapter g = .asked := by rw [Post.chapter, spot, undone]
    rw [asked] at told
    exact ⟨.refused, trivial, told.refused why⟩

theorem worked (books : Books g made trace (p :: ps)) (spot : p.handle = none)
    (undone : p.result = none) {v : Value}
    (came : ∀ r, made[p.request]? = some (p.task, r) →
      r.CameTo p.request none (trace ++ [.returned p.request v]) v) :
    Books g made (trace ++ [.returned p.request v]) ({ p with result := some v } :: ps) := by
  refine books.turn rfl rfl rfl books.numbered ?_ (fun _ _ => rfl) (fun r es there told => ?_)
    (accounted_other books.accounted rfl (by decide) rfl)
  · exact books.manned
  · have asked : p.chapter g = .asked := by rw [Post.chapter, spot, undone]
    have done : ({ p with result := some v } : Post).chapter g = .worked v := by
      simp only [Post.chapter, spot]
    rw [asked] at told
    rw [done]
    exact told.worked (came r there)

theorem immediate (books : Books g made trace (p :: ps)) (spot : p.handle = none) {v : Value}
    (done : p.result = some v) : Books g made (trace ++ [.immediate p.request v]) ps := by
  refine books.close rfl books.numbered ?_ (fun _ _ => rfl) (fun r es told => ?_)
    (accounted_other books.accounted rfl (by decide) rfl)
  · have manned := books.manned
    rwa [filterMap_cons_spot spot] at manned
  · have worked : p.chapter g = .worked v := by rw [Post.chapter, spot, done]
    rw [worked] at told
    exact ⟨.immediate, trivial, told.immediate⟩

theorem returned (books : Books g made trace (p :: ps)) (thread : p.handle = some h)
    (undone : p.result = none) {v : Value}
    (came : ∀ r, made[p.request]? = some (p.task, r) →
      r.CameTo p.request (some h) (trace ++ [.returned p.request v]) v) :
    Books g made (trace ++ [.returned p.request v]) ({ p with result := some v } :: ps) := by
  refine books.turn rfl rfl rfl books.numbered ?_ (fun _ _ => rfl) (fun r es there told => ?_)
    (accounted_other books.accounted rfl (by decide) rfl)
  · exact books.manned
  · have waits : p.chapter g = .waiting h (g.isActive h) none := by
      rw [Post.chapter, thread, undone]
    have done : ({ p with result := some v } : Post).chapter g =
        .waiting h (g.isActive h) (some v) := by
      simp only [Post.chapter, thread]
    rw [waits] at told
    rw [done]
    exact told.returned (came r there)

theorem accept (books : Books g made trace (p :: ps)) (spot : p.handle = none)
    (undone : p.result = none) (now : Instant) (title : String)
    (few : (g.register now p.request p.task title).2.longest < Gateway.handleLimit) :
    Books (g.register now p.request p.task title).2 made
      (trace ++ [.accepted p.request g.fresh p.task]) ({ p with handle := some g.fresh } :: ps) := by
  have waiters := books.numbered.register_waiters now p.request p.task title
  refine books.turn rfl rfl rfl (books.numbered.register now _ _ _ few) ?_ (fun q hq => ?_)
    (fun r es _ told => ?_) ?_
  · have manned := books.manned
    rw [filterMap_cons_spot spot] at manned
    rw [filterMap_cons_thread rfl, waiters, List.map_append]
    exact (manned.cons _).trans (List.perm_append_singleton _ _).symm
  · refine Post.chapter_congr fun k hk => ?_
    exact books.numbered.isActive_register_old now _ _ _
      (books.handle_mem (List.mem_cons_of_mem _ hq) hk)
  · have asked : p.chapter g = .asked := by rw [Post.chapter, spot, undone]
    rw [asked] at told
    simp only [Post.chapter, books.numbered.isActive_register_new, undone]
    exact told.accepted g.fresh
  · have accounted := books.accounted
    unfold Accounted at accounted ⊢
    rw [waiters, List.length_append, List.length_singleton]
    simp only [total_append, total_single (show Event.mark? (.accepted p.request g.fresh p.task) =
      some (p.request, .accepted) from rfl), accounted]
    simp
    omega

theorem retire (books : Books g made trace (p :: ps)) (thread : p.handle = some h)
    (said : e.mark? = some (p.request, m)) (ends : m ∈ [Mark.sent, .discarded, .lost])
    (tells : ∀ r es, Tells (trace ++ [e]) p.request p.task r es (p.chapter g) →
      ∃ ch : Chapter, ch.Over ∧ Tells (trace ++ [e]) p.request p.task r (es ++ [e]) ch) :
    Books (g.remove h) made (trace ++ [e]) ps := by
  have manned := books.manned
  rw [filterMap_cons_thread thread] at manned
  have left : (ps.filterMap Post.entry).Perm ((g.remove h).waiters.map Waiter.entry) := by
    have others := manned.filter fun x => x.1 ≠ h
    rw [List.filter_cons_of_neg (by simp), List.filter_map] at others
    refine List.Perm.trans (List.Perm.of_eq ?_) others
    refine (List.filter_eq_self.2 fun x hx => ?_).symm
    obtain ⟨q, hq, entry⟩ := List.mem_filterMap.1 hx
    obtain ⟨k, hk, rfl⟩ := Option.map_eq_some_iff.1 entry
    simp only [ne_eq, decide_eq_true_eq]
    exact fun same => books.handle_ne thread hq (same ▸ hk)
  refine books.close said (books.numbered.remove h) left (fun q hq => ?_) tells ?_
  · refine Post.chapter_congr fun k hk => Gateway.isActive_remove_ne fun same => ?_
    exact books.handle_ne thread hq (same ▸ hk)
  · have accounted := books.accounted
    have before := manned.length_eq
    have after := left.length_eq
    rw [List.length_cons, List.length_map] at before
    rw [List.length_map] at after
    unfold Accounted at accounted ⊢
    simp only [total_append, total_single said]
    simp only [List.mem_cons, List.not_mem_nil, or_false] at ends
    rcases ends with rfl | rfl | rfl <;> simp <;> omega

/-! ## Waiters that are no longer wanted -/

theorem deactivate_entries (g : Gateway) (h : Handle) :
    (g.deactivate h).waiters.map Waiter.entry = g.waiters.map Waiter.entry := by
  simp only [Gateway.deactivate, List.map_map]
  refine List.map_congr_left fun w _ => ?_
  simp only [Function.comp_apply]
  split <;> rfl

theorem silence (books : Books g made trace ps) {w : Waiter}
    (hw : w.entry ∈ g.waiters.map Waiter.entry) :
    Books (g.deactivate w.handle) made (trace ++ [.silenced w.request]) ps := by
  obtain ⟨v, hv, same⟩ := List.mem_map.1 hw
  obtain ⟨p, hp, thread, request, -⟩ := books.post_of_waiter hv
  simp only [Waiter.entry, Prod.mk.injEq] at same
  rw [same.1] at thread
  rw [← same.2.1, ← request]
  obtain ⟨before, after, rfl⟩ := List.append_of_mem hp
  have first : (before ++ p :: after).Perm (p :: (before ++ after)) := List.perm_middle
  have books' := books.perm first
  refine Books.perm ?_ first.symm
  refine books'.turn rfl rfl rfl (books.numbered.deactivate _) ?_ (fun q hq => ?_)
    (fun r es _ told => ?_) (accounted_other books.accounted rfl (by decide) ?_)
  · rw [deactivate_entries]
    exact books'.manned
  · refine Post.chapter_congr fun k hk => Gateway.isActive_deactivate_ne fun same => ?_
    exact books'.handle_ne thread hq (same ▸ hk)
  · have there := books.handle_mem hp thread
    simp only [Post.chapter, thread] at told ⊢
    rw [Gateway.isActive_deactivate_self there]
    exact told.silenced
  · simp [Gateway.deactivate]

theorem silenceAll {ws : List Waiter} (books : Books g made trace ps)
    (hws : ∀ w ∈ ws, w.entry ∈ g.waiters.map Waiter.entry) :
    Books (ws.foldl (fun g w => g.deactivate w.handle) g) made
      (trace ++ ws.map fun w => .silenced w.request) ps := by
  induction ws generalizing g trace with
  | nil =>
    rw [List.map_nil, List.append_nil]
    exact books
  | cons w ws ih =>
    rw [List.map_cons, List.append_cons, List.foldl_cons]
    refine ih (books.silence (hws w (List.mem_cons_self ..))) fun v hv => ?_
    rw [deactivate_entries]
    exact hws v (List.mem_cons_of_mem _ hv)

theorem deactivateAll_eq (g : Gateway) (ws : List Waiter) :
    ws.foldl (fun g w => g.deactivate w.handle) g = { g with
      waiters := g.waiters.map fun w =>
        if w.handle ∈ ws.map Waiter.handle then { w with active := false } else w } := by
  induction ws generalizing g with
  | nil => simp
  | cons v ws ih =>
    rw [List.foldl_cons, ih]
    simp only [Gateway.deactivate, List.map_map, Gateway.mk.injEq, and_true]
    refine List.map_congr_left fun w _ => ?_
    by_cases first : w.handle = v.handle
    · simp [first]
    · simp [first]

theorem kill_eq (numbered : g.Numbered) (task : TaskId) :
    (g.kill task).2 =
      (g.waiters.filter (·.task = task)).foldl (fun g w => g.deactivate w.handle) g := by
  rw [deactivateAll_eq, Gateway.kill]
  simp only [Gateway.mk.injEq, and_true]
  refine List.map_congr_left fun w hw => ?_
  refine if_congr ⟨fun same => ?_, fun taken => ?_⟩ rfl rfl
  · exact List.mem_map_of_mem (List.mem_filter.2 ⟨hw, by simp [same]⟩)
  · obtain ⟨v, hv, same⟩ := List.mem_map.1 taken
    obtain ⟨mem, its_task⟩ := List.mem_filter.1 hv
    have found := Gateway.waiter?_of_mem numbered.distinct mem
    rw [same, Gateway.waiter?_of_mem numbered.distinct hw] at found
    cases found
    simpa using its_task

theorem kill (books : Books g made trace ps) (task : TaskId) :
    Books (g.kill task).2 made
      (trace ++ (g.waiters.filter (·.task = task)).map fun w => .silenced w.request) ps := by
  rw [kill_eq books.numbered]
  exact books.silenceAll fun w hw => List.mem_map_of_mem (List.mem_of_mem_filter hw)

theorem offer_eq (rule : TaskId → String → Verdict) (g : Gateway) (ws : List Waiter) :
    ∃ picked : List Waiter, picked.Sublist ws ∧
      (g.offer rule ws).2 = picked.foldl (fun g w => g.deactivate w.handle) g ∧
      (g.offer rule ws).1.silenced = picked.map Waiter.request ∧
      (g.offer rule ws).1.killed = picked.map Waiter.task := by
  induction ws generalizing g with
  | nil => exact ⟨[], List.Sublist.refl _, rfl, rfl, rfl⟩
  | cons w ws ih =>
    cases verdict : rule w.task (Gateway.status w.handle) with
    | pass =>
      obtain ⟨picked, sub, table, silenced, killed⟩ := ih g
      refine ⟨picked, sub.cons w, ?_, ?_, ?_⟩ <;>
        simp only [Gateway.offer, verdict, table, silenced, killed]
    | kill =>
      obtain ⟨picked, sub, table, silenced, killed⟩ := ih (g.deactivate w.handle)
      refine ⟨w :: picked, sub.cons_cons w, ?_, ?_, ?_⟩ <;>
        simp only [Gateway.offer, verdict, table, silenced, killed, List.foldl_cons, List.map_cons]
    | stop =>
      refine ⟨[], List.nil_sublist _, ?_, ?_, ?_⟩ <;>
        simp only [Gateway.offer, verdict, List.foldl_nil, List.map_nil]

theorem enumerate (books : Books g made trace ps) (rule : TaskId → String → Verdict) :
    Books (g.enumerate rule).2 made
      (trace ++ (g.enumerate rule).1.silenced.map Event.silenced) ps := by
  obtain ⟨picked, sub, table, silenced, -⟩ := offer_eq rule g g.waiters
  rw [Gateway.enumerate, table, silenced, List.map_map]
  exact books.silenceAll fun w hw => List.mem_map_of_mem (sub.subset hw)

end Books
end MooCore.Background
