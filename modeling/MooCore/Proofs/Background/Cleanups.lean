import MooCore.Proofs.Background.Collisions
import MooCore.Proofs.Background.Passages
/-!
# Cleanups

However a request ends, and whatever else is under way, its cleanup is called once: with the extra
data of the request, not before the callback has come to its end, not while the lock of the table is
held, and before anybody is told of the end or the waiter leaves the table.
-/

set_option autoImplicit false
namespace MooCore.Background

variable {n : Nat} {task : TaskId} {h h' : Host} {place : Place} {next : Option Place}
  {p : Passage} {ps : List Passage} {r : Request} {c : Cleanup} {s s' : Traffic}

/-! ## No waiter leaves early -/

/-- The handle of a request that has its waiter. -/
def Place.handle? : Place → Option Handle
  | enrolled handle _ | stranded handle _ | ready handle _ => some handle
  | working handle _ | returned handle .. | cleaned handle .. => handle
  | asked _ | admitted _ | queued _ | turned _ _ | abandoned _ => none

/-- A step of a request leaves the table alone, or puts in its waiter, or takes it out when the
cleanup has been called. -/
theorem Place.Step.table (step : place.Step n task h h' next) :
    (h'.gateway = h.gateway ∧ next.bind Place.handle? = place.handle?) ∨
    (∃ now title, h'.gateway = (h.gateway.register now n task title).2 ∧
      next.bind Place.handle? = some h.gateway.fresh) ∨
    ∃ k, place.handle? = some k ∧ place.owes = false ∧ h'.gateway = h.gateway.remove k ∧
      next.bind Place.handle? = none := by
  cases step with
  | shut | admitted | inline | queued | turned | begun | refused | started =>
    exact Or.inl ⟨rfl, rfl⟩
  | enrolled => exact Or.inr (Or.inl ⟨_, _, rfl, rfl⟩)
  | abandoned | failed => exact Or.inl ⟨(h.abandon_aside n _).gateway, rfl⟩
  | withdrawn => exact Or.inr (Or.inr ⟨_, rfl, rfl, rfl, rfl⟩)
  | returned ending => exact Or.inl ⟨(h.result_aside ending).gateway, rfl⟩
  | cleaned => exact Or.inl ⟨(h.cleanUp_aside n _ _).gateway, rfl⟩
  | immediate => exact Or.inl ⟨(h.dropExtra_aside _).gateway, rfl⟩
  | retired => exact Or.inr (Or.inr ⟨_, rfl, rfl, (h.retire_ends n _ task _ _).gateway, rfl⟩)

theorem kill_entries (g : Gateway) (task : TaskId) :
    (g.kill task).2.waiters.map Waiter.entry = g.waiters.map Waiter.entry := by
  simp only [Gateway.kill, List.map_map]
  refine List.map_congr_left fun w _ => ?_
  simp only [Function.comp_apply]
  split <;> rfl

theorem deactivateAll_entries (g : Gateway) (ws : List Waiter) :
    (ws.foldl (fun g w => g.deactivate w.handle) g).waiters.map Waiter.entry =
      g.waiters.map Waiter.entry := by
  induction ws generalizing g with
  | nil => rfl
  | cons w ws ih => rw [List.foldl_cons, ih, Books.deactivate_entries]

theorem deactivateAll_numbered {g : Gateway} (numbered : g.Numbered) (ws : List Waiter) :
    (ws.foldl (fun g w => g.deactivate w.handle) g).Numbered := by
  induction ws generalizing g with
  | nil => exact numbered
  | cons w ws ih => exact ih (numbered.deactivate w.handle)

/-- Each request with a handle has its waiter in the table. -/
structure Traffic.Manned (s : Traffic) : Prop where
  numbered : s.host.gateway.Numbered
  stands : ∀ p ∈ s.passages, ∀ k, p.place.handle? = some k →
    (k, p.request, p.task) ∈ s.host.gateway.waiters.map Waiter.entry

namespace Traffic.Manned

theorem relabel (manned : Manned ⟨h, ps⟩) (numbered : h'.gateway.Numbered)
    (entries : h'.gateway.waiters.map Waiter.entry = h.gateway.waiters.map Waiter.entry) :
    Manned ⟨h', ps⟩ where
  numbered := numbered
  stands := fun p hp k its => by
    rw [entries]
    exact manned.stands p hp k its

theorem go (manned : Manned ⟨h, { request := n, task, place } :: ps⟩)
    (apart : n ∉ ps.map Passage.request) (step : place.Step n task h h' next)
    (few : h'.gateway.longest < Gateway.handleLimit) :
    Manned ⟨h', (next.map fun place => { request := n, task, place }).toList ++ ps⟩ := by
  have numbered := manned.numbered
  have others := fun p (hp : p ∈ ps) => manned.stands p (List.mem_cons_of_mem _ hp)
  have whole : ∀ {g : Gateway}, h'.gateway = g → g.Numbered →
      (∀ k, next.bind Place.handle? = some k → (k, n, task) ∈ g.waiters.map Waiter.entry) →
      (∀ p ∈ ps, ∀ k, p.place.handle? = some k →
        (k, p.request, p.task) ∈ g.waiters.map Waiter.entry) →
      Manned ⟨h', (next.map fun place => { request := n, task, place }).toList ++ ps⟩ := by
    rintro _ rfl numbered own others
    refine ⟨numbered, fun p hp k its => ?_⟩
    rcases List.mem_append.1 hp with hp | hp
    · obtain ⟨place', some_next, rfl⟩ := Option.map_eq_some_iff.1 (Option.mem_toList.1 hp)
      exact own k (by rw [some_next]; exact its)
    · exact others p hp k its
  rcases step.table with ⟨table, same⟩ | ⟨now, title, table, its⟩ | ⟨k, its, -, table, gone⟩
  · refine whole table numbered (fun k some_k => ?_) others
    rw [same] at some_k
    exact manned.stands _ (List.mem_cons_self ..) k some_k
  · rw [table] at few
    refine whole table (numbered.register now n task title few) (fun k some_k => ?_)
      fun p hp k some_k => ?_
    · rw [its] at some_k
      cases some_k
      rw [numbered.register_waiters]
      simp [Waiter.entry]
    · rw [numbered.register_waiters, List.map_append]
      exact List.mem_append_left _ (others p hp k some_k)
  · refine whole table (numbered.remove k) (fun j some_j => ?_) fun p hp j some_j => ?_
    · rw [gone] at some_j
      cases some_j
    · -- no other request has the handle, since its waiter would be the same
      obtain ⟨w, hw, entry⟩ := List.mem_map.1 (others p hp j some_j)
      obtain ⟨v, hv, own⟩ := List.mem_map.1 (manned.stands _ (List.mem_cons_self ..) k its)
      simp only [Waiter.entry, Prod.mk.injEq] at entry own
      refine List.mem_map.2 ⟨w, List.mem_filter.2 ⟨hw, ?_⟩, by simp [Waiter.entry, entry]⟩
      have apart' : p.request ≠ n := fun same => apart (List.mem_map.2 ⟨p, hp, same⟩)
      refine decide_eq_true fun same => apart' ?_
      have found := Gateway.waiter?_of_mem numbered.distinct hw
      rw [same, ← own.1, Gateway.waiter?_of_mem numbered.distinct hv] at found
      cases found
      exact entry.2.1.symm.trans own.2.1

theorem step (manned : Manned s) (sound : s.Sound) (step : s.Step s')
    (few : s'.host.gateway.longest < Gateway.handleLimit) : Manned s' := by
  cases step with
  | ask _ task r =>
    refine ⟨manned.numbered, fun p hp k its => ?_⟩
    rcases List.mem_cons.1 hp with rfl | hp
    · cases its
    · exact manned.stands p hp k its
  | go step =>
    have distinct := sound.distinct
    rw [List.map_cons, List.nodup_cons] at distinct
    exact manned.go distinct.1 step few
  | order same =>
    exact ⟨manned.numbered, fun p hp => manned.stands p (same.symm.subset hp)⟩
  | kill _ task => exact manned.relabel (manned.numbered.kill task) (kill_entries _ task)
  | enumerate _ rule =>
    obtain ⟨picked, -, table, -, -⟩ := Books.offer_eq rule s.host.gateway s.host.gateway.waiters
    refine manned.relabel ?_ ?_
    · change (Gateway.offer rule _ _).2.Numbered
      rw [table]
      exact deactivateAll_numbered manned.numbered picked
    · change (Gateway.offer rule _ _).2.waiters.map Waiter.entry = _
      rw [table, deactivateAll_entries]
  | remark _ r => exact manned.relabel manned.numbered rfl
  | elsewhere _ _ waiters next streak longest =>
    refine manned.relabel (manned.numbered.of_sublist ?_ next streak longest) (by rw [waiters])
    rw [Gateway.handles, waiters, Gateway.handles]

/-- A waiter that leaves the table was that of a request whose cleanup is not to be called any
more. -/
theorem leaves (manned : Manned s) (step : s.Step s') {w : Waiter}
    (hw : w ∈ s.host.gateway.waiters)
    (gone : ∀ v ∈ s'.host.gateway.waiters, v.request ≠ w.request) :
    ∃ p ∈ s.passages, p.request = w.request ∧ p.place.owes = false := by
  have stays : s'.host.gateway.waiters.map Waiter.entry =
      s.host.gateway.waiters.map Waiter.entry → False := by
    intro same
    have there := List.mem_map_of_mem (f := Waiter.entry) hw
    rw [← same] at there
    obtain ⟨v, hv, entry⟩ := List.mem_map.1 there
    simp only [Waiter.entry, Prod.mk.injEq] at entry
    exact gone v hv entry.2.1
  cases step with
  | ask | order | remark => exact (stays rfl).elim
  | kill _ task => exact (stays (kill_entries _ task)).elim
  | enumerate _ rule =>
    obtain ⟨picked, -, table, -, -⟩ := Books.offer_eq rule s.host.gateway s.host.gateway.waiters
    refine (stays ?_).elim
    change (Gateway.offer rule _ _).2.waiters.map Waiter.entry = _
    rw [table, deactivateAll_entries]
  | elsewhere _ _ waiters => exact (stays (by rw [waiters])).elim
  | @go h h' n task place next step ps =>
    rcases step.table with ⟨table, -⟩ | ⟨now, title, table, -⟩ | ⟨k, its, paid, table, -⟩
    · exact (stays (by rw [table])).elim
    · refine absurd rfl (gone w ?_)
      change w ∈ h'.gateway.waiters
      rw [table, manned.numbered.register_waiters]
      exact List.mem_append_left _ hw
    · refine ⟨_, List.mem_cons_self .., ?_, paid⟩
      obtain ⟨v, hv, own⟩ := List.mem_map.1 (manned.stands _ (List.mem_cons_self ..) k its)
      simp only [Waiter.entry, Prod.mk.injEq] at own
      have same : w.handle = k := by
        by_contra other
        refine gone w ?_ rfl
        change w ∈ h'.gateway.waiters
        rw [table]
        exact List.mem_filter.2 ⟨hw, decide_eq_true other⟩
      have found := Gateway.waiter?_of_mem manned.numbered.distinct hw
      rw [same, ← own.1, Gateway.waiter?_of_mem manned.numbered.distinct hv] at found
      cases found
      exact own.2.1.symm

end Traffic.Manned

theorem Traffic.Step.longest_le (step : s.Step s') :
    s.host.gateway.longest ≤ s'.host.gateway.longest := by
  cases step with
  | ask | order | remark | kill => exact Nat.le_refl _
  | enumerate _ rule => exact (enumerate_grows s.host rule).longest
  | elsewhere _ _ _ _ _ longest => exact longest.ge
  | go step =>
    rcases step.table with ⟨table, -⟩ | ⟨now, title, table, -⟩ | ⟨k, -, -, table, -⟩
    · rw [table]
    · rw [table]
      exact Gateway.register_longest ..
    · rw [table]
      exact Nat.le_refl _

theorem Traffic.Manned.runs (manned : s.Manned) (sound : s.Sound) (runs : s.Runs s')
    (few : s'.host.gateway.longest < Gateway.handleLimit) : s'.Manned := by
  induction runs with
  | refl => exact manned
  | @tail s₁ s₂ before last ih =>
    exact (ih (last.longest_le.trans_lt few)).step (sound.runs before) last few

/-! ## One call -/

/-- What holds of a request with a cleanup. The cleanup has been called unless the request is at a
place where it is still to be called; it was called with the extra data and without the lock, after
the callback returned, if it ran, and before anybody was told of the end. -/
structure CleanedOnce (s : Traffic) (n : Nat) (r : Request) (c : Cleanup) : Prop where
  owed : ∀ p ∈ s.passages, p.request = n → p.place.owes = true → cleanings n s.host.trace = 0
  paid : (∀ p ∈ s.passages, p.request = n → p.place.owes = false) → cleanings n s.host.trace = 1
  shown : ∀ c' x locked, .cleaned n c' x locked ∈ s.host.trace →
    c' = c ∧ Shown r.extra x ∧ locked = false
  after_return : ∀ before v after, s.host.trace = before ++ .returned n v :: after →
    cleanings n before = 0
  before_end : ∀ before e after m, s.host.trace = before ++ e :: after → e.mark? = some (n, m) →
    m.closes = true → cleanings n before = 1 ∧ (m = .refused ↔ ∀ v, .returned n v ∉ before)

theorem CleanedOnce.at_most (once : CleanedOnce s n r c) : cleanings n s.host.trace ≤ 1 := by
  by_cases owing : ∃ p ∈ s.passages, p.request = n ∧ p.place.owes = true
  · obtain ⟨p, hp, its, owes⟩ := owing
    exact (once.owed p hp its owes).le.trans (Nat.zero_le 1)
  · refine (once.paid fun p hp its => ?_).le
    rw [Bool.eq_false_iff]
    exact fun owes => owing ⟨p, hp, its, owes⟩

namespace Traffic.Sound

theorem life (sound : s.Sound) (made : s.host.made[n]? = some (task, r))
    (some_c : r.cleanup = some c) :
    (∃ p ∈ s.passages, p.request = n ∧ Life n c r.extra (lifeOf n s.host.trace) p.place.phase) ∨
      n ∉ s.passages.map Passage.request ∧
        ∃ ran, Life n c r.extra (lifeOf n s.host.trace) (.closed ran) := by
  by_cases there : n ∈ s.passages.map Passage.request
  · obtain ⟨p, hp, rfl⟩ := List.mem_map.1 there
    obtain ⟨r', made', -, life⟩ := sound.current p hp
    rw [made] at made'
    cases made'
    exact Or.inl ⟨p, hp, rfl, life c some_c⟩
  · exact Or.inr ⟨there, sound.closed n task r c made there some_c⟩

theorem cleanedOnce (sound : s.Sound) (made : s.host.made[n]? = some (task, r))
    (some_c : r.cleanup = some c) : CleanedOnce s n r c := by
  obtain ⟨phase, life⟩ : ∃ phase, Life n c r.extra (lifeOf n s.host.trace) phase := by
    rcases sound.life made some_c with ⟨p, -, -, life⟩ | ⟨-, ran, life⟩
    · exact ⟨_, life⟩
    · exact ⟨_, life⟩
  have unique : ∀ {p q : Passage}, p ∈ s.passages → q ∈ s.passages → p.request = q.request →
      p = q := fun hp hq same => List.inj_on_of_nodup_map sound.distinct hp hq same
  constructor
  case owed =>
    intro p hp its owes
    rw [← cleanings_lifeOf]
    rcases sound.life made some_c with ⟨q, hq, same, life⟩ | ⟨gone, -⟩
    · rw [unique hp hq (its.trans same.symm)] at owes
      exact life.calls.trans (of_decide_eq_true owes)
    · exact absurd (its ▸ List.mem_map_of_mem hp) gone
  case paid =>
    intro paid
    rw [← cleanings_lifeOf]
    rcases sound.life made some_c with ⟨q, hq, same, life⟩ | ⟨-, ran, life⟩
    · have called := of_decide_eq_false (paid q hq same)
      rw [life.calls]
      cases phase : q.place.phase <;> simp_all [Phase.calls]
    · exact life.calls
  case shown => exact fun c' x locked called => life.call_shown called
  case after_return => exact fun before v after cut => life.none_before_return cut
  case before_end =>
    exact fun before e after m cut said closes => life.once_before_end cut said closes

end Traffic.Sound

theorem opened_sound (w : Workspace) (l : Lobby) (g : Gateway) :
    Traffic.Sound (Host.traffic { w, l with gateway := g }) where
  unlocked := rfl
  distinct := List.nodup_nil
  current := fun _ hp => absurd hp List.not_mem_nil
  closed := fun n task r c made => by cases made
  unmade := fun _ _ _ _ => .fresh

theorem opened_manned (w : Workspace) (l : Lobby) {g : Gateway} (numbered : g.Numbered) :
    Traffic.Manned (Host.traffic { w, l with gateway := g }) :=
  ⟨numbered, fun _ hp => absurd hp List.not_mem_nil⟩

def doomed : Request :=
  { title := "doomed", argument := .int 7, extra := some (.value (.int 8)),
    cleanup := some { label := none, fails := true }, callback := fun _ _ => .crash none }

def crowded : Waiter := { handle := 1, request := 0, task := 1, title := "doomed", started := 1 }

theorem retire_starter (h : Host) (n : Nat) (handle : Handle) (task : TaskId) (v : Value) :
    (h.retire n handle task v none).starter = h.starter := by
  rw [Host.retire]
  split
  · rfl
  · split
    · rfl
    · split <;> rfl

/-- A request whose thread is done at once takes its waiter out of the table again, and has no
cleanup to be called. -/
theorem suspend_atOnce (starter : h.starter = .atOnce)
    (admitted : h.gateway.admission task = .thread) :
    (h.suspend task echoing).2.gateway =
        (h.gateway.register h.now.1 h.made.length task "echo").2.remove h.gateway.fresh ∧
      (h.suspend task echoing).2.made = h.made ++ [(task, echoing)] ∧
      (h.suspend task echoing).2.starter = .atOnce ∧
      cleanings n (h.suspend task echoing).2.trace = cleanings n h.trace := by
  let k := h.made.length
  let entered := ((h.count task echoing).2.enter k task "echo").2
  let told := (entered.note (.accepted k h.gateway.fresh task)).note (.returned k echoing.argument)
  have suspended :
      (h.suspend task echoing).2 = told.retire k h.gateway.fresh task echoing.argument none := by
    unfold Host.suspend Host.suspendBy
    dsimp only [Host.count]
    rw [admitted]
    dsimp only
    rw [Host.launch]
    have same : entered.starter = .atOnce := starter
    split
    · rename_i later
      cases later.symm.trans same
    · rfl
    · rename_i failing
      cases failing.symm.trans same
  rw [suspended]
  have ends := told.retire_ends k h.gateway.fresh task echoing.argument none
  obtain ⟨e, m, trace, said, -⟩ := ends.trace
  refine ⟨ends.gateway, ends.made, (retire_starter ..).trans starter, ?_⟩
  have none_called : cleanings n [.accepted k h.gateway.fresh task] = 0 ∧
      cleanings n [.returned k echoing.argument] = 0 ∧ cleanings n [e] = 0 := by
    refine ⟨rfl, rfl, ?_⟩
    rw [cleanings, List.countP_singleton, cleans_of_mark said]
    rfl
  rw [trace, cleanings_append, none_called.2.2]
  change cleanings n ((h.trace ++ [_]) ++ [_]) + 0 = _
  rw [cleanings_append, cleanings_append, none_called.1, none_called.2.1]
  rfl

/-- Task 1 waits alone when everybody who came after it has left, and the next request of task 2 is
let in. Nobody has called the cleanup of task 1. -/
structure Crowding (h : Host) : Prop where
  alone : Booth.Alone { gateway := h.gateway, come := h.made.length } crowded
  first : h.made[0]? = some (1, doomed)
  starter : h.starter = .atOnce
  accepting : h.gateway.accepting = true
  threading : h.gateway.threading = true
  max : h.gateway.max = 20
  uncleaned : cleanings 0 h.trace = 0

namespace Crowding

theorem admission (crowding : Crowding h) : h.gateway.admission 2 = .thread := by
  have waiters : h.gateway.waiters = [crowded] := crowding.alone.waiters
  simp [Gateway.admission, Gateway.objection, Gateway.live, Gateway.isWaiting, waiters, crowded,
    crowding.accepting, crowding.threading, crowding.max]

theorem standing (crowding : Crowding h) : crowded ∈ h.gateway.waiters := by
  have waiters : h.gateway.waiters = [crowded] := crowding.alone.waiters
  rw [waiters]
  exact List.mem_singleton_self _

theorem suspend (crowding : Crowding h) (few : h.made.length < Gateway.handleLimit) :
    Crowding (h.suspend 2 echoing).2 ∧
      (h.suspend 2 echoing).2.made.length = h.made.length + 1 := by
  obtain ⟨gateway, made, starter, cleaned⟩ :=
    suspend_atOnce (n := 0) crowding.starter crowding.admission
  have some_made : 0 < h.made.length := (List.getElem?_eq_some_iff.1 crowding.first).1
  have length : (h.suspend 2 echoing).2.made.length = h.made.length + 1 := by
    rw [made, List.length_append, List.length_singleton]
  refine ⟨⟨?_, ?_, starter, ?_, ?_, ?_, cleaned.trans crowding.uncleaned⟩, length⟩
  · rw [gateway, length]
    exact crowding.alone.passes some_made few h.now.1 2 "echo"
  · rw [made, List.getElem?_append_left some_made, crowding.first]
  · rw [gateway]
    exact crowding.accepting
  · rw [gateway]
    exact crowding.threading
  · rw [gateway]
    exact crowding.max

end Crowding

end MooCore.Background
