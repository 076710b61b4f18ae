import MooCore.Proofs.Background.Cleanups
/-!
# Letting requests in

Whether a request is turned down, done on the spot or given a waiter is decided by checks in a fixed
order. Whatever happens in between, a task has at most one waiter, the handles rise from the first
waiter to the last until they run out, and there are never more waiters than the highest limit there
has been.
-/

set_option autoImplicit false
namespace MooCore.Background
namespace Gateway

/-- How many waiters were registered since the table was last empty. The streak itself starts over
only with the next waiter. -/
def sinceEmpty (g : Gateway) : Nat := if g.waiters.isEmpty then 0 else g.streak

/-- What one step can do to the table: nothing but marks, a waiter leaves, or one is let in. -/
inductive Turn (g : Gateway) : Gateway → Prop
  | kept {g' : Gateway} (entries : g'.waiters.map Waiter.entry = g.waiters.map Waiter.entry)
      (next : g'.next = g.next) (streak : g'.streak = g.streak) : Turn g g'
  | left (h : Handle) : Turn g (g.remove h)
  | came (now : Instant) (n : Nat) (task : TaskId) (title : String)
      (room : g.objection task = none) : Turn g (g.register now n task title).2

/-- No handle and no task is in the table twice, and until handles run out they rise and the next
one is above them all. -/
structure Ordered (g : Gateway) : Prop where
  handles : g.handles.Nodup
  tasks : (g.waiters.map Waiter.task).Nodup
  rising : g.sinceEmpty ≤ handleLimit → g.handles.Pairwise (· < ·)
  bounded : g.sinceEmpty ≤ handleLimit → ∀ h ∈ g.handles, h.toNat ≤ g.streak
  next : g.waiters ≠ [] → g.sinceEmpty < handleLimit → g.next.toNat = g.streak + 1

variable {g g' : Gateway} {task : TaskId} {m : Nat}

theorem sinceEmpty_eq (some_there : g.waiters ≠ []) : g.sinceEmpty = g.streak := by
  rw [sinceEmpty, if_neg (by simpa using some_there)]

theorem handles_eq (g : Gateway) : g.handles = (g.waiters.map Waiter.entry).map Prod.fst := by
  rw [handles, List.map_map]
  rfl

theorem tasks_eq (g : Gateway) :
    g.waiters.map Waiter.task = (g.waiters.map Waiter.entry).map (·.2.2) := by
  rw [List.map_map]
  rfl

theorem waiters_ne_nil {h : Handle} (there : h ∈ g.handles) : g.waiters ≠ [] := by
  intro none_there
  rw [handles, none_there] at there
  cases there

theorem room_of_objection (room : g.objection task = none) :
    g.live < g.max ∧ task ∉ g.waiters.map Waiter.task := by
  unfold objection at room
  split at room
  · cases room
  · rename_i few
    split at room
    · cases room
    · rename_i absent
      refine ⟨Nat.lt_of_not_le few, fun there => absent ?_⟩
      obtain ⟨w, hw, same⟩ := List.mem_map.1 there
      exact List.any_eq_true.2 ⟨w, hw, decide_eq_true same⟩

theorem register_used (used : g.fresh ∈ g.handles) (now : Instant) (n : Nat) (task : TaskId)
    (title : String) :
    (g.register now n task title).2.waiters = g.waiters.map fun old =>
      if old.handle = g.fresh then { handle := g.fresh, request := n, task, title, started := now }
      else old := by
  have somebody : (g.waiter? g.fresh).isSome = true := by
    obtain ⟨w, hw, same⟩ := List.mem_map.1 used
    exact List.find?_isSome.2 ⟨w, hw, decide_eq_true same⟩
  simp only [register, somebody, if_true]

namespace Ordered

theorem of_sublist (ordered : Ordered g)
    (fewer : (g'.waiters.map Waiter.entry).Sublist (g.waiters.map Waiter.entry))
    (next : g'.next = g.next) (streak : g'.streak = g.streak) : Ordered g' := by
  have handles : g'.handles.Sublist g.handles := by
    rw [handles_eq, handles_eq]
    exact fewer.map _
  have before : g'.waiters ≠ [] → g.waiters ≠ [] := by
    rintro some_left none_before
    rw [none_before] at fewer
    exact some_left (List.map_eq_nil_iff.1 (List.sublist_nil.1 fewer))
  have since : g'.waiters ≠ [] → g.sinceEmpty = g'.sinceEmpty := by
    intro some_left
    rw [sinceEmpty_eq some_left, sinceEmpty_eq (before some_left), streak]
  constructor
  case handles => exact ordered.handles.sublist handles
  case tasks =>
    have tasks := ordered.tasks
    rw [tasks_eq] at tasks ⊢
    exact tasks.sublist (fewer.map _)
  case rising =>
    intro few
    by_cases none_left : g'.waiters = []
    · rw [Gateway.handles, none_left]
      exact List.Pairwise.nil
    · exact (ordered.rising (since none_left ▸ few)).sublist handles
  case bounded =>
    intro few h there
    rw [streak]
    exact ordered.bounded (since (waiters_ne_nil there) ▸ few) h (handles.subset there)
  case next =>
    intro some_left few
    rw [next, streak]
    exact ordered.next (before some_left) (since some_left ▸ few)

theorem fresh_toNat (ordered : Ordered g) (few : g.sinceEmpty < handleLimit) :
    g.fresh.toNat = g.sinceEmpty + 1 := by
  by_cases empty : g.waiters = []
  · simp [fresh, sinceEmpty, empty]
  · rw [fresh, if_neg (by simpa using empty), ordered.next empty few, sinceEmpty_eq empty]

theorem above (ordered : Ordered g) (few : g.sinceEmpty < handleLimit) {h : Handle}
    (there : h ∈ g.handles) : h < g.fresh := by
  rw [UInt32.lt_iff_toNat_lt, ordered.fresh_toNat few, sinceEmpty_eq (waiters_ne_nil there)]
  exact Nat.lt_succ_of_le (ordered.bounded few.le h there)

theorem fresh_unused (ordered : Ordered g) (few : g.sinceEmpty < handleLimit) :
    g.fresh ∉ g.handles := fun used => UInt32.lt_irrefl _ (ordered.above few used)

/-- The next waiter goes to the end. -/
theorem added (ordered : Ordered g) (unused : g.fresh ∉ g.handles) (now : Instant) (n : Nat)
    (title : String) (absent : task ∉ g.waiters.map Waiter.task) :
    Ordered (g.register now n task title).2 := by
  have waiters := register_unused unused now n task title
  have handles : (g.register now n task title).2.handles = g.handles ++ [g.fresh] := by
    simp only [Gateway.handles, waiters, List.map_append, List.map_cons, List.map_nil]
  have some_there : (g.register now n task title).2.waiters ≠ [] := by simp [waiters]
  have streak : (g.register now n task title).2.streak = g.sinceEmpty + 1 := by
    by_cases empty : g.waiters = [] <;> simp [Gateway.register, sinceEmpty, empty]
  have streak_le : g.streak ≤ (g.register now n task title).2.streak ∨ g.handles = [] := by
    by_cases empty : g.waiters = []
    · exact Or.inr (by rw [Gateway.handles, empty, List.map_nil])
    · exact Or.inl (by rw [streak, sinceEmpty_eq empty]; exact Nat.le_succ _)
  have since := sinceEmpty_eq some_there
  constructor
  case handles =>
    rw [handles, List.nodup_append_comm]
    exact List.nodup_cons.2 ⟨unused, ordered.handles⟩
  case tasks =>
    rw [waiters, List.map_append, List.nodup_append_comm]
    exact List.nodup_cons.2 ⟨absent, ordered.tasks⟩
  case rising =>
    intro few
    have few' : g.sinceEmpty < handleLimit := by omega
    rw [handles, List.pairwise_append]
    refine ⟨ordered.rising few'.le, List.pairwise_singleton _ _, fun h there _ last => ?_⟩
    rw [List.mem_singleton.1 last]
    exact ordered.above few' there
  case bounded =>
    intro few h there
    have few' : g.sinceEmpty < handleLimit := by omega
    rw [handles] at there
    rcases List.mem_append.1 there with old | new
    · have bound := ordered.bounded few'.le h old
      rcases streak_le with le | none_there
      · exact bound.trans le
      · rw [none_there] at old
        cases old
    · rw [List.mem_singleton.1 new, ordered.fresh_toNat few', streak]
  case next =>
    intro _ few
    have few' : g.sinceEmpty < handleLimit := by omega
    change (successor g.fresh).toNat = _
    rw [successor_toNat, ordered.fresh_toNat few', streak]
    rw [ordered.fresh_toNat few']
    unfold handleLimit at few
    omega

/-- The next waiter takes the place of another one, which can only be when handles have run out. -/
theorem replaced (ordered : Ordered g) (used : g.fresh ∈ g.handles) (now : Instant) (n : Nat)
    (title : String) (absent : task ∉ g.waiters.map Waiter.task) :
    Ordered (g.register now n task title).2 := by
  have waiters := register_used used now n task title
  have some_before := waiters_ne_nil used
  have many : handleLimit ≤ g.streak := by
    rw [← sinceEmpty_eq some_before]
    exact Nat.le_of_not_lt fun few => ordered.fresh_unused few used
  have since : (g.register now n task title).2.sinceEmpty = g.streak + 1 := by
    rw [sinceEmpty_eq (by rw [waiters]; simpa using some_before)]
    simp [Gateway.register, some_before]
  have handles : (g.register now n task title).2.handles = g.handles := by
    simp only [Gateway.handles, waiters, List.map_map]
    refine List.map_congr_left fun w _ => ?_
    simp only [Function.comp_apply]
    split
    · rename_i same
      exact same.symm
    · rfl
  constructor
  case handles => exact handles ▸ ordered.handles
  case tasks =>
    -- only one waiter has the handle, so the task comes in once
    rw [waiters, List.map_map]
    refine List.Nodup.map_on (fun v hv w hw same => ?_) (List.Nodup.of_map _ ordered.handles)
    have task_ne : ∀ u ∈ g.waiters, u.task ≠ task := fun u hu is =>
      absent (is ▸ List.mem_map_of_mem hu)
    simp only [Function.comp_apply] at same
    split at same
    · rename_i first
      split at same
      · rename_i second
        exact List.inj_on_of_nodup_map ordered.handles hv hw (first.trans second.symm)
      · exact absurd same.symm (task_ne w hw)
    · split at same
      · exact absurd same (task_ne v hv)
      · exact List.inj_on_of_nodup_map ordered.tasks hv hw same
  case rising => intro few; omega
  case bounded => intro few; omega
  case next => intro _ few; omega

theorem turn (ordered : Ordered g) (turn : g.Turn g') : Ordered g' := by
  cases turn with
  | kept entries next streak => exact ordered.of_sublist (by rw [entries]) next streak
  | left h => exact ordered.of_sublist (List.filter_sublist.map _) rfl rfl
  | came now n task title room =>
    have absent := (room_of_objection room).2
    by_cases used : g.fresh ∈ g.handles
    · exact ordered.replaced used now n title absent
    · exact ordered.added used now n title absent

end Ordered

theorem Turn.live_le (turn : g.Turn g') (limit : g.max ≤ m) (few : g.live ≤ m) : g'.live ≤ m := by
  cases turn with
  | kept entries =>
    have same := congrArg List.length entries
    rw [List.length_map, List.length_map] at same
    exact same.trans_le few
  | left h => exact (List.length_filter_le _ _).trans few
  | came now n task title room =>
    have room := (room_of_objection room).1
    rw [live]
    by_cases used : g.fresh ∈ g.handles
    · rw [register_used used, List.length_map]
      exact few
    · rw [register_unused used, List.length_append, List.length_singleton]
      exact room.trans_le limit

end Gateway

/-! ## Steps -/

variable {n : Nat} {task : TaskId} {h h' : Host} {place : Place} {next : Option Place}
  {r : Request} {s s' : Traffic} {m : Nat}

theorem Place.Step.turn (step : place.Step n task h h' next) : h.gateway.Turn h'.gateway := by
  have same : ∀ {g : Gateway}, g = h.gateway → h.gateway.Turn g := fun same =>
    same ▸ .kept rfl rfl rfl
  cases step with
  | shut | admitted | inline | queued | turned | begun | refused | started => exact same rfl
  | enrolled room => exact .came _ _ _ _ room
  | abandoned | failed => exact same (h.abandon_aside n _).gateway
  | withdrawn => exact .left _
  | returned ending => exact same (h.result_aside ending).gateway
  | cleaned => exact same (h.cleanUp_aside n _ _).gateway
  | immediate => exact same (h.dropExtra_aside _).gateway
  | @retired handle v extra =>
    have table : (h.retire n handle task v extra).gateway = h.gateway.remove handle :=
      (h.retire_ends n handle task v extra).gateway
    exact table ▸ .left handle

theorem Traffic.Step.turn (step : s.Step s') : s.host.gateway.Turn s'.host.gateway := by
  cases step with
  | ask | order | remark => exact .kept rfl rfl rfl
  | go step => exact step.turn
  | kill _ task => exact .kept (kill_entries _ task) rfl rfl
  | enumerate _ rule =>
    obtain ⟨picked, -, table, -, -⟩ := Books.offer_eq rule s.host.gateway s.host.gateway.waiters
    change s.host.gateway.Turn (Gateway.offer rule _ _).2
    rw [table]
    refine .kept (deactivateAll_entries _ picked) ?_ ?_ <;> rw [Books.deactivateAll_eq]
  | elsewhere _ _ waiters next streak => exact .kept (by rw [waiters]) next streak

theorem Traffic.Runs.ordered (runs : s.Runs s') (ordered : s.host.gateway.Ordered) :
    s'.host.gateway.Ordered := by
  induction runs with
  | refl => exact ordered
  | tail _ last ih => exact ih.turn last.turn

/-- Runs throughout which the limit is at most `m`. -/
abbrev Traffic.Under (m : Nat) : Traffic → Traffic → Prop :=
  Relation.ReflTransGen fun s s' => s.host.gateway.max ≤ m ∧ s.Step s'

theorem Traffic.Under.live_le (runs : s.Under m s') (few : s.host.gateway.live ≤ m) :
    s'.host.gateway.live ≤ m := by
  induction runs with
  | refl => exact few
  | tail _ last ih => exact last.2.turn.live_le last.1 ih

theorem opened_ordered (w : Workspace) (l : Lobby) (max : Nat) (threading : Bool) :
    (Host.opened w l max threading).gateway.Ordered where
  handles := List.nodup_nil
  tasks := List.nodup_nil
  rising := fun _ => List.Pairwise.nil
  bounded := fun _ _ there => absurd there List.not_mem_nil
  next := fun some_there => absurd rfl some_there

/-! ## Decisions -/

/-- A request was refused: no waiter, no job and no result is there that was not there before, and
all that happened was its cleanup. -/
structure Refused (h : Host) (task : TaskId) (r : Request) (why : Refusal) : Prop where
  answer : (h.suspend task r).1 = .error why
  waiters : (h.suspend task r).2.gateway.waiters = h.gateway.waiters
  jobs : (h.suspend task r).2.jobs = h.jobs
  channel : (h.suspend task r).2.channel = h.channel
  trace : ∃ es : List Event, (∀ e ∈ es, Event.isAside e = true) ∧
    (h.suspend task r).2.trace = h.trace ++ es ++ [.refused h.made.length why]

/-- A request was refused before anything was registered. -/
structure TurnedDown (h : Host) (task : TaskId) (r : Request) (why : Refusal) : Prop
    extends Refused h task r why where
  gateway : (h.suspend task r).2.gateway = h.gateway

/-- A request was done on the spot: its callback came to the answer, and nothing that it left in the
table, in the channel or among the jobs was touched afterwards. -/
structure DoneOnTheSpot (h : Host) (task : TaskId) (r : Request) (worked : Value × Host) :
    Prop where
  answer : (h.suspend task r).1 = .ok (.immediate worked.1)
  gateway : (h.suspend task r).2.gateway = worked.2.gateway
  jobs : (h.suspend task r).2.jobs = worked.2.jobs
  channel : (h.suspend task r).2.channel = worked.2.channel

def Host.newcomer (h : Host) (task : TaskId) (r : Request) : Waiter :=
  { handle := h.gateway.fresh, request := h.made.length, task, title := r.title,
    started := h.now.1 }

/-- A host with one more waiter, whose thread has been started. -/
structure Begun (h : Host) (w : Waiter) (jobs : List Job) (h' : Host) : Prop where
  waiters : h'.gateway.waiters = h.gateway.waiters ++ [w]
  jobs : h'.jobs = jobs
  channel : h'.channel = h.channel
  trace : h'.trace = h.trace ++ [.accepted w.request w.handle w.task]

def Launched (h : Host) (task : TaskId) (r : Request) : Prop :=
  let w := h.newcomer task r
  match h.starter with
  | .later => (h.suspend task r).1 = .ok (.waiting w.handle) ∧
      Begun h w (h.jobs ++ [{ handle := w.handle, request := w.request, task, stage := .ready r }])
        (h.suspend task r).2
  | .atOnce => (h.suspend task r).1 = .ok (.waiting w.handle) ∧ ∃ begun : Host,
      Begun h w h.jobs begun ∧ (h.suspend task r).2 =
        begun.runAtOnce (Host.call r.callback) w.request w.handle task r
  | .failing message => Refused h task r (.spawnFailed message)

/-- The checks in their order, each made only when those before it have passed. -/
structure Decided (h : Host) (task : TaskId) (r : Request) : Prop where
  shut : h.gateway.accepting = false → TurnedDown h task r .shuttingDown
  inline : h.gateway.accepting = true → h.gateway.threading = false →
    DoneOnTheSpot h task r ((h.count task r).2.work (Host.call r.callback) none r)
  full : h.gateway.accepting = true → h.gateway.threading = true →
    h.gateway.max ≤ h.gateway.live →
      TurnedDown h task r (.tooManyThreads h.gateway.live h.gateway.max)
  waiting : h.gateway.accepting = true → h.gateway.threading = true →
    h.gateway.live < h.gateway.max → h.gateway.isWaiting task = true →
      TurnedDown h task r (.alreadyWaiting task)
  launched : h.gateway.accepting = true → h.gateway.threading = true →
    h.gateway.live < h.gateway.max → h.gateway.isWaiting task = false → Launched h task r

theorem refuse_trace (h : Host) (n : Nat) (e : Envelope) (why : Refusal) :
    ∃ es : List Event, (∀ e ∈ es, Event.isAside e = true) ∧
      (h.refuse n e why).2.trace = h.trace ++ es ++ [.refused n why] := by
  obtain ⟨es, trace, mute⟩ := (h.abandon_aside n e).trace
  exact ⟨es, mute, by rw [← trace]; rfl⟩

theorem suspend_turnedDown (why : Refusal) (refused : h.gateway.admission task = .refused why) :
    TurnedDown h task r why := by
  have asked : h.suspend task r = (h.count task r).2.refuse h.made.length r.toEnvelope why := by
    have checked : (h.count task r).2.gateway.admission task = .refused why := refused
    simp only [Host.suspend, Host.suspendBy, checked]
    rfl
  have given := (h.count task r).2.abandon_aside h.made.length r.toEnvelope
  constructor
  case gateway => rw [asked]; exact given.gateway
  constructor
  case answer => rw [asked]; rfl
  case waiters => rw [asked]; exact congrArg Gateway.waiters given.gateway
  case jobs => rw [asked]; exact given.jobs
  case channel => rw [asked]; exact given.channel
  case trace => rw [asked]; exact refuse_trace _ _ _ _

theorem suspend_doneOnTheSpot (inline : h.gateway.admission task = .inline) :
    DoneOnTheSpot h task r ((h.count task r).2.work (Host.call r.callback) none r) := by
  have asked : h.suspend task r =
      (h.count task r).2.runInline (Host.call r.callback) h.made.length r := by
    have checked : (h.count task r).2.gateway.admission task = .inline := inline
    simp only [Host.suspend, Host.suspendBy, checked]
    rfl
  rw [Host.runInline] at asked
  generalize (h.count task r).2.work (Host.call r.callback) none r = worked at asked
  have after := ((worked.2.note (.returned h.made.length worked.1)).cleanUp_aside h.made.length
    r.extra r.cleanup).trans (Host.dropExtra_aside _ ((worked.2.note
      (.returned h.made.length worked.1)).cleanUp h.made.length r.extra r.cleanup).1)
  constructor
  case answer => rw [asked]
  case gateway => rw [asked]; exact after.gateway
  case jobs => rw [asked]; exact after.jobs
  case channel => rw [asked]; exact after.channel

theorem suspend_launched (unused : h.gateway.fresh ∉ h.gateway.handles)
    (thread : h.gateway.admission task = .thread) : Launched h task r := by
  have asked : h.suspend task r = (h.now.2.enroll task r h.now.1).launch (Host.call r.callback)
      h.made.length h.gateway.fresh task r := by
    have checked : (h.count task r).2.gateway.admission task = .thread := thread
    simp only [Host.suspend, Host.suspendBy, checked]
    rfl
  have waiters : (h.now.2.enroll task r h.now.1).gateway.waiters =
      h.gateway.waiters ++ [h.newcomer task r] :=
    Gateway.register_unused unused h.now.1 h.made.length task r.title
  have left : ((h.now.2.enroll task r h.now.1).gateway.remove h.gateway.fresh).waiters =
      h.gateway.waiters :=
    Gateway.register_remove_unused unused h.now.1 h.made.length task r.title
  have way : (h.now.2.enroll task r h.now.1).starter = h.starter := rfl
  have before : (h.now.2.enroll task r h.now.1).jobs = h.jobs ∧
      (h.now.2.enroll task r h.now.1).channel = h.channel ∧
      (h.now.2.enroll task r h.now.1).trace = h.trace := ⟨rfl, rfl, rfl⟩
  generalize h.now.2.enroll task r h.now.1 = entered at asked waiters left way before
  obtain ⟨jobs, channel, trace⟩ := before
  unfold Launched Host.launch at *
  rw [way] at asked
  cases starter : h.starter with
  | later =>
    rw [starter] at asked
    dsimp only at asked ⊢
    rw [asked, ← jobs]
    exact ⟨rfl, waiters, rfl, channel, congrArg (· ++ _) trace⟩
  | atOnce =>
    rw [starter] at asked
    dsimp only at asked ⊢
    rw [asked]
    exact ⟨rfl, entered.note (.accepted h.made.length h.gateway.fresh task),
      ⟨waiters, jobs, channel, congrArg (· ++ _) trace⟩, rfl⟩
  | failing message =>
    rw [starter] at asked
    dsimp only at asked ⊢
    have given := entered.abandon_aside h.made.length r.toEnvelope
    constructor
    case answer => rw [asked]; rfl
    case waiters =>
      rw [asked]
      change ((entered.abandon h.made.length r.toEnvelope).gateway.remove
        h.gateway.fresh).waiters = _
      rw [given.gateway, left]
    case jobs => rw [asked]; exact given.jobs.trans jobs
    case channel => rw [asked]; exact given.channel.trans channel
    case trace =>
      rw [asked, ← trace]
      exact refuse_trace _ _ _ _

theorem suspend_decided (ordered : h.gateway.Ordered)
    (few : h.gateway.sinceEmpty < Gateway.handleLimit) (task : TaskId) (r : Request) :
    Decided h task r where
  shut := fun closed => suspend_turnedDown _ (by simp [Gateway.admission, closed])
  inline := fun opened off => suspend_doneOnTheSpot (by simp [Gateway.admission, opened, off])
  full := fun opened on full => suspend_turnedDown _ (by
    simp [Gateway.admission, Gateway.objection, opened, on, full])
  waiting := fun opened on room waits => suspend_turnedDown _ (by
    simp [Gateway.admission, Gateway.objection, opened, on, Nat.not_le.2 room, waits])
  launched := fun opened on room alone => suspend_launched (ordered.fresh_unused few) (by
    simp [Gateway.admission, Gateway.objection, opened, on, Nat.not_le.2 room, alone])

/-- From the start, with requests, threads, kills and changes of the limits taking turns in any
order: requests are decided by the checks in their order, and a new handle is above the others, as
long as handles have not run out since the table was last empty; no task has two waiters; the
handles rise; there are never more waiters than the highest limit there has been; and a change of
the limit is only that. -/
theorem requests_decided_in_order (w : Workspace) (l : Lobby) (max : Nat) (threading : Bool)
    {s : Traffic} (reached : (Host.opened w l max threading).traffic.Runs s) :
    let g := s.host.gateway
    (g.sinceEmpty < Gateway.handleLimit →
      (∀ task r, Decided s.host task r) ∧ ∀ h ∈ g.handles, h < g.fresh) ∧
    (g.waiters.map Waiter.task).Nodup ∧
    (g.sinceEmpty ≤ Gateway.handleLimit → g.handles.Pairwise (· < ·)) ∧
    (∀ m, Traffic.Under m (Host.opened w l max threading).traffic s → g.live ≤ m) ∧
    ∀ m, s.Step { s with host := (Move.setMax m).carryOut s.host } ∧
      ((Move.setMax m).carryOut s.host).gateway.waiters = g.waiters := by
  have ordered := reached.ordered (opened_ordered w l max threading)
  refine ⟨fun few => ⟨suspend_decided ordered few, fun h there => ordered.above few there⟩,
    ordered.tasks, ordered.rising, fun m under => ?_, fun m => ⟨?_, rfl⟩⟩
  · exact Traffic.Under.live_le under (Nat.zero_le m)
  · exact .elsewhere s.host ((Move.setMax m).carryOut s.host) rfl rfl rfl rfl rfl rfl rfl s.passages

/-- A task asks for work and is killed while its thread is at work, and the limit is lowered. -/
def lowered : Host :=
  (Host.opened Workspace.start { sessions := { timeout := 0 } } 2 true).carryOut
    [.suspend 1 echoing, .kill 1, .setMax 1]

/-- The waiter of the killed task still counts. -/
theorem lowered_full :
    lowered.gateway.live = 1 ∧ TurnedDown lowered 2 echoing (.tooManyThreads 1 1) ∧
      Traffic.Under 2 (Host.opened Workspace.start { sessions := { timeout := 0 } } 2 true).traffic
        lowered.traffic ∧ lowered.gateway.live ≤ 2 := by
  have reached := Host.carryOut_runs
    (Host.opened Workspace.start { sessions := { timeout := 0 } } 2 true)
    [.suspend 1 echoing, .kill 1, .setMax 1]
  obtain ⟨decided, -, -, bounded, -⟩ := requests_decided_in_order _ _ _ _ reached
  have under : Traffic.Under 2
      (Host.opened Workspace.start { sessions := { timeout := 0 } } 2 true).traffic
      lowered.traffic := by
    refine .tail (.tail (.tail (.tail (.tail (.tail (.tail .refl ⟨?_, .ask _ 1 echoing⟩)
      ⟨?_, .go (.admitted ?_) _⟩) ⟨?_, .go (.queued ?_) _⟩) ⟨?_, .go (.enrolled ?_) _⟩)
      ⟨?_, .go .started _⟩) ⟨?_, .kill _ 1⟩) ⟨?_, .elsewhere _ _ ?_ ?_ ?_ ?_ ?_ ?_ ?_ _⟩
    all_goals rfl
  exact ⟨rfl, ((decided (by decide)).1 2 echoing).full rfl rfl (by decide), under, bounded 2 under⟩

end MooCore.Background
