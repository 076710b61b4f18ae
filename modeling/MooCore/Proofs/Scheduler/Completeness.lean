import MooCore.Proofs.Scheduler.Closing
import MooCore.Proofs.Scheduler.Drain
import MooCore.Proofs.Scheduler.Tallies
/-!
# Nothing is left behind

A server that waits for its background threads, and does not stop because the time is up, has no
task left in the end. Every task that was there has gone its whole course.
-/

set_option autoImplicit false
namespace MooCore
namespace Scheduler
open Background

variable {s : Scheduler} {task : TaskId}

theorem pick_keys (s : Scheduler) (task : TaskId) (input : Input) :
    (s.pick task input).2.tasks.map Prod.fst = s.tasks.map Prod.fst := by
  unfold pick
  split
  · cases input <;> rfl
  · dsimp only
    split
    · cases input <;> rfl
    · refine (updateTask_keys _ task fun t => { t with body := none }).trans ?_
      cases input <;> rfl

theorem pick_there {input : Input} {caller : Caller} {act : Act}
    (picked : (s.pick task input).1 = some (caller, act)) :
    caller.task = task ∧ task ∈ s.tasks.map Prod.fst := by
  unfold pick at picked
  cases found : s.tasks.get? task with
  | none =>
    rw [found] at picked
    cases picked
  | some t =>
    rw [found] at picked
    dsimp only at picked
    cases body : t.body with
    | none =>
      rw [body] at picked
      cases picked
    | some b =>
      rw [body] at picked
      cases picked
      exact ⟨rfl, List.mem_map_of_mem (Named.mem_of_get? found)⟩

theorem move_there {caller : Caller} {act act' : Act}
    (goes_on : (act.move caller s).1 = .inl act') (there : caller.task ∈ s.tasks.map Prod.fst) :
    caller.task ∈ (act.move caller s).2.tasks.map Prod.fst := by
  cases act with
  | complete v | abort message => cases goes_on
  | effect e next =>
    have same : (s.perform e).2.tasks = s.tasks := (s.perform_alike e).tasks
    exact (congrArg (fun tasks => caller.task ∈ tasks.map Prod.fst) same).mpr there
  | background envelope callback held next =>
    rw [Act.move] at goes_on ⊢
    dsimp only at goes_on ⊢
    generalize immediate? _ _ = answer at goes_on ⊢
    obtain ⟨h | v, s⟩ := answer
    · cases goes_on
    · dsimp only at goes_on ⊢
      cases found : s.killAsked.tasks.get? caller.task with
      | none =>
        rw [found] at goes_on
        cases goes_on
      | some t =>
        refine (updateTask_keys s.killAsked caller.task fun t => { t with body := none }).symm ▸ ?_
        exact List.mem_map_of_mem (Named.mem_of_get? found)

namespace Drain

def Stage.bench : Stage → Bench
  | .stepping batch => { batch }
  | .acting caller _ batch => { batch, free := some caller.task }
  | .messages | .results | .looking | .waiting | .closed => {}

def hand (d : Drain) : Hand where
  batch := d.stage.bench.batch.map Prod.fst
  free := d.stage.bench.free

def Stage.Acts (s : Scheduler) : Stage → Prop
  | .acting caller act _ => act.Calm ∧ caller.task ∈ s.tasks.map Prod.fst
  | _ => True

/-- What a turn can do. -/
inductive Effect : Drain → Drain → Prop where
  | stays (d : Drain) : Effect d d
  | arrives (d : Drain) (ticket : Checkpoint.Ticket) (m : Message) (calm : m.Calm) :
      Effect d { d with server := { d.server with messages := d.server.messages ++ [(ticket, m)] } }
  | works (d : Drain) (handle : Handle) :
      Effect d { d with server := d.server.onHost (·.step handle) }
  | elsewhere (d : Drain) (w : Workspace) (l : Lobby) (clock : Instant) :
      Effect d { d with server := { d.server with toWorkspace := w, toLobby := l, clock } }
  | message (s : Scheduler) (last timedOut : Bool) :
      Effect ⟨s, .messages, last, timedOut⟩ ⟨s.takeMessage, .messages, last, timedOut⟩
  | heard (s : Scheduler) (last timedOut : Bool) :
      Effect ⟨s, .messages, last, timedOut⟩ ⟨s, .results, last, timedOut⟩
  | result (s : Scheduler) (last timedOut : Bool) :
      Effect ⟨s, .results, last, timedOut⟩ ⟨s.takeCompletion, .results, last, timedOut⟩
  | takesUp (s : Scheduler) (last timedOut : Bool) (none_left : s.channel = []) :
      Effect ⟨s, .results, last, timedOut⟩
        ⟨{ s with ready := [] }, .stepping s.ready, last, timedOut⟩
  | passes {s s' : Scheduler} {task : TaskId} {input : Input} (batch : List (TaskId × Input))
      (last timedOut : Bool) (passed : s.pick task input = (none, s')) :
      Effect ⟨s, .stepping ((task, input) :: batch), last, timedOut⟩
        ⟨s', .stepping batch, last, timedOut⟩
  | picks {s s' : Scheduler} {task : TaskId} {input : Input} {caller : Caller} {act : Act}
      (batch : List (TaskId × Input)) (last timedOut : Bool)
      (picked : s.pick task input = (some (caller, act), s')) :
      Effect ⟨s, .stepping ((task, input) :: batch), last, timedOut⟩
        ⟨s', .acting caller act batch, last, timedOut⟩
  | goesOn {s s' : Scheduler} {caller : Caller} {act act' : Act} (batch : List (TaskId × Input))
      (last timedOut : Bool) (moved : act.move caller s = (.inl act', s')) :
      Effect ⟨s, .acting caller act batch, last, timedOut⟩
        ⟨s', .acting caller act' batch, last, timedOut⟩
  | ends {s s' : Scheduler} {caller : Caller} {act : Act} {outcome : StepOutcome}
      (batch : List (TaskId × Input)) (last timedOut : Bool)
      (moved : act.move caller s = (.inr outcome, s')) :
      Effect ⟨s, .acting caller act batch, last, timedOut⟩
        ⟨s'.releaseOutcome outcome, .stepping batch, last, timedOut⟩
  | caughtUp (s : Scheduler) (timedOut : Bool) :
      Effect ⟨s, .stepping [], false, timedOut⟩ ⟨s, .looking, false, timedOut⟩
  | closes (s : Scheduler) (timedOut : Bool) :
      Effect ⟨s, .stepping [], true, timedOut⟩ ⟨s, .closed, true, timedOut⟩
  | lastRound (s : Scheduler) (last timedOut : Bool) (idle : s.gateway.waiters = []) :
      Effect ⟨s, .looking, last, timedOut⟩ ⟨s, .messages, true, timedOut⟩
  | waits (s : Scheduler) (last timedOut : Bool) :
      Effect ⟨s, .looking, last, timedOut⟩ ⟨s, .waiting, last, timedOut⟩
  | wakes (s : Scheduler) (last timedOut eager : Bool) :
      Effect ⟨s, .waiting, last, timedOut⟩ ⟨s.waitForEvent eager, .messages, last, timedOut⟩
  | timeUp (s : Scheduler) (last timedOut : Bool) :
      Effect ⟨s, .looking, last, timedOut⟩ ⟨s, .messages, true, true⟩

variable {d d' : Drain}

theorem proceed_effect (d : Drain) : Effect d d.proceed := by
  obtain ⟨s, stage, last, timedOut⟩ := d
  cases stage with
  | messages =>
    rw [proceed]
    dsimp only
    split
    · exact .heard s last timedOut
    · exact .message s last timedOut
  | results =>
    rw [proceed]
    dsimp only
    split
    · rename_i empty
      exact .takesUp s last timedOut (List.isEmpty_iff.1 empty)
    · exact .result s last timedOut
  | stepping batch =>
    cases batch with
    | nil =>
      cases last with
      | false => exact .caughtUp s timedOut
      | true => exact .closes s timedOut
    | cons entry batch =>
      obtain ⟨task, input⟩ := entry
      rw [proceed]
      dsimp only
      split
      · rename_i picked
        exact .picks batch last timedOut picked
      · rename_i passed
        exact .passes batch last timedOut passed
  | acting caller act batch =>
    rw [proceed]
    dsimp only
    split
    · rename_i moved
      exact .goesOn batch last timedOut moved
    · rename_i moved
      exact .ends batch last timedOut moved
  | looking =>
    rw [proceed]
    dsimp only
    split
    · rename_i idle
      exact .lastRound s last timedOut (List.eq_nil_of_length_eq_zero idle)
    · exact .waits s last timedOut
  | waiting | closed => exact .stays _

theorem take_effect {turn : Turn} (calm : turn.Calm) (d : Drain) : Effect d (d.take turn) := by
  cases turn with
  | post ticket m => exact .arrives d ticket m calm
  | work handle => exact .works d handle
  | elsewhere w l clock => exact .elsewhere d w l clock
  | proceed => exact d.proceed_effect
  | wake eager =>
    obtain ⟨s, stage, last, timedOut⟩ := d
    cases stage with
    | waiting => exact .wakes s last timedOut eager
    | _ => exact .stays _
  | timeUp =>
    obtain ⟨s, stage, last, timedOut⟩ := d
    cases stage with
    | looking =>
      rw [take]
      dsimp only
      split
      · exact .stays _
      · exact .timeUp s last timedOut
    | _ => exact .stays _

/-! ## What a turn keeps -/

theorem Effect.onward (effect : Effect d d') :
    Onward (d.stage.Acts d.server) d.server d.hand d'.server d'.hand := by
  cases effect with
  | stays | heard | caughtUp | closes | lastRound | waits | timeUp => exact .refl _ _
  | arrives _ ticket m calm => exact arrive_onward (fun _ => calm) d.server ticket d.hand
  | works _ handle => exact d.server.step_onward handle d.hand
  | elsewhere _ w l clock =>
    have alike : Alike d.server { d.server with toWorkspace := w, toLobby := l, clock } :=
      .of_same rfl
    exact alike.onward d.hand
  | message s => exact s.takeMessage_onward {}
  | result s => exact s.takeCompletion_onward {}
  | takesUp s =>
    refine ⟨Nat.le_refl _, fun _ _ orderly => ?_⟩
    have taken : ({ s with ready := [] } : Scheduler).Orderly
        { batch := s.ready.map Prod.fst ++ [] } := orderly.takeUp
    rwa [List.append_nil] at taken
  | @passes s s' task input batch _ _ passed =>
    have onward := s.pick_onward (p := True) task input { batch := batch.map Prod.fst }
    rw [passed] at onward
    exact ⟨onward.longest, fun _ => onward.orderly trivial⟩
  | @picks s s' task input caller act batch _ _ picked =>
    have onward := s.pick_onward (p := True) task input { batch := batch.map Prod.fst }
    rw [picked] at onward
    exact ⟨onward.longest, fun _ => onward.orderly trivial⟩
  | @goesOn s s' caller act act' batch _ _ moved =>
    have onward := move_onward (p := Stage.Acts s (.acting caller act batch)) (fun given => given.1)
      caller s { batch := batch.map Prod.fst }
    rwa [moved] at onward
  | @ends s s' caller act outcome batch _ _ moved =>
    have onward := move_onward (p := Stage.Acts s (.acting caller act batch)) (fun given => given.1)
      caller s { batch := batch.map Prod.fst }
    rw [moved] at onward
    exact onward.trans ((releaseOutcome_alike s' outcome).onward _)
  | wakes s _ _ eager => exact s.waitForEvent_onward eager {}

/-- A server that takes on nothing more, and whose tasks are in order. -/
structure Ready (d : Drain) : Prop where
  orderly : d.server.Orderly d.hand
  acts : d.stage.Acts d.server
  accepting : d.server.gateway.accepting = false
  draining : d.server.draining = true

theorem Effect.follows (effect : Effect d d') (ready : d.Ready) :
    Follows d.server d.stage.bench d'.server d'.stage.bench := by
  have up (stage : Stage) : stage.bench.down = false := by cases stage <;> rfl
  obtain ⟨orderly, acts, accepting, draining⟩ := ready
  have distinct := orderly.roster.distinct
  cases effect with
  | stays | heard | caughtUp | closes | lastRound | waits | timeUp => exact .refl _ _
  | arrives | elsewhere => exact .same rfl rfl
  | works _ handle => exact step_follows d.hand orderly handle (up d.stage)
  | message s => exact takeMessage_follows draining distinct rfl
  | result s => exact takeCompletion_follows draining orderly rfl
  | takesUp s => exact s.takeUp_follows
  | @passes s s' task input batch _ _ passed =>
    have follows := pick_follows { batch := batch.map Prod.fst } orderly input batch
    rwa [passed] at follows
  | @picks s s' task input caller act batch _ _ picked =>
    have follows := pick_follows { batch := batch.map Prod.fst } orderly input batch
    rwa [picked] at follows
  | @goesOn s s' caller act act' batch _ _ moved =>
    have follows := move_follows { batch := batch.map Prod.fst } act orderly accepting
      acts.2 batch
    rwa [moved] at follows
  | @ends s s' caller act outcome batch _ _ moved =>
    have follows := move_follows { batch := batch.map Prod.fst } act orderly accepting
      acts.2 batch
    rw [moved] at follows
    exact follows.trans (releaseOutcome_follows s' outcome _)
  | wakes s _ _ eager =>
    unfold waitForEvent
    split
    · exact takeCompletion_follows draining orderly rfl
    · exact takeMessage_follows draining distinct rfl

theorem Effect.acts (effect : Effect d d') (ready : d.Ready) : d'.stage.Acts d'.server := by
  obtain ⟨orderly, acts, -, -⟩ := ready
  cases effect with
  | stays | arrives | works | elsewhere => exact acts
  | @picks s s' task input caller act batch _ _ picked =>
    have first : (s.pick task input).1 = some (caller, act) := by rw [picked]
    obtain ⟨rfl, there⟩ := pick_there first
    refine ⟨orderly.calm.pick first, ?_⟩
    have keys := s.pick_keys caller.task input
    rw [picked] at keys
    exact keys.symm ▸ there
  | @goesOn s s' caller act act' batch _ _ moved =>
    have goes_on : (act.move caller s).1 = .inl act' := by rw [moved]
    have there := move_there goes_on acts.2
    rw [moved] at there
    exact ⟨acts.1.move goes_on, there⟩
  | message | heard | result | takesUp | passes | ends | caughtUp | closes | lastRound | waits
  | wakes | timeUp => trivial

def Stage.isActing : Stage → Bool
  | .acting .. => true
  | _ => false

theorem Effect.rested (effect : Effect d d')
    (rested : d.stage.isActing = false → d.server.asked = [])
    (between : d'.stage.isActing = false) : d'.server.asked = [] := by
  cases effect with
  | stays | arrives | works | elsewhere => exact rested between
  | heard | takesUp | caughtUp | closes | lastRound | waits | timeUp => exact rested rfl
  | message s => exact (congrArg Tally.asked s.takeMessage_tally).trans (rested rfl)
  | result s => exact s.takeCompletion_whole.rested (rested rfl)
  | wakes s _ _ eager => exact (s.waitForEvent_whole eager).rested (rested rfl)
  | @passes s s' task input _ _ _ passed =>
    have same := congrArg Tally.asked (s.pick_tally task input)
    rw [passed] at same
    exact same.trans (rested rfl)
  | @ends s s' caller act outcome _ _ _ moved =>
    have ended := move_rested (congrArg Prod.fst moved)
    rw [moved] at ended
    exact (congrArg Tally.asked (s'.releaseOutcome_tally outcome)).trans ended
  | picks | goesOn => cases between

/-- Nothing but turns that were taken up is left of a round. -/
def Stage.isLate : Stage → Bool
  | .stepping _ | .acting .. | .closed => true
  | .messages | .results | .looking | .waiting => false

theorem Effect.last (effect : Effect d d') (last : d'.last = true) (in_time : d'.timedOut = false) :
    (d.last = true ∧ d.timedOut = false) ∨ d'.server.gateway.waiters = [] := by
  cases effect with
  | lastRound _ _ _ idle => exact Or.inr idle
  | timeUp => cases in_time
  | caughtUp => cases last
  | _ => exact Or.inl ⟨last, in_time⟩

theorem Effect.late (effect : Effect d d') (late : d'.stage.isLate = true) :
    (d.stage.isLate = true ∧ d'.last = d.last ∧ d'.timedOut = d.timedOut) ∨
      (d'.server.channel = [] ∧ d'.server.ready = []) := by
  cases effect with
  | takesUp _ _ _ none_left => exact Or.inr ⟨none_left, rfl⟩
  | message | heard | result | caughtUp | lastRound | waits | wakes | timeUp => cases late
  | stays | arrives | works | elsewhere => exact Or.inl ⟨late, rfl, rfl⟩
  | passes | picks | goesOn | ends | closes => exact Or.inl ⟨rfl, rfl, rfl⟩

/-- In the last round of a wait that was not cut short no thread is left, and once its turns are
taken up nothing more can come in. -/
structure Sound (start : Scheduler) (d : Drain) : Prop extends Ready d where
  follows : Follows start {} d.server d.stage.bench
  idle : d.last = true → d.timedOut = false → d.server.gateway.waiters = []
  settled : d.last = true → d.timedOut = false → d.stage.isLate = true →
    d.server.channel = [] ∧ d.server.ready = []
  last : d.stage = .closed → d.last = true
  rested : d.stage.isActing = false → d.server.asked = []

variable {start : Scheduler}

theorem Effect.sound (effect : Effect d d') (sound : d.Sound start)
    (few : d'.server.gateway.longest < Gateway.handleLimit) : d'.Sound start := by
  have follows := effect.follows sound.toReady
  obtain ⟨es, -, runs⟩ := id follows
  have fewer : d'.server.gateway.waiters.map Waiter.task ⊆
      d.server.gateway.waiters.map Waiter.task := runs.table
  refine ⟨⟨effect.onward.orderly sound.acts few sound.orderly, effect.acts sound.toReady, ?_, ?_⟩,
    sound.follows.trans follows, fun last in_time => ?_, fun last in_time late => ?_,
    fun closed => ?_, effect.rested sound.rested⟩
  · exact runs.account.accepting.trans sound.accepting
  · exact runs.account.draining.trans sound.draining
  -- the last round begins only when no thread is left, and none is started any more
  · rcases effect.last last in_time with ⟨last, in_time⟩ | idle
    · rw [sound.idle last in_time] at fewer
      exact List.map_eq_nil_iff.1 (List.eq_nil_of_subset_nil fewer)
    · exact idle
  -- once its turns are taken up, nobody is away who could come back and get a new turn
  · rcases effect.late late with ⟨late, same_last, same_time⟩ | settled
    · rw [same_last] at last
      rw [same_time] at in_time
      obtain ⟨channel, ready⟩ := sound.settled last in_time late
      have table : d.server.gateway.waiters.map Waiter.task = [] := by
        rw [sound.idle last in_time, List.map_nil]
      obtain ⟨settled, no_more⟩ := runs.settled ⟨table, channel⟩
      have none_ready : d'.server.ready ⊆ d.server.ready := no_more
      rw [ready] at none_ready
      exact ⟨settled.channel, List.eq_nil_of_subset_nil none_ready⟩
    · exact settled
  · cases effect with
    | closes => rfl
    | stays | arrives | works | elsewhere => exact sound.last closed
    | _ => cases closed

/-! ## Runs -/

theorem run_longest (d : Drain) (turns : List Turn) (calm : ∀ turn ∈ turns, turn.Calm) :
    d.server.gateway.longest ≤ (d.run turns).server.gateway.longest := by
  induction turns generalizing d with
  | nil => exact Nat.le_refl _
  | cons turn turns ih =>
    have first := (take_effect (calm turn (List.mem_cons_self ..)) d).onward.longest
    exact first.trans (ih _ fun turn mem => calm turn (List.mem_cons_of_mem _ mem))

theorem Sound.run (sound : d.Sound start) {turns : List Turn} (calm : ∀ turn ∈ turns, turn.Calm)
    (few : (d.run turns).server.gateway.longest < Gateway.handleLimit) :
    (d.run turns).Sound start := by
  induction turns generalizing d with
  | nil => exact sound
  | cons turn turns ih =>
    have rest : ∀ turn ∈ turns, turn.Calm := fun turn mem => calm turn (List.mem_cons_of_mem _ mem)
    have first := take_effect (calm turn (List.mem_cons_self ..)) d
    exact ih (first.sound sound ((run_longest _ turns rest).trans_lt few)) rest few

/-! ## What is seen of a wait -/

/-- What is seen, as `es`, from the moment a server begins to wait. Every task goes its course; no
request is accepted, and every one that is made is turned down; results are counted for the tasks
that are there. A task that makes a request is told at once, unless the same step asked for its own
kill; between two steps no kill is asked for. -/
structure Waited (start : Scheduler) (d : Drain) (es : List Event) : Prop where
  trace : d.server.trace = start.trace ++ es
  courses : ∀ id c, (start.docket {}).At id c →
    ∃ c', (d.server.docket d.stage.bench).At id c' ∧ Course.Path d.server.made id c es c'
  none_accepted : ∀ e ∈ es, e.isAccepted = false
  turned_down : ∀ n, start.made.length ≤ n → n < d.server.made.length →
    .refused n .shuttingDown ∈ es
  counted : d.server.stats.resumedDuringDrain =
    (es.foldl Headcount.after ⟨start.tasks.map Prod.fst, 0⟩).returned
  told_at_once : ∀ caller envelope callback held next batch,
    d.stage = .acting caller (.background envelope callback held next) batch →
      (caller.task ∈ d.server.asked ∧ d.proceed.stage = .stepping batch ∧
        caller.task ∉ d.proceed.server.tasks.map Prod.fst) ∨
      (caller.task ∉ d.server.asked ∧ ∃ v, v.shape = Refusal.shuttingDown.errorMap ∧
        d.proceed.stage = .acting caller (next caller (.resume v)) batch)
  rested : d.stage.isActing = false → d.server.asked = []

/-- What has come about when a wait ends that was not cut short. No thread and no task is left:
every task has ended or was killed. Every result was taken; a task that waited for a result, or
whose result was on its way or had been taken already, got it just once and was stepped with it,
unless it was killed; and results were thrown away only if their tasks were killed. -/
structure Completed (start : Scheduler) (d : Drain) (es : List Event) : Prop where
  outstanding : (d.server.conclude d.timedOut).1.outstanding = 0
  counted : (d.server.conclude d.timedOut).1.resumedDuringDrain =
    (es.foldl Headcount.after ⟨start.tasks.map Prod.fst, 0⟩).returned
  none_left : d.server.tasks = []
  ended : ∀ id ∈ start.tasks.map Prod.fst, (∃ result, .ended id result ∈ es) ∨ WasKilled id es
  taken : start.channel ++ sents es = takens es
  awaited : ∀ x ∈ start.tasks, ∀ h, x.2.waiting = some h → WasKilled x.1 es ∨
    ∃ v, [.taken ⟨h, x.1, v⟩, .delivered x.1, .stepped x.1 (some v)].Sublist es ∧
      es.countP (·.isDelivery x.1) = 1
  given : ∀ r ∈ start.channel ++ sents es, r.task ∈ start.tasks.map Prod.fst →
    WasKilled r.task es ∨
      ([.taken r, .delivered r.task, .stepped r.task (some r.result)].Sublist es ∧
        es.countP (·.isDelivery r.task) = 1)
  given_queued : ∀ id v, (id, .resume v) ∈ start.ready → WasKilled id es ∨
    ([.delivered id, .stepped id (some v)].Sublist es ∧ es.countP (·.isDelivery id) = 1)
  unwanted : ∀ n h id, .discarded n h id ∈ es → id ∈ start.tasks.map Prod.fst → WasKilled id es

end Drain

/-! ### The docket of an orderly server -/

theorem Orderly.docket_sound (orderly : s.Orderly {}) : (s.docket {}).Sound where
  distinct := docket_alive ▸ orderly.roster.distinct
  once := by
    refine List.nodup_iff_count_le_one.2 fun id => ?_
    by_cases turn : id ∈ s.ready.map Prod.fst
    · obtain ⟨x, hx, rfl⟩ := List.mem_map.1 turn
      obtain ⟨y, hy, same⟩ := List.mem_map.1 (orderly.live x hx)
      have count := (orderly.roster.stands y hy nofun).turn
      rw [same] at count
      refine (show _ = _ from count).trans_le ?_
      split <;> decide
    · exact (List.count_eq_zero.2 turn).trans_le (Nat.zero_le 1)
  awake := fun x hx h waits => by
    obtain ⟨y, hy, same⟩ := List.mem_map.1 waits
    obtain ⟨same, waiting⟩ := Prod.mk.inj same
    have count := (orderly.roster.stands y hy nofun).turn
    rw [waiting, same] at count
    exact List.count_eq_zero.1 count (List.mem_map_of_mem hx)
  free := nofun

theorem Orderly.docket_at (orderly : s.Orderly {}) {id : TaskId}
    (there : id ∈ s.tasks.map Prod.fst) :
    ∃ c, (s.docket {}).At id c ∧ c.isOver = false := by
  obtain ⟨x, hx, rfl⟩ := List.mem_map.1 there
  have mem : (x.1, x.2.waiting) ∈ (s.docket {}).tasks := List.mem_map.2 ⟨x, hx, rfl⟩
  cases waiting : x.2.waiting with
  | some h =>
    rw [waiting] at mem
    exact ⟨.away h, .away h mem, rfl⟩
  | none =>
    rw [waiting] at mem
    have count := (orderly.roster.stands x hx nofun).turn
    rw [waiting] at count
    have turn : x.1 ∈ s.ready.map Prod.fst := List.count_pos_iff.1 (count ▸ Nat.one_pos)
    obtain ⟨⟨id, input⟩, hy, same⟩ := List.mem_map.1 turn
    subst same
    cases input with
    | start => exact ⟨.due, .due mem hy, rfl⟩
    | resume v => exact ⟨.back v, .back v mem hy, rfl⟩

theorem Orderly.docket_back (orderly : s.Orderly {}) {id : TaskId} {v : Value}
    (queued : (id, .resume v) ∈ s.ready) : (s.docket {}).At id (.back v) := by
  have there : id ∈ s.tasks.map Prod.fst := orderly.live _ queued
  obtain ⟨c, here, alive⟩ := orderly.docket_at there
  have turn : (id, .resume v) ∈ (s.docket {}).turns := queued
  have same := orderly.docket_sound.at_turn turn (docket_alive ▸ there) here
  rwa [same] at here

namespace Drain

variable {d : Drain} {start : Scheduler} {es : List Event}

/-- What becomes of a request that is made during the wait. -/
theorem Ready.told_at_once (ready : d.Ready) {caller : Caller} {envelope : Envelope}
    {callback : Callback} {held : List Value} {next : Caller → Input → Act}
    {batch : List (TaskId × Input)}
    (asks : d.stage = .acting caller (.background envelope callback held next) batch) :
    (caller.task ∈ d.server.asked ∧ d.proceed.stage = .stepping batch ∧
      caller.task ∉ d.proceed.server.tasks.map Prod.fst) ∨
    (caller.task ∉ d.server.asked ∧ ∃ v, v.shape = Refusal.shuttingDown.errorMap ∧
      d.proceed.stage = .acting caller (next caller (.resume v)) batch) := by
  obtain ⟨s, stage, last, timedOut⟩ := d
  cases asks
  obtain ⟨orderly, acts, accepting, -⟩ := ready
  have left := turnDown_keys s orderly.roster.distinct caller.task { envelope with callback } held
    next caller.task
  have shape := s.turnDown_shape caller.task { envelope with callback } held next
  have moved := move_closed accepting caller envelope callback held next
  generalize s.turnDown caller.task { envelope with callback } held next = down at left shape moved
  obtain ⟨v, s'⟩ := down
  dsimp only at left moved
  have there : caller.task ∈ s.tasks.map Prod.fst := acts.2
  cases found : s'.tasks.get? caller.task with
  | none =>
    have gone := Named.get?_eq_none.1 found
    rw [found] at moved
    refine Or.inl ⟨?_, ?_⟩
    · by_contra spared
      exact gone (left.2 ⟨there, spared⟩)
    · simp only [proceed, moved, Option.isSome_none, Bool.false_eq_true, if_false]
      exact ⟨trivial, gone⟩
  | some t =>
    have still : caller.task ∈ s'.tasks.map Prod.fst :=
      List.mem_map_of_mem (Named.mem_of_get? found)
    rw [found] at moved
    refine Or.inr ⟨(left.1 still).2, v, shape, ?_⟩
    simp only [proceed, moved, Option.isSome_some, if_true]

theorem Sound.waited (sound : d.Sound start) (begun : start.Orderly {})
    (fresh : start.stats.resumedDuringDrain = 0) : ∃ es, Waited start d es ∧
      Docket.Runs (start.docket {}) es (d.server.docket d.stage.bench) := by
  obtain ⟨es, trace, runs⟩ := sound.follows
  have account := runs.account
  have counted := account.counted
  refine ⟨es, ⟨trace, fun id c here => ?_, account.none_accepted, account.turned_down, ?_,
    fun _ _ _ _ _ _ asks => sound.toReady.told_at_once asks, sound.rested⟩, runs⟩
  · obtain ⟨c', there, path⟩ := runs.course begun.docket_sound here
    exact ⟨c', there, path _ (List.prefix_refl _)⟩
  · rw [docket_alive, docket_alive] at counted
    change es.foldl Headcount.after ⟨start.tasks.map Prod.fst, start.stats.resumedDuringDrain⟩ = _
      at counted
    rw [fresh] at counted
    exact (congrArg Headcount.returned counted).symm

theorem Sound.none_left (sound : d.Sound start) (closed : d.stage = .closed)
    (in_time : d.timedOut = false) : d.server.tasks = [] := by
  have last := sound.last closed
  have idle := sound.idle last in_time
  obtain ⟨channel, ready⟩ := sound.settled last in_time (closed ▸ rfl)
  have orderly : d.server.Orderly {} := by
    have there := sound.orderly
    rw [hand, closed] at there
    exact there
  refine List.eq_nil_iff_forall_not_mem.2 fun x hx => ?_
  rcases orderly.inOrder.place x hx with queued | ⟨h, at_work | told⟩
  · have turn := queued.turn
    rw [ready] at turn
    cases turn
  · obtain ⟨w, only, -⟩ := at_work.waiter
    rw [idle] at only
    cases only
  · obtain ⟨r, only, -⟩ := told.result
    rw [channel] at only
    cases only

theorem Waited.completed (waited : Waited start d es) (sound : d.Sound start)
    (begun : start.Orderly {})
    (runs : Docket.Runs (start.docket {}) es (d.server.docket d.stage.bench))
    (closed : d.stage = .closed) (in_time : d.timedOut = false) : Completed start d es := by
  have last := sound.last closed
  have none_left := sound.none_left closed in_time
  have channel := (sound.settled last in_time (closed ▸ rfl)).1
  -- no task is left on the docket, so the course of each one is over
  have ended : ∀ {id c}, (d.server.docket d.stage.bench).At id c → c.isOver = true := by
    intro id c there
    have gone : ∀ {h}, (id, h) ∉ (d.server.docket d.stage.bench).tasks := by
      simp [docket, none_left]
    have absent : id ∉ (d.server.docket d.stage.bench).alive := by
      rw [docket_alive, none_left]
      exact List.not_mem_nil
    cases there with
    | finished | killed => rfl
    | due mem | back _ mem | away _ mem => exact absurd mem gone
    | stepping mem | turnedDown mem => exact absurd mem absent
  have path {id c} (here : (start.docket {}).At id c) :
      ∃ c', c'.isOver = true ∧ Course.Path d.server.made id c es c' := by
    obtain ⟨c', there, path⟩ := waited.courses id c here
    exact ⟨c', ended there, path⟩
  have all_taken : start.channel ++ sents es = takens es := by
    have results := runs.account.results
    rwa [show (d.server.docket d.stage.bench).channel = [] from channel, List.append_nil]
      at results
  refine ⟨?_, ?_, none_left, fun id there => ?_, all_taken, fun x hx h waits => ?_,
    fun r hr there => ?_, fun id v queued => ?_, fun n h id thrown there => ?_⟩
  · exact congrArg List.length (sound.idle last in_time)
  · exact (congrArg Tally.resumed (conclude_tally d.server d.timedOut)).trans waited.counted
  · obtain ⟨c, here, alive⟩ := begun.docket_at there
    obtain ⟨c', no_more, path⟩ := path here
    exact path.ending alive no_more
  · have mem : (x.1, some h) ∈ (start.docket {}).tasks := List.mem_map.2 ⟨x, hx, waits ▸ rfl⟩
    obtain ⟨c', no_more, path⟩ := path (.away h mem)
    refine (path.from_away no_more).imp_right ?_
    rintro ⟨v, given⟩
    exact ⟨v, given,
      path.delivered_once (given.subset (List.mem_cons_of_mem _ (List.mem_cons_self ..)))⟩
  · obtain ⟨c, here, alive⟩ := begun.docket_at there
    obtain ⟨c', no_more, path⟩ := path here
    rw [all_taken] at hr
    exact path.result alive no_more (mem_takens.1 hr)
  · obtain ⟨c', no_more, path⟩ := path (begun.docket_back queued)
    refine (path.dues no_more).imp_right fun given => ⟨given, ?_⟩
    exact path.delivered_once (given.subset (List.mem_cons_self ..))
  · obtain ⟨c, here, alive⟩ := begun.docket_at there
    obtain ⟨c', -, path⟩ := path here
    exact path.thrown_away alive thrown

theorem Sound.beginDrain (orderly : s.Orderly {}) (rested : s.asked = []) :
    Sound s.beginDrain { server := s.beginDrain } where
  orderly := by
    have alike : Alike s s.beginDrain := .of_same rfl
    exact alike.orderly orderly
  acts := trivial
  accepting := rfl
  draining := rfl
  follows := .refl _ _
  idle := nofun
  settled := nofun
  last := nofun
  rested := fun _ => rested

end Drain

/-- Whenever a server is shut down, and whatever its workers and its clients do while it waits, no
task and no thread is left at the end of a wait that was not cut short, and every task has gone its
whole course; no request is accepted meanwhile, and a task that makes one is told at once that the
server is shutting down, unless it asked for its own kill in the same step. -/
theorem nothing_left_behind (c : Config) (database : Database) (parser : CommandParser)
    (clock : Instant) (deeds : List Deed) (parser_calm : parser.Calm)
    (database_calm : database.Calm) (calm : ∀ deed ∈ deeds, deed.Calm)
    (working : ((ofConfig c database parser clock).carryOut deeds).draining = false) :
    let s := (ofConfig c database parser clock).carryOut deeds
    (∀ turns : List Drain.Turn, (∀ turn ∈ turns, turn.Calm) →
      (s.wait turns).server.gateway.longest < Gateway.handleLimit →
        ∃ es, Drain.Waited s.beginDrain (s.wait turns) es ∧
          ((s.wait turns).stage = .closed → (s.wait turns).timedOut = false →
            Drain.Completed s.beginDrain (s.wait turns) es)) ∧
    ∀ rounds : List Round, (∀ r ∈ rounds, r.Calm) →
      ∃ turns : List Drain.Turn, (∀ turn ∈ turns, turn.Calm) ∧ (s.wait turns).stage = .closed ∧
        s.shutdown rounds = (s.wait turns).server.conclude (s.wait turns).timedOut := by
  intro s
  refine ⟨fun turns turns_calm few => ?_, fun rounds rounds_calm => s.shutdown_waits rounds_calm⟩
  have longer : s.gateway.longest ≤ (s.wait turns).server.gateway.longest :=
    Drain.run_longest { server := s.beginDrain } turns turns_calm
  have orderly : s.Orderly {} := (carryOut_onward calm _).orderly trivial (longer.trans_lt few)
    (ofConfig_orderly c clock parser_calm database_calm)
  have whole : Whole (ofConfig c database parser clock) s := carryOut_whole _ deeds
  have fresh : s.stats.resumedDuringDrain = 0 := whole.tallied.uncounted (fun _ => rfl) working
  have begun := Drain.Sound.beginDrain orderly (whole.rested rfl)
  have sound := begun.run turns_calm few
  obtain ⟨es, waited, runs⟩ := sound.waited begun.orderly fresh
  exact ⟨es, waited, fun closed in_time => waited.completed sound begun.orderly runs closed in_time⟩

/-- One task waits for its result, one is to ask for one during the wait, and one is to be
killed. -/
def closingDeeds : List Deed :=
  [.submit .system none asking, .tick false, .submit .system none asking,
    .submit .system none asking]

def closingTurns : List Drain.Turn :=
  .post 0 (.kill 3) :: List.replicate 8 .proceed ++ [.work 1, .work 1, .work 1, .wake true] ++
    List.replicate 9 .proceed

theorem closing_leavesNothing :
    let s := (ofConfig {} .empty (fun _ => .error "") 0).carryOut closingDeeds
    (∃ es, Drain.Waited s.beginDrain (s.wait closingTurns) es ∧
      Drain.Completed s.beginDrain (s.wait closingTurns) es) ∧
    s.tasks.map (fun x => (x.1, x.2.waiting)) = [(1, some 1), (2, none), (3, none)] ∧
    (s.wait closingTurns).server.stats.resumedDuringDrain = 1 := by
  intro s
  have calm : ∀ deed ∈ closingDeeds, deed.Calm := by
    simp [closingDeeds, Deed.Calm, asking_calm]
  have turns_calm : ∀ turn ∈ closingTurns, turn.Calm := by
    simp [closingTurns, Drain.Turn.Calm, Message.Calm]
  obtain ⟨es, waited, completed⟩ := (nothing_left_behind {} .empty (fun _ => .error "") 0
    closingDeeds (fun _ _ there => by cases there) (fun _ _ there => by cases there) calm
    (by decide +kernel)).1 closingTurns turns_calm (by decide +kernel)
  have closed : (s.wait closingTurns).stage = .closed := by decide +kernel
  exact ⟨⟨es, waited, completed closed (by decide +kernel)⟩, by decide +kernel, by decide +kernel⟩

def givingUp : Body where
  description := "give up"
  step _ input :=
    match input with
    | .start => .andThen (.kill 1)
        (.background { title := "echo", argument := .int 7 } (fun _ v => .finish v) []
          fun _ _ => .complete .none)
    | .resume v => .complete v

theorem givingUp_calm : givingUp.Calm := by
  intro caller input
  cases input with
  | start =>
    exact .effect _ _ fun _ => .background _ _ _ _ (fun _ v => .finish v) fun _ _ => .complete _
  | resume v => exact .complete v

def refusesFirst : Event → Bool
  | .refused 0 .shuttingDown => true
  | _ => false

def resumesFirst : Event → Bool
  | .stepped 1 (some _) => true
  | _ => false

/-- Its request is turned down, but it is not told so. -/
theorem givingUp_neverTold :
    let s := (ofConfig {} .empty (fun _ => .error "") 0).carryOut [.submit .system none givingUp]
    givingUp.Calm ∧ s.draining = false ∧ (s.shutdown []).1.timedOut = false ∧
    .refused 0 .shuttingDown ∈ (s.shutdown []).2.trace ∧
    ∀ v, .stepped 1 (some v) ∉ (s.shutdown []).2.trace := by
  intro s
  have turned_down : (s.shutdown []).2.trace.any refusesFirst := by decide +kernel
  have untold : (s.shutdown []).2.trace.any resumesFirst = false := by decide +kernel
  refine ⟨givingUp_calm, by decide +kernel, by decide +kernel, ?_, fun v told => ?_⟩
  · obtain ⟨e, he, is⟩ := List.any_eq_true.1 turned_down
    unfold refusesFirst at is
    split at is
    · exact he
    · cases is
  · have resumed : (s.shutdown []).2.trace.any resumesFirst = true :=
      List.any_eq_true.2 ⟨_, told, rfl⟩
    rw [untold] at resumed
    cases resumed

end Scheduler
end MooCore
