import MooCore.Proofs.Scheduler.Modesty
import MooCore.Proofs.Scheduler.Tallies
/-!
# No wizard's rights from the network

Lines come in on any session, background threads go on, and the loop takes its turns. Whoever
starts without a wizard's rights does not come by them: every turn keeps the bench modest.
-/

set_option autoImplicit false
namespace MooCore
open Background Scheduler

/-! ## What the loop is left with -/

/-- What nobody may change without a wizard's rights gives nobody such rights. -/
structure Rights.Still (r : Rights) : Prop where
  nobody : r.database.isWizard .nothing = false
  finalizers : ∀ v body, r.database.finalizer v = some body → body.Inert
  commands : ∀ line d, r.parser line = .ok d →
    ∃ (b : Builtin) (args : List Recipe), d = b.draft args
  idle : r.coordinator.phase = .idle
  unsignalled : r.coordinator.signalled = false
  untimed : r.coordinator.interval = none
  unasked : r.messages = []

namespace Work

def bench (w : Work) : Bench := ⟨w.server, w.batch, w.act.map fun step => step.1.task⟩

/-- The bench is modest, and the step under way is humble and fails if it is to fail. -/
structure Modest (r : Rights) (failing : Set TaskId) (w : Work) : Prop where
  bench : w.bench.Modest r failing
  rested : w.act = none → w.server.asked = []
  humble : ∀ caller act, w.act = some (caller, act) →
    act.Humble r.database.isWizard w.server.owner?
  fails : ∀ caller act, w.act = some (caller, act) → caller.task ∈ failing →
    act.Until ⟨r.database.isWizard, w.server.owner?⟩ Act.Fails

def Fares (r : Rights) (failing : Set TaskId) (w w' : Work) : Prop :=
  w.Modest r failing → w'.Modest r failing ∧ ∃ es, w'.server.trace = w.server.trace ++ es ∧
    ∀ e ∈ es, e.Modest r.database.isWizard failing

variable {r : Rights} {failing : Set TaskId} {w w' w'' : Work} {s s' : Scheduler}
  {batch batch' : List (TaskId × Input)} {act : Option (Caller × Act)}

theorem Fares.refl (w : Work) : Fares r failing w w := fun modest =>
  ⟨modest, [], (List.append_nil _).symm, nofun⟩

theorem Fares.trans (first : Fares r failing w w') (second : Fares r failing w' w'') :
    Fares r failing w w'' := fun modest => by
  obtain ⟨modest', es, trace, fine⟩ := first modest
  obtain ⟨modest'', es', trace', fine'⟩ := second modest'
  refine ⟨modest'', es ++ es', by rw [trace', trace, List.append_assoc], fun e he => ?_⟩
  exact (List.mem_append.1 he).elim (fine e) (fine' e)

theorem Modest.of_idle (bench : Bench.Modest r failing ⟨s, batch, none⟩) (rested : s.asked = []) :
    Modest r failing ⟨s, batch, none⟩ :=
  ⟨bench, fun _ => rested, nofun, nofun⟩

theorem Fares.of_bench (rested : s.asked = [] → s'.asked = [])
    (fares : Bench.Fares r failing ⟨s, batch, none⟩ ⟨s', batch', none⟩) :
    Fares r failing ⟨s, batch, none⟩ ⟨s', batch', none⟩ := fun modest => by
  obtain ⟨bench, seen⟩ := fares modest.bench
  exact ⟨.of_idle bench (rested (modest.rested rfl)), seen⟩

theorem Fares.bland (bland : Bland s s') : Fares r failing ⟨s, batch, act⟩ ⟨s', batch, act⟩ :=
  fun modest => by
    obtain ⟨bench, seen⟩ := Bench.Fares.bland bland modest.bench
    have owner : s'.owner? = s.owner? := by
      funext id
      rw [owner?, bland.tasks, owner?]
    exact ⟨⟨bench, fun idle => bland.asked.trans (modest.rested idle),
      fun caller act its => owner ▸ modest.humble caller act its,
      fun caller act its mem => owner ▸ modest.fails caller act its mem⟩, seen⟩

theorem Fares.sessions {sessions : Sessions}
    (mortal : s.sessions.Mortal r.database.isWizard → sessions.Mortal r.database.isWizard) :
    Fares r failing ⟨s, batch, act⟩ ⟨{ s with sessions }, batch, act⟩ := fun modest =>
  ⟨{ modest with
    bench := modest.bench.fewer (.of_same rfl rfl rfl) rfl (mortal modest.bench.mortal)
      modest.bench.asked }, [], (List.append_nil _).symm, nofun⟩

theorem Fares.given (fares : w.Modest r failing → Fares r failing w w') : Fares r failing w w' :=
  fun modest => fares modest modest

/-! ## Turns -/

theorem Modest.of_step {caller : Caller} {act : Act}
    (bench : Bench.Modest r failing ⟨s, batch, some caller.task⟩)
    (humble : act.Humble r.database.isWizard s.owner?)
    (fails : caller.task ∈ failing → act.Until ⟨r.database.isWizard, s.owner?⟩ Act.Fails) :
    Modest r failing ⟨s, batch, some (caller, act)⟩ := by
  refine ⟨bench, nofun, fun caller' act' its => ?_, fun caller' act' its => ?_⟩
  all_goals
    obtain ⟨rfl, rfl⟩ := Prod.mk.inj (Option.some.inj its)
    assumption

theorem Fares.finish {caller : Caller} {act : Act} {result : Except String Value}
    (move : act.move caller s =
      (.inr (s.finish caller.task result).1, (s.finish caller.task result).2))
    (fine : Event.Modest r.database.isWizard failing (.ended caller.task result)) :
    Fares r failing ⟨s, batch, some (caller, act)⟩
      ⟨(act.move caller s).2, batch, goingOn caller (act.move caller s).1⟩ := fun modest => by
  rw [move]
  obtain ⟨bench, seen⟩ := Bench.Fares.finish fine modest.bench
  exact ⟨.of_idle bench (killAsked_asked _), seen⟩

/-- Work goes to the background, and the task waits for it or goes on at once. -/
theorem Fares.background {caller : Caller} {envelope : Envelope} {callback : Callback}
    {held : List Value} {next : Caller → Input → Act} (own : caller.task ∉ failing)
    (humble : ∀ caller input owner, (next caller input).Humble r.database.isWizard owner) :
    Fares r failing ⟨s, batch, some (caller, .background envelope callback held next)⟩
      ⟨((Act.background envelope callback held next).move caller s).2, batch,
        goingOn caller ((Act.background envelope callback held next).move caller s).1⟩ :=
  fun modest => by
    have put : Bench.Fares r failing ⟨s, batch, some caller.task⟩
        ⟨s.putBack caller.task held next, batch, some caller.task⟩ := .putBack own humble
    have asked := put.trans
      (.bland (.of_host (Host.suspend_apart _ caller.task { envelope with callback })))
    rw [Act.move]
    dsimp only
    change Bench.Fares r failing _
      ⟨((s.putBack caller.task held next).askHost
        (·.suspend caller.task { envelope with callback })).2, batch, _⟩ at asked
    generalize (s.putBack caller.task held next).askHost
      (·.suspend caller.task { envelope with callback }) = answered at asked ⊢
    have answered' := asked.trans (.bland (.immediate? answered.2 answered.1))
    generalize answered.2.immediate? answered.1 = response at answered' ⊢
    obtain ⟨h | v, s'⟩ := response
    · have parked := answered'.trans ((Bench.Fares.park own h).trans
        (Bench.Fares.killAsked.trans .leave))
      obtain ⟨bench, seen⟩ := parked modest.bench
      exact ⟨.of_idle bench (killAsked_asked _), seen⟩
    · have killed := answered'.trans Bench.Fares.killAsked
      dsimp only
      split
      · obtain ⟨bench, seen⟩ := (killed.trans (.takeBody (some v))) modest.bench
        exact ⟨.of_step bench (humble caller (.resume v) _) fun mem => absurd mem own, seen⟩
      · obtain ⟨bench, seen⟩ := (killed.trans ((Bench.Fares.bland (.release _ v)).trans .leave))
          modest.bench
        exact ⟨.of_idle bench (killAsked_asked _), seen⟩

theorem Fares.move {caller : Caller} {act : Act} :
    Fares r failing ⟨s, batch, some (caller, act)⟩
      ⟨(act.move caller s).2, batch, goingOn caller (act.move caller s).1⟩ :=
    .given fun modest => by
  have humble := modest.humble caller act rfl
  have fails := modest.fails caller act rfl
  dsimp only at humble fails
  cases act with
  | complete v => exact .finish rfl fun mem => (fails mem).not_complete
  | abort message => exact .finish rfl trivial
  | effect e next =>
    obtain ⟨allowed, going_on⟩ := humble.next
    have truthful : e.Truthful ⟨r.database.isWizard, s.owner?⟩ (s.perform e).1 :=
      modest.bench.database ▸ s.perform_truthful e
    intro modest
    obtain ⟨bench, seen⟩ := Bench.Fares.effect allowed modest.bench
    refine ⟨.of_step bench ?_ fun mem => ?_, seen⟩
    · exact (s.perform_owner e).symm ▸ going_on _ truthful
    · exact (s.perform_owner e).symm ▸ (fails mem).next _ truthful
  | background envelope callback held next =>
    exact .background (fun mem => (fails mem).not_background) humble.resumed

theorem Fares.message (still : r.Still) :
    Fares r failing ⟨s, batch, none⟩ ⟨s.takeMessage, batch, none⟩ := .given fun modest => by
  have unasked : s.messages = [] :=
    (congrArg Rights.messages modest.bench.rights).trans still.unasked
  rw [takeMessage, unasked]
  exact .refl _

theorem Fares.poll (still : r.Still) :
    Fares r failing ⟨s, batch, none⟩ ⟨s.pollCheckpoint, batch, none⟩ := .given fun modest => by
  have its : s.coordinator = r.coordinator := congrArg Rights.coordinator modest.bench.rights
  have looked : Bland s s.now.2 := .of_same rfl rfl rfl rfl rfl rfl rfl
  have nothing_due (now : Instant) : s.coordinator.poll now = (none, s.coordinator) := by
    simp [Checkpoint.Coordinator.poll, Checkpoint.Coordinator.takeSignal,
      Checkpoint.Coordinator.takeTimer, Checkpoint.Coordinator.isDue, Checkpoint.Coordinator.begin,
      its, still.idle, still.unsignalled, still.untimed]
  have same : s.pollCheckpoint = s.now.2 := by
    unfold pollCheckpoint
    dsimp only
    rw [show s.now.2.coordinator = s.coordinator from rfl, nothing_due]
    rfl
  exact same ▸ .bland looked

theorem Fares.command (still : r.Still) (entry : SessionId × String) :
    Fares r failing ⟨s, batch, none⟩ ⟨s.startCommand entry, batch, none⟩ := .given fun modest => by
  have mortal : r.database.isWizard
      (((s.sessions.get? entry.1).bind Session.player).getD .nothing) = false := by
    cases its : (s.sessions.get? entry.1).bind Session.player with
    | none => exact still.nobody
    | some player =>
      obtain ⟨x, there, its⟩ := Option.bind_eq_some_iff.1 its
      obtain ⟨found, registered⟩ := Option.filter_eq_some_iff.1 there
      exact modest.bench.mortal x
        (List.mem_filter.2 ⟨List.mem_of_find?_eq_some found, registered⟩) player its
  unfold startCommand
  dsimp only
  split
  · exact .refl _
  · split
    · rename_i draft read
      have parser : s.parser = r.parser := congrArg Rights.parser modest.bench.rights
      obtain ⟨b, args, rfl⟩ := still.commands _ _ (parser ▸ read)
      have prepared : Bland s (s.prepare (b.draft args)).2 := .prepare s _
      refine (Fares.bland prepared).trans (.of_bench id ?_)
      exact .startTask mortal (prepared.asked.trans (modest.rested rfl))
        fun caller input owner its => b.body_humble _ (its ▸ mortal) input
    · exact .bland (.sendLine s _ _)

/-- A turn is taken up. -/
theorem Fares.pick (id : TaskId) (input : Input) :
    Fares r failing ⟨s, (id, input) :: batch, none⟩
      ⟨(s.pick id input).2, batch, (s.pick id input).1⟩ := .given fun modest => by
  have idle : Bench.Fares r failing ⟨s, (id, input) :: batch, none⟩ ⟨s, batch, none⟩ :=
    .unseen rfl fun bench => bench.pick none nofun
  unfold Scheduler.pick
  split
  · have left : Bland s (s.releaseInput input) := .releaseInput s input
    exact .of_bench left.asked.trans (idle.trans (.bland left))
  · rename_i t there
    have mem := Named.mem_of_get? there
    split
    · have left : Bland s ((s.note (.reentered id)).releaseInput input) :=
        (Bland.note s rfl).trans (.releaseInput _ input)
      exact .of_bench left.asked.trans (idle.trans (.bland left))
    · rename_i body its
      let caller : Caller := { task := id, player := t.player, session := t.session }
      have delivered : Bland s (s.noteDelivery id input) := by
        cases input with
        | start => exact .refl s
        | resume v => exact .note s rfl
      have taken : Bench.Fares r failing ⟨s, (id, input) :: batch, none⟩
          ⟨(s.noteDelivery id input).takeBody id input.result?, batch, some caller.task⟩ := by
        have picked : Bench.Fares r failing ⟨s, (id, input) :: batch, none⟩ ⟨s, batch, some id⟩ :=
          .unseen rfl fun bench => bench.pick (some id) fun _ same => (Option.some.inj same).symm
        exact picked.trans ((Bench.Fares.bland delivered).trans (.takeBody input.result?))
      intro modest
      obtain ⟨bench, seen⟩ := taken modest.bench
      refine ⟨.of_step bench ?_ fun fails => ?_, seen⟩
      · exact modest.bench.bodies _ mem body its caller input _ rfl
      · have failing := modest.bench.failing id fails
        obtain rfl : input = .start :=
          failing.first (id, input) (List.mem_append_right _ (List.mem_cons_self ..)) rfl
        exact failing.fails _ mem rfl body its caller _ rfl

theorem Turn.fares (still : r.Still) (turn : Turn w w') : Fares r failing w w' := by
  cases turn with
  | message s batch => exact .message still
  | result s batch => exact .of_bench s.takeCompletion_asked.trans .takeCompletion
  | poll s batch => exact .poll still
  | values s batch act heap => exact .bland (.of_same rfl rfl rfl rfl rfl rfl rfl)
  | destroy s batch v =>
    have noted : Bland s (s.note (.destroyed (v.finalizableId?.getD 0))) := .note s rfl
    exact .bland (noted.trans (.of_same rfl rfl rfl rfl rfl rfl rfl))
  | summon s batch v body its =>
    refine .given fun modest => .of_bench id (.summon ?_ (modest.rested rfl))
    exact still.finalizers v body (modest.bench.database ▸ its)
  | takeLines s batch => exact .bland (.sessions s s.sessions.takeInput_logins)
  | command s batch entry => exact .command still entry
  | takeUp s => exact .of_bench id (.unseen rfl Bench.Modest.takeUp)
  | pick s batch id input => exact .pick id input
  | move s batch caller act => exact .move
  | sweep s batch =>
    have looked : Bland s s.now.2 := .of_same rfl rfl rfl rfl rfl rfl rfl
    exact (Fares.bland looked).trans (.sessions fun mortal => mortal.sweep _)

/-! ## Contact with the network -/

/-- The loop takes a turn, or something comes from the network or from a background thread at that
moment: a connection, a line on a session, the next step of a job. In between, time passes. -/
inductive Contact : Work → Work → Prop where
  | turn {w w' : Work} (turn : Turn w w') : Contact w w'
  | connect (s : Scheduler) (batch act) (peer : String) :
      Contact ⟨s, batch, act⟩
        ⟨{ s with sessions := (s.sessions.openSession s.clock peer).2 }, batch, act⟩
  | line (s : Scheduler) (batch act) (session : SessionId) (text : String) :
      Contact ⟨s, batch, act⟩
        ⟨{ s with sessions := (s.sessions.pushInput s.clock session text).2 }, batch, act⟩
  | step (s : Scheduler) (batch act) (handle : Handle) :
      Contact ⟨s, batch, act⟩ ⟨s.onHost (·.step handle), batch, act⟩
  | wait (s : Scheduler) (batch act) (clock : Instant) :
      Contact ⟨s, batch, act⟩ ⟨{ s with clock }, batch, act⟩

abbrev Contacts : Work → Work → Prop := Relation.ReflTransGen Contact

theorem Turns.contacts (turns : Turns w w') : Contacts w w' :=
  Relation.ReflTransGen.mono (fun _ _ => Contact.turn) _ _ turns

theorem Contact.fares (still : r.Still) (contact : Contact w w') : Fares r failing w w' := by
  cases contact with
  | turn turn => exact turn.fares still
  | connect s batch act peer =>
    refine .sessions fun mortal x hx player its => ?_
    obtain ⟨mem, there⟩ := List.mem_filter.1 hx
    rcases List.mem_append.1 mem with old | new
    · exact mortal x (List.mem_filter.2 ⟨old, there⟩) player its
    · obtain rfl := List.mem_singleton.1 new
      cases its
  | line s batch act session text =>
    exact .bland (.sessions s (s.sessions.touch_logins session nofun))
  | step s batch act handle => exact .bland (.of_host (s.toHost.step_apart handle))
  | wait s batch act clock => exact .bland (.of_same rfl rfl rfl rfl rfl rfl rfl)

theorem Contacts.fares (still : r.Still) (run : Contacts w w') : Fares r failing w w' := by
  induction run with
  | refl => exact .refl w
  | tail _ contact ih => exact ih.trans (contact.fares still)

end Work

def Scheduler.Deed.FromNetwork : Deed → Prop
  | line _ _ | tick _ | phase _ | step _ => True
  | _ => False

theorem Work.carryOut_contacts {deeds : List Deed} (network : ∀ deed ∈ deeds, deed.FromNetwork)
    (s : Scheduler) : Contacts (.idle s) (.idle (s.carryOut deeds)) := by
  induction deeds generalizing s with
  | nil => exact .refl
  | cons deed deeds ih =>
    refine Relation.ReflTransGen.trans ?_
      (ih (fun deed mem => network deed (List.mem_cons_of_mem _ mem)) (deed.carryOut s))
    cases deed with
    | line session text => exact .single (.line s [] none session text)
    | tick eager => exact (tick_turns s eager).contacts
    | phase f => exact (phase_turns s f).contacts
    | step handle => exact .single (.step s [] none handle)
    | _ => exact (network _ (List.mem_cons_self ..)).elim

theorem Command.read_draft {line : String} {d : Draft} (read : Command.read line = .ok d) :
    ∃ (b : Builtin) (args : List Recipe), d = b.draft args := by
  unfold Command.read at read
  split at read
  · exact ⟨_, _, (Except.ok.inj read).symm⟩
  · cases read

/-! ## Servers without a wizard -/

namespace Scheduler

/-- A task that calls a function or that goes on after such a call. -/
def Task.RunsBuiltin (t : Task) : Prop :=
  ∃ (b : Builtin) (body : Body), t.body = some body ∧
    ((∃ args, body = b.body args) ∨ body.step = b.resumed)

/-- Nobody is logged in as a wizard and whatever is ready runs a function for a player who is no
wizard, once for each task; nothing has been asked for, and no checkpoint is due by itself. Tasks
that are not ready, and finalizers, call no function, but may belong to anybody. -/
structure Unprivileged (s : Scheduler) : Prop where
  still : s.rights.Still
  open_for_business : s.coordinator.stopping = false
  no_second_checkpoint : s.coordinator.followUp = none
  unasked : s.asked = []
  logins : s.sessions.Mortal s.database.isWizard
  fit : s.roll.Fit
  once : (s.ready.map Prod.fst).Nodup
  ready : ∀ x ∈ s.ready, ∃ t, s.tasks.get? x.1 = some t ∧ s.database.isWizard t.player = false ∧
    t.waiting = none ∧ Task.RunsBuiltin t
  parked : ∀ x ∈ s.tasks, x.1 ∉ s.ready.map Prod.fst → ∀ body, x.2.body = some body → body.Inert

/-- What is as before although somebody wanted it otherwise. -/
structure Unharmed (s s' : Scheduler) : Prop where
  wizards : s'.database.isWizard = s.database.isWizard
  logins : s'.sessions.Mortal s.database.isWizard
  no_shutdown : s'.coordinator.stopping = false
  no_checkpoint : s'.coordinator.phase = .idle ∧ s'.coordinator.followUp = none
  none_taken : s'.coordinator.runs = s.coordinator.runs ∧ s'.directory = s.directory
  max : s'.gateway.max = s.gateway.max
  threading : s'.gateway.threading = s.gateway.threading
  kills : ∃ es, s'.trace = s.trace ++ es ∧
    ∀ id player, .killed id player ∈ es → s.database.isWizard player = false

theorem Unprivileged.modest {s : Scheduler} (start : s.Unprivileged) :
    (Work.idle s).Modest s.rights ∅ := by
  have found {x : TaskId × Task} (hx : x ∈ s.tasks) : s.tasks.get? x.1 = some x.2 :=
    Named.get?_of_mem start.fit.distinct hx
  refine .of_idle ?_ start.unasked
  constructor
  · rfl
  · exact start.logins
  · exact start.fit
  · intro x hx
    have hx : x ∈ s.ready := by simpa [Bench.turns] using hx
    obtain ⟨t, there, -⟩ := start.ready x hx
    exact start.fit.given x.1 (List.mem_map_of_mem (Named.mem_of_get? there))
  · intro x hx body its caller input owner same
    by_cases ready : x.1 ∈ s.ready.map Prod.fst
    · obtain ⟨entry, mem, here⟩ := List.mem_map.1 ready
      obtain ⟨t, there, mortal, -, b, body', has, runs⟩ := start.ready entry mem
      obtain rfl : t = x.2 := Option.some.inj ((here ▸ there).symm.trans (found hx))
      obtain rfl : body' = body := Option.some.inj (has.symm.trans its)
      rcases runs with ⟨args, rfl⟩ | goes_on
      · exact b.body_humble args (same ▸ mortal) input
      · exact goes_on ▸ b.resumed_humble _ owner caller input
    · exact (start.parked x hx ready body its caller input).humble _ owner
  · intro id mem
    rw [start.unasked] at mem
    cases mem
  · intro id mem
    obtain ⟨t, there, mortal, rested, -⟩ := start.ready _ mem
    refine ⟨⟨?_, fun x hx here => ?_, fun t' there' => ?_⟩, by simp, by simp,
      fun player its => ?_⟩
    · exact start.fit.given id (List.mem_map_of_mem (Named.mem_of_get? there))
    · have hx : x ∈ s.ready := by simpa [Bench.turns] using hx
      exact congrArg Prod.snd (List.inj_on_of_nodup_map start.once hx mem here)
    · obtain rfl : t = t' := Option.some.inj (there.symm.trans there')
      exact rested
    · rw [owner?, there] at its
      exact Option.some.inj its ▸ mortal
  · simp

theorem listing_fails {r : Rights} {w : Work} (modest : w.Modest r ∅) {id : TaskId} {t : Task}
    {b : Builtin} {args : List Value} (ready : (id, .start) ∈ w.server.ready)
    (there : w.server.tasks.get? id = some t) (calls : t.body = some (b.body args))
    (lists : b.listsThreads = true) : w.Modest r {id} := by
  have unstarted := modest.bench.unstarted id ready
  have mortal : r.database.isWizard t.player = false :=
    unstarted.mortal t.player (congrArg (Option.map Task.player) there)
  refine { modest with bench := { modest.bench with failing := ?_ }, fails := ?_ }
  · rintro n rfl
    refine ⟨unstarted.toUnresumed, fun x hx here body its caller owner same => ?_⟩
    subst here
    have found := Named.get?_of_mem modest.bench.fit.distinct hx
    obtain rfl : x.2 = t := Option.some.inj (found.symm.trans there)
    obtain rfl : body = b.body args := Option.some.inj (its.symm.trans calls)
    exact Builtin.body_fails lists args (same ▸ mortal)
  · intro caller act its mem
    have free : w.bench.free = some caller.task := by rw [Work.bench, its, Option.map_some]
    exact absurd (free.trans (congrArg some mem)) unstarted.idle

/-- No rights of a wizard come from the network. From a server in which nobody has such rights, at
every moment of every run made of connections, lines, steps of background threads and turns of the
loop: nobody is logged in as a wizard, the server is not to shut down, no checkpoint is asked for or
taken, the limits of the background are as they were, and no wizard's task has been killed. A task
that is about to call one of the functions that list background threads never ends with a
value. -/
theorem network_grants_nothing (s : Scheduler) (start : s.Unprivileged) (w : Work)
    (run : Work.Contacts (.idle s) w) :
    s.Unharmed w.server ∧
    ∀ id t, (id, .start) ∈ w.server.ready → w.server.tasks.get? id = some t →
      ∀ (b : Builtin) (args : List Value), t.body = some (b.body args) → b.listsThreads = true →
      ∀ w', Work.Contacts w w' →
        ∃ es, w'.server.trace = w.server.trace ++ es ∧ ∀ v, .ended id (.ok v) ∉ es := by
  obtain ⟨modest, es, trace, fine⟩ := run.fares start.still start.modest
  have coordinator : w.server.coordinator = s.coordinator :=
    congrArg Rights.coordinator modest.bench.rights
  refine ⟨?_, fun id t ready there b args calls lists w' further => ?_⟩
  · constructor
    · exact congrArg Database.isWizard modest.bench.database
    · exact modest.bench.mortal
    · exact coordinator ▸ start.open_for_business
    · exact ⟨coordinator ▸ start.still.idle, coordinator ▸ start.no_second_checkpoint⟩
    · exact ⟨congrArg _ coordinator, congrArg Rights.directory modest.bench.rights⟩
    · exact congrArg Rights.max modest.bench.rights
    · exact congrArg Rights.threading modest.bench.rights
    · exact ⟨es, trace, fun id player mem => fine _ mem⟩
  · obtain ⟨-, es, trace, fine⟩ :=
      further.fares start.still (listing_fails modest ready there calls lists)
    exact ⟨es, trace, fun v mem => fine _ mem rfl⟩

/-- A server with one connection, a wizard's task that waits for a background thread, and somebody's
task that is to list the threads. -/
def besieged : Scheduler :=
  let s := ofConfig {} .empty Command.read 0
  let parked : Task :=
    { player := .system, session := none, description := "", waiting := some 1, answerable := false
      body := some { description := "", step := fun _ _ => .complete (.int 0) } }
  let nosy : Task :=
    { player := ⟨3⟩, session := some 1, description := "", answerable := false
      body := some (Builtin.threads.body []) }
  { s with
    tasks := [(1, parked), (2, nosy)], lastTask := 2, ready := [(2, .start)]
    sessions := (s.sessions.openSession 0 "far").2 }

theorem besieged_unprivileged : besieged.Unprivileged where
  still := {
    nobody := rfl
    finalizers := nofun
    commands := fun _ _ read => Command.read_draft read
    idle := rfl
    unsignalled := rfl
    untimed := rfl
    unasked := rfl }
  open_for_business := rfl
  no_second_checkpoint := rfl
  unasked := rfl
  logins := by
    intro x hx player its
    obtain rfl := List.mem_singleton.1 (List.mem_of_mem_filter hx)
    cases its
  fit := ⟨by decide, by decide⟩
  once := List.nodup_singleton 2
  ready := by
    intro x hx
    obtain rfl := List.mem_singleton.1 hx
    exact ⟨_, rfl, rfl, rfl, .threads, _, rfl, Or.inl ⟨[], rfl⟩⟩
  parked := by
    intro x hx unready body its caller input
    rcases List.mem_cons.1 hx with rfl | new
    · exact Option.some.inj its ▸ .complete _
    · obtain rfl := List.mem_singleton.1 new
      exact absurd (List.mem_singleton.2 rfl) unready

def siege : List Deed :=
  [.line 1 "connect #2", .tick false, .line 1 "connect #0", .tick false, .line 1 "kill_task 1",
    .tick true, .line 1 "shutdown", .tick false, .line 1 "checkpoint", .tick true]

theorem besieged_unharmed :
    let s := besieged.carryOut siege
    besieged.Unprivileged ∧ besieged.Unharmed s ∧ (∀ v, .ended 2 (.ok v) ∉ s.trace) ∧
      s.sessions.all.map (·.player) = [some ⟨2⟩] ∧ s.tasks.map Prod.fst = [1] ∧
      s.sessions.all.map (·.transport.sent) = [[
        "!! E_PERM: threads() requires the caller to be a wizard", "=> #2",
        "!! E_PERM: connect() requires the caller to be a wizard",
        "!! E_PERM: kill_task() requires the caller to be a wizard",
        "!! E_PERM: shutdown() requires the caller to be a wizard",
        "!! E_PERM: checkpoint() requires the caller to be a wizard"]] := by
  intro s
  have network : ∀ deed ∈ siege, deed.FromNetwork := by simp [siege, Deed.FromNetwork]
  have run := Work.carryOut_contacts network besieged
  obtain ⟨unharmed, -⟩ := network_grants_nothing besieged besieged_unprivileged _ run
  obtain ⟨-, fails⟩ := network_grants_nothing besieged besieged_unprivileged (.idle besieged) .refl
  obtain ⟨es, trace, never⟩ := fails 2 _ (List.mem_singleton.2 rfl) rfl .threads [] rfl rfl _ run
  have all : s.trace = es := trace
  exact ⟨besieged_unprivileged, unharmed, all ▸ never, by decide +kernel, by decide +kernel,
    by decide +kernel⟩

end Scheduler
end MooCore
