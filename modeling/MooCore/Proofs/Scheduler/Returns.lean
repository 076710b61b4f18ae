import MooCore.Proofs.Builtin.LookUps
import MooCore.Proofs.Scheduler.Turns
/-!
# Sessions come back from look-ups

A server takes a hold on a session only to look its name up, and gives it back in the end, whatever
happens meanwhile. Between two operations the activity of a session is the number of its look-ups
that are not over. Once nobody waits for a thread, no session is held, and the next sweep closes
every session that is to be disconnected.
-/

set_option autoImplicit false
namespace MooCore
open Background

namespace Scheduler

variable {P : Body → Prop} {under : Option TaskId} {s s' s'' : Scheduler}
  {hand hand' hand'' : List SessionId}

/-! ## What a chore leaves as it is -/

theorem Stocked.of_tasks (stocked : s.Stocked P)
    (tasks : ∀ x ∈ s'.tasks, ∀ b, x.2.body = some b → P b)
    (messages : ∀ m ∈ s'.messages, m ∈ s.messages) (parser : s'.parser = s.parser)
    (finalizer : s'.database.finalizer = s.database.finalizer) : s'.Stocked P where
  bodies := tasks
  messages := fun m hm => stocked.messages m (messages m hm)
  parser := parser ▸ stocked.parser
  database := by
    rw [Database.All, finalizer]
    exact stocked.database

theorem Stocked.rewritten (stocked : s.Stocked P) (id : TaskId) {f : Task → Task}
    (bodies : ∀ t b, (f t).body = some b → P b ∨ t.body = some b) :
    ∀ x ∈ s.tasks.update id f, ∀ b, x.2.body = some b → P b := by
  intro x hx b its
  rcases Named.mem_update hx with ⟨old, -⟩ | ⟨y, hy, -, rfl⟩
  · exact stocked.bodies x old b its
  · exact (bodies y.2 b its).elim (fun new => new) (stocked.bodies y hy b)

theorem Stocked.takeCompletion (stocked : s.Stocked P) : s.takeCompletion.Stocked P := by
  unfold Scheduler.takeCompletion
  split
  · exact stocked
  · rename_i c rest _
    unfold handleCompletion
    dsimp only
    split
    · exact stocked.of_tasks stocked.bodies (fun _ hm => hm) rfl rfl
    · split
      · exact stocked.of_tasks (stocked.rewritten c.task (f := fun t => { t with waiting := none })
          fun _ _ => Or.inr) (fun _ hm => hm) rfl rfl
      · exact stocked.of_tasks stocked.bodies (fun _ hm => hm) rfl rfl

theorem Chore.stocked (chore : Chore P under s s') (stocked : s.Stocked P) : s'.Stocked P := by
  have erased (id : TaskId) (e : Event) :
      ({ s with tasks := s.tasks.erase id }.note e).Stocked P :=
    stocked.of_tasks (fun x hx => stocked.bodies x (List.mem_of_mem_eraseP hx)) (fun _ hm => hm)
      rfl rfl
  cases chore with
  | around same _ _ messages =>
    simp only [stock, Prod.mk.injEq] at same
    obtain ⟨-, -, tasks, -, -, parser, finalizer⟩ := same
    exact stocked.of_tasks (tasks ▸ stocked.bodies) messages parser finalizer
  | work | silence | offer | withdraw =>
    exact stocked.of_tasks stocked.bodies (fun _ hm => hm) rfl rfl
  | create player session body answerable queued its =>
    refine stocked.of_tasks (fun x hx b same => ?_) (fun _ hm => hm) rfl rfl
    rcases Named.mem_set hx with old | rfl
    · exact stocked.bodies x old b same
    · exact Option.some.inj same ▸ its
  | rewrite id f own bodies =>
    exact stocked.of_tasks (stocked.rewritten id bodies) (fun _ hm => hm) rfl rfl
  | leave id player => exact erased id _
  | finish id result own => exact erased id _
  | arrive messages its =>
    exact { stocked with messages := fun m hm =>
      (List.mem_append.1 hm).elim (stocked.messages m) (its m) }

theorem Chores.stocked (chores : Chores P under s s') (stocked : s.Stocked P) : s'.Stocked P := by
  induction chores with
  | refl => exact stocked
  | tail _ chore ih => exact chore.stocked ih

theorem Chore.passes (chore : Chore P under s s') (hand : List SessionId) :
    Host.Passes s.toHost hand s'.toHost hand := by
  have noted (s : Scheduler) (tasks : Named TaskId Task) {e : Event} (mute : e.subject? = none) :
      Host.Passes s.toHost hand ({ s with tasks }.note e).toHost hand :=
    .aside rfl ⟨[e], rfl, fun _ he => List.mem_singleton.1 he ▸ mute⟩ fun _ held => held
  cases chore with
  | around same seen sessions _ =>
    simp only [stock, Prod.mk.injEq] at same
    obtain ⟨⟨waiters, next, streak, longest⟩, ⟨made, locked, jobs, -, -⟩, -⟩ := same
    obtain ⟨es, trace, mute⟩ := seen
    refine .aside ?_ ⟨es, trace, fun e he => (mute e he).1⟩ sessions
    simp only [Host.workings, waiters, next, streak, longest, made, locked, jobs]
  | work handle => exact s.toHost.step_passes handle hand
  | silence id => exact s.toHost.killWaiters_passes id hand
  | offer rule => exact s.toHost.enumerate_passes rule hand
  | create player session body =>
    exact .aside rfl ⟨[.created _ player session], rfl,
      fun _ he => List.mem_singleton.1 he ▸ rfl⟩ fun _ held => held
  | rewrite | withdraw | arrive => exact .same rfl rfl rfl
  | leave id player => exact noted s _ rfl
  | finish id result own => exact noted s _ rfl

theorem takeCompletion_passes (s : Scheduler) (hand : List SessionId) :
    Host.Passes s.toHost hand s.takeCompletion.toHost hand := by
  unfold takeCompletion
  split
  · exact .refl _ _
  · rename_i c rest _
    have taken : ∀ e ∈ [Event.taken c], e.subject? = none := fun _ he =>
      List.mem_singleton.1 he ▸ rfl
    have stray : ∀ e ∈ [Event.taken c, .stray c.handle c.task], e.subject? = none := fun _ he => by
      rcases List.mem_pair.1 he with rfl | rfl <;> rfl
    unfold handleCompletion
    dsimp only
    split
    · exact .aside rfl ⟨_, rfl, taken⟩ fun _ held => held
    · split
      · exact .aside rfl ⟨_, rfl, taken⟩ fun _ held => held
      · exact .aside rfl ⟨_, List.append_assoc .., stray⟩ fun _ held => held

theorem Chores.passes (chores : Chores P under s s') (hand : List SessionId) :
    Host.Passes s.toHost hand s'.toHost hand := by
  induction chores with
  | refl => exact .refl _ _
  | tail _ chore ih => exact ih.trans (chore.passes hand)

/-! ## The holds of a server -/

/-- Every hold on a session is that of a look-up, or is in the given hand. -/
structure Lends (s : Scheduler) (hand : List SessionId) : Prop where
  host : s.toHost.Lends hand
  stocked : s.Stocked Body.LooksUp

/-- Holds change hands, as long as the handles do not run out. -/
structure Passes (s : Scheduler) (hand : List SessionId) (s' : Scheduler)
    (hand' : List SessionId) : Prop where
  longest : s.gateway.longest ≤ s'.gateway.longest
  lends : s'.gateway.longest < Gateway.handleLimit → s.Lends hand → s'.Lends hand'

theorem Passes.refl (s : Scheduler) (hand : List SessionId) : Passes s hand s hand :=
  ⟨Nat.le_refl _, fun _ lends => lends⟩

theorem Passes.trans (first : Passes s hand s' hand') (second : Passes s' hand' s'' hand'') :
    Passes s hand s'' hand'' where
  longest := first.longest.trans second.longest
  lends := fun few lends =>
    second.lends few (first.lends (second.longest.trans_lt few) lends)

theorem Passes.of_host {h : Host} (passes : Host.Passes s.toHost hand h hand') :
    Passes s hand { s with toHost := h } hand' :=
  ⟨passes.longest, fun few lends => ⟨passes.lends few lends.host,
    lends.stocked.of_tasks lends.stocked.bodies (fun _ hm => hm) rfl rfl⟩⟩

theorem Chores.handsOn (chores : Chores Body.LooksUp under s s') (hand : List SessionId) :
    Passes s hand s' hand :=
  have passes := chores.passes hand
  ⟨passes.longest, fun few lends => ⟨passes.lends few lends.host, chores.stocked lends.stocked⟩⟩

theorem Passes.of_chores (chores : ∀ P, s.Stocked P → Chores P under s s') (hand : List SessionId) :
    Passes s hand s' hand where
  longest := ((chores (fun _ => True) ⟨fun _ _ _ _ => trivial, fun m _ => by cases m.2 <;> trivial,
    fun _ _ _ _ => trivial, fun _ _ _ => trivial⟩).passes hand).longest
  lends := fun few lends => ((chores _ lends.stocked).handsOn hand).lends few lends

/-! ## Moves -/

theorem acquire_passes (s : Scheduler) (session : SessionId) (hand : List SessionId) :
    Passes s hand (s.perform (.acquire session)).2
      (if (s.perform (.acquire session)).1 then session :: hand else hand) :=
  .of_host (s.toHost.acquire_passes session hand)

theorem background_passes (s : Scheduler) (caller : Caller) {envelope : Envelope}
    {callback : Callback} (held : List Value) {next : Caller → Input → Act}
    (careful : Request.Careful { envelope with callback })
    (going_on : ∀ caller input, (next caller input).LooksUp none) :
    Passes s (held? envelope.extra).toList
      (Act.move caller (.background envelope callback held next) s).2 [] := by
  rw [move_background_eq]
  have put : Chores Body.LooksUp (some caller.task) s (s.putBack caller.task held next) :=
    s.putBack_chores caller.task held fun _ => going_on
  refine (put.handsOn _).trans ?_
  have asked := (s.putBack caller.task held next).toHost.suspend_passes careful caller.task []
  rw [List.append_nil] at asked
  exact (Passes.of_host asked).trans ((received_chores _ caller next _).handsOn [])

/-! ## The end -/

theorem finalCheckpoint_chores (s : Scheduler) : Chores P under s s.finalCheckpoint.2 := by
  unfold finalCheckpoint
  split
  · exact s.checkpoint_chores .shutdown
  · exact .refl

theorem failWaiting_chores (s : Scheduler) : Chores P under s s.failWaiting := by
  have settled : Chores P under s
      { s with coordinator := (s.coordinator.failWaiting .shuttingDown).2 } := .same rfl rfl rfl rfl
  exact settled.trans (tellAll_chores _ _)

theorem abandon_chores (s : Scheduler) (entry : TaskId × Task) :
    Chores P under s (s.abandon entry) := by
  unfold abandon
  dsimp only
  split
  · exact (s.answer_chores entry.1 _).trans (releaseAll_chores _ _)
  · exact s.releaseAll_chores _

theorem abandonAll_passes (s : Scheduler) (hand : List SessionId) :
    Passes s hand s.abandonAll hand := by
  have emptied : Passes s hand { s with tasks := [] } hand :=
    ⟨Nat.le_refl _, fun _ lends => ⟨lends.host, lends.stocked.of_tasks nofun (fun _ hm => hm) rfl rfl⟩⟩
  have abandoned : Chores Body.LooksUp none { s with tasks := [] } s.abandonAll :=
    Chores.foldl abandon_chores s.tasks _
  exact emptied.trans (abandoned.handsOn hand)

theorem clearReady_passes (s : Scheduler) (hand : List SessionId) :
    Passes s hand s.clearReady hand := by
  have emptied : Passes s hand { s with ready := [] } hand :=
    ⟨Nat.le_refl _, fun _ lends =>
      ⟨lends.host, lends.stocked.of_tasks lends.stocked.bodies (fun _ hm => hm) rfl rfl⟩⟩
  have released (s : Scheduler) (entry : TaskId × Input) :
      Chores Body.LooksUp none s (s.releaseInput entry.2) := s.releaseInput_chores entry.2
  exact emptied.trans ((Chores.foldl released s.ready _).handsOn hand)

theorem conclude_passes (s : Scheduler) (timedOut : Bool) (hand : List SessionId) :
    Passes s hand (s.conclude timedOut).2 hand := by
  have written : Passes s hand s.finalCheckpoint.2 hand :=
    .of_chores (fun P _ => show Chores P none s _ from s.finalCheckpoint_chores) hand
  have failed (s : Scheduler) : Passes s hand s.failWaiting hand :=
    .of_chores (fun P _ => show Chores P none s _ from s.failWaiting_chores) hand
  have closed (s : Scheduler) :
      Passes s hand { s.onHost Host.close with sessions := s.sessions.closeAll.2 } hand :=
    .of_host (.aside rfl ⟨[], (List.append_nil _).symm, nofun⟩ fun _ held => held.closeAll)
  exact written.trans ((failed _).trans ((abandonAll_passes _ hand).trans
    ((clearReady_passes _ hand).trans (closed _))))

end Scheduler

namespace Work
open Scheduler

variable {w w' : Work}

/-- What the step under way may have in its hand. -/
def Carries (act : Option (Caller × Act)) (hand : Option SessionId) : Prop :=
  match act with
  | none => hand = none
  | some (_, act) => act.LooksUp hand

def Lends (w : Work) : Prop :=
  ∃ hand, Carries w.act hand ∧ w.server.Lends (Option.toList hand)

theorem pick_carries {s : Scheduler} (stocked : s.Stocked Body.LooksUp) (id : TaskId)
    (input : Input) : Carries (s.pick id input).1 none := by
  unfold pick
  split
  · rfl
  · rename_i t found
    split
    · rfl
    · rename_i body its
      exact stocked.bodies (id, t) (Named.mem_of_get? found) body its _ input

theorem move_lends {s : Scheduler} {batch : List (TaskId × Input)} {caller : Caller} {act : Act}
    (few : (act.move caller s).2.gateway.longest < Gateway.handleLimit)
    (lends : Lends ⟨s, batch, some (caller, act)⟩) :
    Lends ⟨(act.move caller s).2, batch, goingOn caller (act.move caller s).1⟩ := by
  obtain ⟨hand, looks_up, lends⟩ := lends
  cases looks_up with
  | complete v => exact ⟨none, rfl, ((s.finish_chores caller.task _).handsOn []).lends few lends⟩
  | abort message => exact ⟨none, rfl, ((s.finish_chores caller.task _).handsOn []).lends few lends⟩
  | effect _ e next other going_on =>
    have done : Chores Body.LooksUp none s (s.perform e).2 := s.perform_chores other
    exact ⟨hand, going_on _, (done.handsOn _).lends few lends⟩
  | acquire session next granted refused =>
    have taken := (s.acquire_passes session []).lends few lends
    cases ok : (s.perform (.acquire session)).1 with
    | true =>
      rw [ok] at taken
      refine ⟨some session, ?_, taken⟩
      change (next (s.perform (.acquire session)).1).LooksUp _
      rwa [ok]
    | false =>
      rw [ok] at taken
      refine ⟨none, ?_, taken⟩
      change (next (s.perform (.acquire session)).1).LooksUp _
      rwa [ok]
  | background envelope callback held next careful going_on =>
    have passed := (s.background_passes caller held careful going_on).lends few lends
    cases moved : ((Act.background envelope callback held next).move caller s).1 with
    | inl act =>
      obtain ⟨v, rfl⟩ := Act.move_background moved
      exact ⟨none, going_on caller (.resume v), passed⟩
    | inr outcome => exact ⟨none, rfl, passed⟩

/-- Something happens to a server: the loop takes a turn, something else is done to it, messages come
in, other threads use the sessions or the values, the limits or what is asked of the loop change,
or threads are no longer waited for. Nothing of this takes a hold, and all tasks that come in take
holds for look-ups only. -/
inductive Pass : Work → Work → Prop where
  | turn {w w' : Work} (turn : Turn w w') : Pass w w'
  | deed (s : Scheduler) (batch act) (deed : Deed) (outside : deed.isLoop = false)
      (here : ∀ w l clock, deed ≠ .elsewhere w l clock) (its : deed.All Body.LooksUp) :
      Pass ⟨s, batch, act⟩ ⟨deed.carryOut s, batch, act⟩
  | arrive (s : Scheduler) (batch act) (messages : List (Checkpoint.Ticket × Message))
      (its : ∀ m ∈ messages, m.2.All Body.LooksUp) :
      Pass ⟨s, batch, act⟩ ⟨{ s with messages := s.messages ++ messages }, batch, act⟩
  | visit (s : Scheduler) (batch act) (v : Sessions.Visit) :
      Pass ⟨s, batch, act⟩ ⟨{ s with sessions := v.carryOut s.sessions }, batch, act⟩
  | values (s : Scheduler) (batch act) (w : Workspace) (clock : Instant) :
      Pass ⟨s, batch, act⟩ ⟨{ s with toWorkspace := w, clock }, batch, act⟩
  | limits (s : Scheduler) (batch act) (max : Nat) (threading accepting : Bool) :
      Pass ⟨s, batch, act⟩
        ⟨{ s with gateway := { s.gateway with max, threading, accepting } }, batch, act⟩
  | asked (s : Scheduler) (batch act) (coordinator : Checkpoint.Coordinator) :
      Pass ⟨s, batch, act⟩ ⟨{ s with coordinator }, batch, act⟩
  | conclude (s : Scheduler) (batch act) (timedOut : Bool) :
      Pass ⟨s, batch, act⟩ ⟨(s.conclude timedOut).2, batch, act⟩

abbrev Passages : Work → Work → Prop := Relation.ReflTransGen Pass

/-- Every hold is that of a look-up afterwards if it was before, as long as the handles do not run
out. -/
structure Returns (w w' : Work) : Prop where
  longest : w.server.gateway.longest ≤ w'.server.gateway.longest
  lends : w'.server.gateway.longest < Gateway.handleLimit → w.Lends → w'.Lends

theorem Returns.beside {s s' : Scheduler} {batch batch' : List (TaskId × Input)}
    {act : Option (Caller × Act)} (passes : ∀ hand, Scheduler.Passes s hand s' hand) :
    Returns ⟨s, batch, act⟩ ⟨s', batch', act⟩ where
  longest := (passes []).longest
  lends := fun few ⟨hand, carries, lends⟩ => ⟨hand, carries, (passes _).lends few lends⟩

theorem Returns.of_chores {s s' : Scheduler} {batch batch' : List (TaskId × Input)}
    {act : Option (Caller × Act)} (chores : ∀ P, s.Stocked P → Chores P none s s') :
    Returns ⟨s, batch, act⟩ ⟨s', batch', act⟩ :=
  .beside (Passes.of_chores chores)

theorem Turn.returns (turn : Turn w w') : Returns w w' := by
  cases turn with
  | message s => exact .of_chores fun P stocked => takeMessage_chores stocked
  | result s =>
    have taken (hand : List SessionId) := s.takeCompletion_passes hand
    exact .beside fun hand => ⟨(taken hand).longest, fun few lends =>
      ⟨(taken hand).lends few lends.host, lends.stocked.takeCompletion⟩⟩
  | poll s => exact .of_chores fun P _ => s.pollCheckpoint_chores
  | values s => exact .of_chores fun P _ => Chores.same rfl rfl rfl rfl
  | destroy s batch v =>
    refine .of_chores fun P _ => ?_
    have told : Chores P none s (s.note (.destroyed (v.finalizableId?.getD 0))) :=
      s.note_chores rfl nofun
    exact told.trans (Chores.same rfl rfl rfl rfl)
  | summon s batch v body its =>
    exact .of_chores fun P stocked =>
      s.create_chores .system none false (stocked.database v body its)
  | takeLines s =>
    exact .of_chores fun P _ => s.sessions_chores fun _ held => held.takeInput
  | command s batch entry =>
    exact .of_chores fun P stocked => startCommand_chores stocked entry
  | takeUp s =>
    exact .beside fun hand => ⟨Nat.le_refl _, fun _ lends =>
      ⟨lends.host, lends.stocked.of_tasks lends.stocked.bodies (fun _ hm => hm) rfl rfl⟩⟩
  | pick s batch id input =>
    have picked (hand : List SessionId) := (s.pick_chores (P := Body.LooksUp) id input).handsOn hand
    refine ⟨(picked []).longest, fun few ⟨_, free, lends⟩ => ?_⟩
    obtain rfl := free
    exact ⟨none, pick_carries lends.stocked id input, (picked []).lends few lends⟩
  | move s batch caller act =>
    exact ⟨(move_onward (p := False) nofun caller s {}).longest, move_lends⟩
  | sweep s =>
    exact .of_chores fun P _ => .visit rfl rfl (fun _ held => held.sweep _) fun _ hm => hm

theorem Pass.returns (pass : Pass w w') : Returns w w' := by
  cases pass with
  | turn turn => exact turn.returns
  | deed s batch act deed outside here its =>
    have unheld : deed.Unheld s := by
      cases deed with
      | elsewhere w l clock => exact absurd rfl (here w l clock)
      | _ => trivial
    have done : Chores Body.LooksUp none s (deed.carryOut s) :=
      s.carryOut_chores deed outside its unheld
    exact .beside done.handsOn
  | arrive s batch act messages its =>
    have came : Chores Body.LooksUp none s { s with messages := s.messages ++ messages } :=
      (Chore.arrive s messages its).chores
    exact .beside came.handsOn
  | visit s batch act v =>
    exact .of_chores fun P _ => s.sessions_chores fun _ held => held.visit v
  | values | asked => exact .of_chores fun P _ => Chores.same rfl rfl rfl rfl
  | limits s batch act max threading accepting =>
    exact .of_chores fun P _ => Chores.same rfl rfl rfl rfl
  | conclude s batch act timedOut => exact .beside (s.conclude_passes timedOut)

theorem Passages.returns (passages : Passages w w') : Returns w w' := by
  induction passages with
  | refl => exact ⟨Nat.le_refl _, fun _ lends => lends⟩
  | tail _ pass ih =>
    exact ⟨ih.longest.trans pass.returns.longest, fun few lends =>
      pass.returns.lends few (ih.lends (pass.returns.longest.trans_lt few) lends)⟩

theorem ofConfig_lends (c : Config) {database : Database} {parser : CommandParser} (clock : Instant)
    (parsed : parser.All Body.LooksUp) (finalizers : database.All Body.LooksUp) :
    Lends (idle (ofConfig c database parser clock)) := by
  let opened : Host :=
    { Workspace.start, ({ sessions := { timeout := c.network.connectTimeout.toNanos } } : Lobby) with
      gateway := { max := c.runtime.maxBackgroundThreads
                   threading := c.runtime.backgroundThreading } }
  have lends : opened.Lends [] :=
    ⟨opened_sound _ _ _,
      opened_manned _ _ ⟨List.nodup_nil, fun some => absurd rfl some, Nat.le_refl _⟩,
      ⟨List.nodup_nil, nofun, nofun, nofun, nofun⟩, nofun, nofun⟩
  have same : Host.Passes opened [] (ofConfig c database parser clock).toHost [] := .same rfl rfl rfl
  exact ⟨none, rfl, same.lends (Nat.zero_lt_succ _) lends, nofun, nofun, parsed, finalizers⟩

/-- From the start of a server, whatever happens, if holds are taken for look-ups only: the activity
of a session is the number of its look-ups that are not over, and one more if the step under way has
taken a hold that it is about to hand over. Once no waiter is left and no step is under way, no
session is held, and a sweep closes every session that is to be disconnected. -/
theorem look_ups_give_back (c : Config) (database : Database) (parser : CommandParser)
    (clock : Instant) (parsed : parser.All Body.LooksUp) (finalizers : database.All Body.LooksUp)
    {s : Scheduler} {batch : List (TaskId × Input)} {act : Option (Caller × Act)}
    (passages : Passages (idle (ofConfig c database parser clock)) ⟨s, batch, act⟩)
    (few : s.gateway.longest < Gateway.handleLimit) :
    (∀ x ∈ s.made, ∀ id, held? x.2.extra = some id → x.2 = Builtin.lookup id) ∧
    (∃ hand, Carries act hand ∧ ∀ x ∈ s.sessions.all,
      x.activity = (s.lookups x.id).length + (Option.toList hand).count x.id) ∧
    (act = none → ∀ x ∈ s.sessions.all, x.activity = (s.lookups x.id).length) ∧
    (act = none → s.gateway.waiters = [] →
      (∀ x ∈ s.sessions.all, x.activity = 0) ∧
      ∀ x ∈ s.sessions.registered, x.disconnecting = true →
        s.sweep.sessions.get? x.id = none ∧
          ∀ x' ∈ s.sweep.sessions.all, x'.id = x.id → x'.transport.closings = 1) := by
  obtain ⟨hand, carries, lends⟩ :=
    (passages.returns).lends few (ofConfig_lends c clock parsed finalizers)
  have none_carried (free : act = none) : hand = none := by
    subst free
    exact carries
  refine ⟨fun x hx => (lends.host.made x hx).looks_up, ⟨hand, carries, fun x hx => lends.host.activity hx⟩,
    fun free x hx => ?_, fun free empty => ?_⟩
  · rw [lends.host.activity hx, none_carried free]
    rfl
  · have none_held : s.sessions.HeldBy [] := by
      have held := lends.host.sessions
      rw [lends.host.none_lent empty, none_carried free] at held
      exact held
    refine ⟨fun x hx => none_held.activity hx, fun x hx wants => ?_⟩
    exact (none_held.sweep_free s.now.1 hx wants List.not_mem_nil).2

def visited (s : Scheduler) (v : Sessions.Visit) : Scheduler :=
  { s with sessions := v.carryOut s.sessions }

def typed (s : Scheduler) (line : String) : Scheduler := ((Deed.line 1 line).carryOut s).tick.2

/-- A session is opened, asks for the name at its far end and is to be disconnected meanwhile. -/
def callIn (s : Scheduler) : Scheduler :=
  (visited (typed (visited s (.enter 0 "peer")) "connection_name_lookup()")
    (.touch 1 .requestDisconnect)).tick.2

theorem callIn_passages (s : Scheduler) : Passages (idle s) (idle (callIn s)) := by
  have turns (s : Scheduler) : Passages (idle s) (idle s.tick.2) :=
    Relation.ReflTransGen.mono (fun _ _ => Pass.turn) _ _ (tick_turns s false)
  have visits (s : Scheduler) (v : Sessions.Visit) : Passages (idle s) (idle (visited s v)) :=
    .single (.visit s [] none v)
  have types (s : Scheduler) (line : String) : Passages (idle s) (idle (typed s line)) := by
    have pushed : Passages (idle s) (idle ((Deed.line 1 line).carryOut s)) :=
      .single (.deed s [] none (.line 1 line) rfl nofun trivial)
    exact pushed.trans (turns ((Deed.line 1 line).carryOut s))
  rw [callIn]
  have entered := visits s (.enter 0 "peer")
  generalize visited s (.enter 0 "peer") = s' at entered ⊢
  have asked := types s' "connection_name_lookup()"
  generalize typed s' "connection_name_lookup()" = s'' at asked ⊢
  have wanted := visits s'' (.touch 1 .requestDisconnect)
  generalize visited s'' (.touch 1 .requestDisconnect) = s at wanted ⊢
  exact entered.trans (asked.trans (wanted.trans (turns s)))

theorem worked_passages (s : Scheduler) (handle : Handle) :
    Passages (idle s) (idle (s.carryOut [.step handle, .step handle, .step handle])) := by
  have worked (s : Scheduler) : Passages (idle s) (idle ((Deed.step handle).carryOut s)) :=
    .single (.deed s [] none (.step handle) rfl nofun trivial)
  exact (worked s).trans ((worked _).trans (worked _))

def calling : Scheduler := callIn (ofConfig {} (.placeholders 0 [] .absent) Command.read 0)

def called : Scheduler := calling.carryOut [.step 1, .step 1, .step 1]

theorem calling_called :
    (∃ x ∈ calling.sessions.all, x.activity = 1 ∧ (calling.lookups x.id).length = 1) ∧
      (∀ x ∈ called.sessions.all, x.activity = 0) ∧ called.sweep.sessions.get? 1 = none := by
  have began : Passages _ (idle calling) := callIn_passages _
  have went_on : Passages (idle calling) (idle called) := worked_passages calling 1
  have fine : CommandParser.All Body.LooksUp Command.read := Command.read_looksUp
  have placed := Database.placeholders_looksUp 0 [] .absent
  have few : calling.gateway.longest < Gateway.handleLimit := by decide +kernel
  have few' : called.gateway.longest < Gateway.handleLimit := by decide +kernel
  obtain ⟨-, -, counted, -⟩ := look_ups_give_back {} _ _ 0 fine placed began few
  obtain ⟨-, -, -, given_back⟩ := look_ups_give_back {} _ _ 0 fine placed (began.trans went_on) few'
  obtain ⟨unheld, closes⟩ := given_back rfl (by decide +kernel)
  have held : ∃ x ∈ calling.sessions.all, x.activity = 1 := by decide +kernel
  have wanting : ∃ x ∈ called.sessions.registered, x.id = 1 ∧ x.disconnecting = true := by
    decide +kernel
  obtain ⟨x, hx, active⟩ := held
  obtain ⟨y, hy, its, wants⟩ := wanting
  refine ⟨⟨x, hx, active, ?_⟩, unheld, its ▸ (closes y hy wants).1⟩
  rw [← counted rfl x hx]
  exact active

end Work
end MooCore
