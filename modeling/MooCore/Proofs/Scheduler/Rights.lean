import MooCore.Proofs.Builtin.Humble
import MooCore.Proofs.Scheduler.Roll
import MooCore.Proofs.Sessions.Hall
/-!
# What takes a wizard's rights

Who is logged in, the limits, the database and the state of checkpoints and of the shutdown: what
of a server takes rights to change. Most of what the loop does leaves it all alone.
-/

set_option autoImplicit false
namespace MooCore
open Background

/-! ## Who is logged in -/

namespace Sessions

/-- Nobody is logged in as a wizard. -/
def Mortal (wizard : Obj → Bool) (r : Sessions) : Prop :=
  ∀ x ∈ r.registered, ∀ player, x.player = some player → wizard player = false

variable {wizard : Obj → Bool} {r r' : Sessions}

theorem Mortal.of_logins (mortal : r.Mortal wizard) (same : r'.logins = r.logins) :
    r'.Mortal wizard := by
  intro x hx player its
  obtain ⟨mem, there⟩ := List.mem_filter.1 hx
  have login : (x.id, x.registered, x.player) ∈ r.logins := same ▸ List.mem_map_of_mem mem
  obtain ⟨y, hy, e⟩ := List.mem_map.1 login
  simp only [Prod.mk.injEq] at e
  exact mortal y (List.mem_filter.2 ⟨hy, e.2.1.trans there⟩) player (e.2.2.trans its)

theorem Mortal.adjust (mortal : r.Mortal wizard) (id : SessionId) {f : Session → Session}
    (leaves : ∀ x, (f x).registered = true → x.registered = true)
    (same : ∀ x, (f x).player = x.player) : (r.adjust id f).Mortal wizard := by
  intro x hx player its
  obtain ⟨mem, there⟩ := List.mem_filter.1 hx
  obtain ⟨y, hy, rfl⟩ := List.mem_map.1 mem
  split at there
  · rename_i here
    rw [if_pos here, same] at its
    exact mortal y (List.mem_filter.2 ⟨hy, leaves y there⟩) player its
  · rename_i elsewhere
    rw [if_neg elsewhere] at its
    exact mortal y (List.mem_filter.2 ⟨hy, there⟩) player its

theorem Mortal.login (mortal : r.Mortal wizard) (id : SessionId) {player : Obj}
    (one_more : wizard player = false) : (r.login id player).2.Mortal wizard := by
  unfold Sessions.login touch change
  split
  · intro x hx player' its
    obtain ⟨mem, there⟩ := List.mem_filter.1 hx
    obtain ⟨y, hy, rfl⟩ := List.mem_map.1 mem
    split at there
    · rename_i here
      rw [if_pos here] at its
      exact Option.some.inj its ▸ one_more
    · rename_i elsewhere
      rw [if_neg elsewhere] at its
      exact mortal y (List.mem_filter.2 ⟨hy, there⟩) player' its
  · exact mortal

theorem Mortal.tryClose (mortal : r.Mortal wizard) (id : SessionId) :
    (r.tryClose id).2.Mortal wizard := by
  have held : (r.adjust id Session.hold).Mortal wizard :=
    mortal.adjust id (fun _ there => there) fun _ => rfl
  unfold Sessions.tryClose
  split
  · exact mortal
  · dsimp only
    split
    · exact held.adjust id (fun _ there => there) fun _ => rfl
    · refine Mortal.adjust ?_ id (fun _ there => nomatch there) fun _ => rfl
      refine Mortal.adjust ?_ id (fun _ there => there) fun _ => rfl
      exact held.adjust id (fun _ there => there) fun _ => rfl

theorem Mortal.tryCloseAll {α : Type} (mortal : r.Mortal wizard) (outcome : CloseOutcome)
    (ids : List (SessionId × α)) : (r.tryCloseAll outcome ids).2.Mortal wizard := by
  induction ids generalizing r with
  | nil => exact mortal
  | cons x ids ih => exact ih (mortal.tryClose x.1)

theorem Mortal.sweep (mortal : r.Mortal wizard) (now : Instant) :
    (r.sweep now).2.Mortal wizard :=
  mortal.tryCloseAll _ _

theorem touch_same (x : Session) {t : Session.Touch} (other : ∀ player, t ≠ .login player) :
    (x.touch t).id = x.id ∧ (x.touch t).registered = x.registered ∧
      (x.touch t).player = x.player := by
  cases t with
  | login player => exact absurd rfl (other player)
  | requestDisconnect | pushInput => exact ⟨rfl, rfl, rfl⟩
  | takeLine =>
    rw [Session.touch]
    split <;> exact ⟨rfl, rfl, rfl⟩
  | send line =>
    rw [Session.touch_send]
    split <;> exact ⟨rfl, rfl, rfl⟩

theorem touch_logins (r : Sessions) (id : SessionId) {t : Session.Touch}
    (other : ∀ player, t ≠ .login player) : (r.touch id t).2.logins = r.logins :=
  r.change_logins id fun x => touch_same x other

theorem send_logins (r : Sessions) (id : SessionId) (line : String) :
    (r.send id line).2.logins = r.logins := by
  rw [send_eq]
  split
  · exact r.adjust_logins id fun x => touch_same x nofun
  · rfl

theorem takeInput_logins (r : Sessions) : r.takeInput.2.logins = r.logins := by
  unfold takeInput
  split
  · rfl
  · rw [logins, logins, List.map_map]
    refine List.map_congr_left fun x _ => ?_
    rw [Function.comp_apply, withoutLine]
    split
    · obtain ⟨id, registered, player⟩ := touch_same x (t := .takeLine) fun _ same => by cases same
      rw [id, registered, player]
    · rfl

end Sessions

/-! ## What rights depend on -/

/-- What takes a wizard's rights to change, and what the loop is not expected to change by
itself. -/
structure Rights where
  database : Database
  parser : CommandParser
  coordinator : Checkpoint.Coordinator
  directory : Option Checkpoint.Directory
  max : Nat
  threading : Bool
  messages : List (Checkpoint.Ticket × Message)

def Scheduler.rights (s : Scheduler) : Rights where
  database := s.database
  parser := s.parser
  coordinator := s.coordinator
  directory := s.directory
  max := s.gateway.max
  threading := s.gateway.threading
  messages := s.messages

def Event.Modest (wizard : Obj → Bool) (failing : Set TaskId) : Event → Prop
  | .killed _ player => wizard player = false
  | .ended id (.ok _) => id ∉ failing
  | _ => True

def Event.isBland : Event → Bool
  | .killed .. | .ended .. => false
  | _ => true

theorem Event.isBland_of_life {e : Event} (mute : e.life? = none) : e.isBland = true := by
  cases e <;> first | rfl | cases mute

theorem Event.modest_of_isBland {e : Event} (bland : e.isBland = true) (wizard : Obj → Bool)
    (failing : Set TaskId) : e.Modest wizard failing := by
  cases e <;> trivial

/-- Nothing that a task's rights depend on has changed. -/
structure Bland (s s' : Scheduler) : Prop where
  rights : s'.rights = s.rights
  logins : s'.sessions.logins = s.sessions.logins
  tasks : s'.tasks = s.tasks
  ready : s'.ready = s.ready
  lastTask : s'.lastTask = s.lastTask
  asked : s'.asked = s.asked
  trace : ∃ es, s'.trace = s.trace ++ es ∧ ∀ e ∈ es, e.isBland = true

namespace Bland
open Scheduler
variable {s s' s'' : Scheduler}

theorem of_same (rights : s'.rights = s.rights) (logins : s'.sessions.logins = s.sessions.logins)
    (tasks : s'.tasks = s.tasks) (ready : s'.ready = s.ready) (lastTask : s'.lastTask = s.lastTask)
    (asked : s'.asked = s.asked) (trace : s'.trace = s.trace) : Bland s s' :=
  ⟨rights, logins, tasks, ready, lastTask, asked, [], by rw [trace, List.append_nil], nofun⟩

theorem refl (s : Scheduler) : Bland s s := .of_same rfl rfl rfl rfl rfl rfl rfl

theorem trans (first : Bland s s') (second : Bland s' s'') : Bland s s'' := by
  obtain ⟨es, trace, bland⟩ := first.trace
  obtain ⟨es', trace', bland'⟩ := second.trace
  refine ⟨second.rights.trans first.rights, second.logins.trans first.logins,
    second.tasks.trans first.tasks, second.ready.trans first.ready,
    second.lastTask.trans first.lastTask, second.asked.trans first.asked, es ++ es',
    by rw [trace', trace, List.append_assoc], fun e he => ?_⟩
  exact (List.mem_append.1 he).elim (bland e) (bland' e)

theorem of_host {h : Host} (apart : Apart s.toHost h) : Bland s { s with toHost := h } := by
  obtain ⟨es, trace, other⟩ := apart.trace
  refine ⟨?_, apart.logins, rfl, rfl, rfl, rfl, es, trace,
    fun e he => Event.isBland_of_life (Event.life?_of_other (other e he))⟩
  simp only [Scheduler.rights, apart.max, apart.threading]

theorem note (s : Scheduler) {e : Event} (bland : e.isBland = true) : Bland s (s.note e) :=
  ⟨rfl, rfl, rfl, rfl, rfl, rfl, [e], rfl, fun _ he => List.mem_singleton.1 he ▸ bland⟩

theorem foldl {α : Type} {f : Scheduler → α → Scheduler} (each : ∀ s x, Bland s (f s x))
    (xs : List α) (s : Scheduler) : Bland s (xs.foldl f s) := by
  induction xs generalizing s with
  | nil => exact refl s
  | cons x xs ih => exact (each s x).trans (ih _)

theorem stats (s : Scheduler) (stats : SchedulerStats) : Bland s { s with stats } :=
  .of_same rfl rfl rfl rfl rfl rfl rfl

theorem releaseAll (s : Scheduler) (vs : List Value) : Bland s (s.releaseAll vs) :=
  .of_same rfl rfl rfl rfl rfl rfl rfl

theorem release (s : Scheduler) (v : Value) : Bland s (s.release v) :=
  .of_same rfl rfl rfl rfl rfl rfl rfl

theorem keep (s : Scheduler) (v : Value) : Bland s (s.onHost (·.keep v)) :=
  .of_same rfl rfl rfl rfl rfl rfl rfl

theorem releaseInput (s : Scheduler) (input : Input) : Bland s (s.releaseInput input) := by
  cases input with
  | start => exact refl s
  | resume v => exact release s v

theorem sessions (s : Scheduler) {sessions : Sessions}
    (same : sessions.logins = s.sessions.logins) : Bland s { s with sessions } :=
  .of_same rfl same rfl rfl rfl rfl rfl

theorem sendLine (s : Scheduler) (session : SessionId) (line : String) :
    Bland s (s.sendLine session line).2 :=
  sessions s (s.sessions.send_logins session line)

theorem answer (s : Scheduler) (task : TaskId) (result : TaskAnswer) :
    Bland s (s.answer task result) := by
  unfold Scheduler.answer
  split
  · exact ⟨rfl, rfl, rfl, rfl, rfl, rfl, _, rfl, fun _ he => List.mem_singleton.1 he ▸ rfl⟩
  · cases result with
    | ok v => exact release s v
    | error f => exact refl s

theorem prepare (s : Scheduler) (d : Draft) : Bland s (s.prepare d).2 :=
  .of_host (s.toHost.buildAll_apart d.recipes)

theorem immediate? (s : Scheduler) (response : Response) : Bland s (s.immediate? response).2 := by
  rcases response with _ | _ | _ <;> exact .of_same rfl rfl rfl rfl rfl rfl rfl

theorem discard (s : Scheduler) (v : Value) : Bland s (s.discard v) :=
  .of_same rfl rfl rfl rfl rfl rfl rfl

theorem perform (s : Scheduler) {e : Effect} (harmless : e.isHarmless = true) :
    Bland s (s.perform e).2 := by
  cases e with
  | acquire session => exact sessions s (s.sessions.guard_logins session)
  | send session line => exact sendLine s session line
  | push session line =>
    have looked : Bland s s.now.2 := .of_same rfl rfl rfl rfl rfl rfl rfl
    exact looked.trans (sessions _ (s.sessions.touch_logins session nofun))
  | disconnect session => exact sessions s (s.sessions.touch_logins session nofun)
  | remark r => exact note s rfl
  | login _ _ | kill _ | setMaxThreads _ | setThreading _ | requestCheckpoint _
  | requestShutdown _ => cases harmless
  | waiters | maxThreads | owner _ | isWizard _ | newId | make _ | tryMake _ | keep _ | release _
  | workspace _ | queueStats => exact .of_same rfl rfl rfl rfl rfl rfl rfl

end Bland

/-! ## Moves of a step -/

namespace Scheduler

theorem perform_tasks (s : Scheduler) (e : Effect) : (s.perform e).2.tasks = s.tasks := by
  cases e with
  | kill task =>
    rw [perform]
    split <;> rfl
  | _ => rfl

theorem perform_owner (s : Scheduler) (e : Effect) : (s.perform e).2.owner? = s.owner? := by
  funext id
  rw [owner?, perform_tasks, owner?]

theorem takeCompletion_asked (s : Scheduler) : s.takeCompletion.asked = s.asked := by
  unfold takeCompletion
  split
  · rfl
  · unfold handleCompletion
    dsimp only
    split
    · rfl
    · split <;> rfl

theorem perform_truthful (s : Scheduler) (e : Effect) :
    e.Truthful ⟨s.database.isWizard, s.owner?⟩ (s.perform e).1 := by
  cases e <;> trivial

end Scheduler
end MooCore
