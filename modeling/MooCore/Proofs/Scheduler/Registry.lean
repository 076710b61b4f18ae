import Mathlib
import MooCore.Proofs.Scheduler.Replies
import MooCore.Proofs.Scheduler.Sparing
/-!
# The registry of a server

Whatever the loop does, and whatever other threads do with the sessions in between, the registry of
a server stays in order: the counts are those of some holds, and every session in it has an open
transport.
-/

set_option autoImplicit false
namespace MooCore
open Background

namespace Sessions

variable {r r' : Sessions}

/-- Nothing is under way, and the sessions are held as often as they say. -/
def InOrder (r : Sessions) : Prop := ∃ holds, r.HeldBy holds

namespace InOrder

theorem guard (order : r.InOrder) (id : SessionId) : (r.guard id).2.InOrder := by
  obtain ⟨holds, held⟩ := order
  have taken := held.guard id
  split at taken
  · exact ⟨_, taken⟩
  · rw [taken]
    exact ⟨holds, held⟩

theorem unguard (order : r.InOrder) (id : SessionId) : (r.unguard id).InOrder := by
  obtain ⟨holds, held⟩ := order
  by_cases mem : id ∈ holds
  · exact ⟨holds.erase id, (held.perm (List.perm_cons_erase mem)).unguard⟩
  · refine ⟨holds, held.same ?_⟩
    refine (List.map_congr_left fun x hx => ?_).trans (List.map_id' _)
    split
    · rename_i here
      have unheld : x.activity = 0 := by
        rw [held.activity hx, here]
        exact List.count_eq_zero.2 mem
      have same : x.activity - 1 = x.activity := by omega
      rw [Session.letGo, same]
    · rfl

theorem attends (order : r.InOrder) (attends : r.Attends r') : r'.InOrder := by
  induction attends with
  | refl => exact order
  | guard _ id ih => exact ih.guard id
  | unguard _ id ih => exact ih.unguard id

theorem kept (order : r.InOrder) (keeps : ∀ holds, r.HeldBy holds → r'.HeldBy holds) : r'.InOrder :=
  order.imp fun holds held => keeps holds held

theorem ids (order : r.InOrder) : (r.all.map Session.id).Nodup := by
  obtain ⟨holds, held⟩ := order
  exact Hall.Sound.ids held

theorem listens (order : r.InOrder) {x : Session} (mem : x ∈ r.registered) :
    r.listens x.id = true := by
  obtain ⟨there, registered⟩ := List.mem_filter.1 mem
  have found := Hall.get?_of_mem order.ids there
  obtain ⟨holds, held⟩ := order
  have keeps := held.keeps x there
  have attached : x.attached = true :=
    (keeps.present.1 registered).resolve_right (Hall.not_parting rfl x.id)
  rw [Sessions.listens, found, if_pos registered, Option.any_some, Session.listens, attached,
    keeps.whole.1 attached]
  rfl

end InOrder
end Sessions

namespace Scheduler

variable {P : Body → Prop} {under : Option TaskId} {s s' : Scheduler}

theorem Chore.inOrder (chore : Chore P under s s') (order : s.sessions.InOrder) :
    s'.sessions.InOrder := by
  cases chore with
  | around same seen sessions messages => exact order.kept sessions
  | work handle => exact order.attends (s.toHost.step_apart handle).sessions
  | silence task => exact order.attends (s.toHost.killWaiters_apart task).sessions
  | offer rule => exact order.attends (s.toHost.enumerate_apart rule).sessions
  | create | rewrite | leave | withdraw | finish | arrive => exact order

theorem Chores.inOrder (chores : Chores P under s s') (order : s.sessions.InOrder) :
    s'.sessions.InOrder := by
  induction chores with
  | refl => exact order
  | tail _ chore ih => exact chore.inOrder ih

theorem takeCompletion_sessions (s : Scheduler) : s.takeCompletion.sessions = s.sessions := by
  unfold takeCompletion handleCompletion
  split
  · rfl
  · dsimp only
    split
    · rfl
    · split <;> rfl

theorem perform_inOrder (s : Scheduler) (e : Effect) (order : s.sessions.InOrder) :
    (s.perform e).2.sessions.InOrder := by
  by_cases takes : ∃ session, e = .acquire session
  · obtain ⟨session, rfl⟩ := takes
    exact order.guard session
  · have done : AnyChores none s (s.perform e).2 :=
      s.perform_chores fun session same => takes ⟨session, same⟩
    exact done.inOrder order

theorem move_inOrder (act : Act) (caller : Caller) (s : Scheduler) (order : s.sessions.InOrder) :
    (act.move caller s).2.sessions.InOrder := by
  have finished (result : Except String Value) :
      (s.finish caller.task result).2.sessions.InOrder :=
    Chores.inOrder (P := fun _ => True) (s.finish_chores caller.task result) order
  cases act with
  | complete v => exact finished (.ok v)
  | abort message => exact finished (.error message)
  | effect e next => exact s.perform_inOrder e order
  | background envelope callback held next =>
    have asked := order.attends ((s.putBack caller.task held next).toHost.suspend_apart caller.task
      { envelope with callback }).sessions
    rw [move_background_eq]
    exact Chores.inOrder (P := fun _ => True) (received_chores _ caller next _) asked

end Scheduler

namespace Work
open Scheduler

variable {w w' : Work}

theorem Turn.inOrder (turn : Turn w w') (order : w.server.sessions.InOrder) :
    w'.server.sessions.InOrder := by
  have beside {s s' : Scheduler} (order : s.sessions.InOrder) (chores : AnyChores none s s') :
      s'.sessions.InOrder := chores.inOrder order
  cases turn with
  | message s => exact beside order (takeMessage_chores (Stocked.any s))
  | result s => exact s.takeCompletion_sessions ▸ order
  | poll s => exact beside order s.pollCheckpoint_chores
  | values | destroy | summon | takeUp => exact order
  | takeLines s => exact order.kept fun _ held => held.takeInput
  | command s batch entry => exact beside order (startCommand_chores (Stocked.any s) entry)
  | pick s batch task input =>
    have picked : AnyChores (some task) s (s.pick task input).2 := s.pick_chores task input
    exact picked.inOrder order
  | move s batch caller act => exact move_inOrder act caller s order
  | sweep s => exact order.kept fun _ held => held.sweep _

/-! ## Whatever happens -/

/-- Something happens to a server: the loop takes a turn, something else is done to it, messages
come in, or other threads go on in between. They visit sessions, hold them and let go of them, and
use values, and time passes. -/
inductive Happening : Work → Work → Prop where
  | turn {w w' : Work} (turn : Turn w w') : Happening w w'
  | deed (s : Scheduler) (batch act) (deed : Deed) (outside : deed.isLoop = false)
      (here : ∀ w l clock, deed ≠ .elsewhere w l clock) :
      Happening ⟨s, batch, act⟩ ⟨deed.carryOut s, batch, act⟩
  | arrive (s : Scheduler) (batch act) (messages : List (Checkpoint.Ticket × Message)) :
      Happening ⟨s, batch, act⟩ ⟨{ s with messages := s.messages ++ messages }, batch, act⟩
  | visit (s : Scheduler) (batch act) (v : Sessions.Visit) :
      Happening ⟨s, batch, act⟩ ⟨{ s with sessions := v.carryOut s.sessions }, batch, act⟩
  | attend (s : Scheduler) (batch act) (sessions : Sessions)
      (attends : s.sessions.Attends sessions) :
      Happening ⟨s, batch, act⟩ ⟨{ s with sessions }, batch, act⟩
  | values (s : Scheduler) (batch act) (w : Workspace) (clock : Instant) :
      Happening ⟨s, batch, act⟩ ⟨{ s with toWorkspace := w, clock }, batch, act⟩

abbrev Happenings : Work → Work → Prop := Relation.ReflTransGen Happening

theorem Turns.happenings (turns : Turns w w') : Happenings w w' :=
  Relation.ReflTransGen.mono (fun _ _ => Happening.turn) _ _ turns

theorem Happening.inOrder (happening : Happening w w') (order : w.server.sessions.InOrder) :
    w'.server.sessions.InOrder := by
  cases happening with
  | turn turn => exact turn.inOrder order
  | deed s batch act deed outside here =>
    have its : deed.All fun _ => True := by
      cases deed with
      | post m => cases m <;> trivial
      | _ => trivial
    have unheld : deed.Unheld s := by
      cases deed with
      | elsewhere w l clock => exact absurd rfl (here w l clock)
      | _ => trivial
    have done : AnyChores none s (deed.carryOut s) := s.carryOut_chores deed outside its unheld
    exact done.inOrder order
  | arrive | values => exact order
  | visit s batch act v => exact order.kept fun _ held => held.visit v
  | attend s batch act sessions attends => exact order.attends attends

theorem Happenings.inOrder (happenings : Happenings w w') (order : w.server.sessions.InOrder) :
    w'.server.sessions.InOrder := by
  induction happenings with
  | refl => exact order
  | tail _ happening ih => exact happening.inOrder ih

theorem Happening.beat (happening : Happening w w') : ∃ given, Beat w given w' := by
  cases happening with
  | turn turn => exact ⟨_, .turn turn⟩
  | deed s batch act deed outside => exact ⟨_, .deed s batch act deed outside⟩
  | arrive s batch act messages => exact ⟨_, .arrive s batch act messages⟩
  | visit s batch act v =>
    exact ⟨_, .deed s batch act (.elsewhere s.toWorkspace
      { s.toLobby with sessions := v.carryOut s.sessions } s.clock) rfl⟩
  | attend s batch act sessions =>
    exact ⟨_, .deed s batch act (.elsewhere s.toWorkspace { s.toLobby with sessions } s.clock) rfl⟩
  | values s batch act w clock =>
    exact ⟨_, .deed s batch act (.elsewhere w s.toLobby clock) rfl⟩

theorem Happenings.run (happenings : Happenings w w') : ∃ ids forgone, Run w ids forgone w' := by
  induction happenings with
  | refl => exact ⟨_, _, .refl _⟩
  | tail _ happening ih =>
    obtain ⟨_, _, run⟩ := ih
    obtain ⟨_, beat⟩ := happening.beat
    exact ⟨_, _, run.tail beat⟩

theorem ofConfig_inOrder (c : Config) (database : Database) (parser : CommandParser)
    (clock : Instant) : (ofConfig c database parser clock).sessions.InOrder :=
  ⟨[], List.nodup_nil, nofun, nofun, nofun, nofun⟩

end Work
end MooCore
