import Mathlib
import MooCore.Proofs.Background.OnTheWay
import MooCore.Proofs.Value.Merging
import MooCore.Scheduler.Step
/-!
# Tasks that agree

Two tasks agree if they end in the same way and are told the same, whatever they find out about the
servers in which they run. Their values may lie in different cells, so what is the same is the shape
of what they are told. A task that agrees with another one comes to one end, by one list of results.
-/

set_option autoImplicit false
namespace MooCore
open Background

namespace Background

/-- The shape of what is handed over when a callback has ended. -/
def Host.Ending.shape : Host.Ending → Shape
  | .ok v => v.shape
  | .error message =>
    (Shape.errorMap .exec (message.getD "Background callback panicked")).merged

theorem Host.result_shape (h : Host) (ending : Ending) :
    (h.result ending).1.shape = ending.shape := by
  cases ending with
  | ok v => rfl
  | error message =>
    exact Heap.build_shape none h.heap
      (.errorMap .exec (message.getD "Background callback panicked"))

/-- A callback whose ending depends on its argument alone gives a result of one shape, whether it
ends with a value or breaks down. -/
theorem Request.gives_of_ending (r : Request) (ending : Host.Ending)
    (settled : ∀ ctx h, ((r.callback ctx.handle r.argument).run ctx h).1 = ending) :
    r.Gives (·.shape = ending.shape) := fun h handle => by
  have ends : (Host.call r.callback r.extra handle r.argument h).1 = ending :=
    settled ⟨handle, r.extra⟩ h
  rw [Host.work, ← ends]
  exact Host.result_shape _ _

end Background

/-- Whether an effect turns threads on. -/
def Effect.turnsOn : Effect → Bool
  | setThreading on => on
  | _ => false

namespace Act

/-- What one task does agrees with what another does. Neither goes another way because of what it
finds out about its server; if they ask for work, the results are the same, and so is what they do
with them. The first task does not turn threads on. -/
inductive Agrees (c c' : Caller) : Act → Act → Prop where
  | complete (v v' : Value) (same : v.shape = v'.shape) : Agrees c c' (.complete v) (.complete v')
  | abort (message : String) : Agrees c c' (.abort message) (.abort message)
  | left (e : Effect) (next : e.Answer → Act) {act' : Act} (off : e.turnsOn = false)
      (on : ∀ s : Scheduler, Agrees c c' (next (s.perform e).1) act') :
      Agrees c c' (.effect e next) act'
  | right {act : Act} (e : Effect) (next : e.Answer → Act)
      (on : ∀ s : Scheduler, Agrees c c' act (next (s.perform e).1)) :
      Agrees c c' act (.effect e next)
  | background (envelope envelope' : Envelope) (callback callback' : Callback)
      (held held' : List Value) (next next' : Caller → Input → Act) (result : Shape)
      (gives : Request.Gives { envelope with callback } (·.shape = result))
      (gives' : Request.Gives { envelope' with callback := callback' } (·.shape = result))
      (on : ∀ v v' : Value, v.shape = result → v'.shape = result →
        Agrees c c' (next c (.resume v)) (next' c' (.resume v'))) :
      Agrees c c' (.background envelope callback held next)
        (.background envelope' callback' held' next')

/-- By which results a task comes to which end, with no effects but those that are allowed. -/
inductive Comes (allowed : Effect → Prop) (c : Caller) :
    Act → List Shape → Except String Shape → Prop where
  | complete (v : Value) : Comes allowed c (.complete v) [] (.ok v.shape)
  | abort (message : String) : Comes allowed c (.abort message) [] (.error message)
  | effect (e : Effect) (next : e.Answer → Act) {told : List Shape} {out : Except String Shape}
      (may : allowed e) (on : ∀ s : Scheduler, Comes allowed c (next (s.perform e).1) told out) :
      Comes allowed c (.effect e next) told out
  | background (envelope : Envelope) (callback : Callback) (held : List Value)
      (next : Caller → Input → Act) (result : Shape) {told : List Shape}
      {out : Except String Shape}
      (gives : Request.Gives { envelope with callback } (·.shape = result))
      (on : ∀ v : Value, v.shape = result → Comes allowed c (next c (.resume v)) told out) :
      Comes allowed c (.background envelope callback held next) (result :: told) out

variable {allowed allowed' : Effect → Prop} {c c' : Caller} {act act' : Act}
  {told told' : List Shape} {out out' : Except String Shape}

def trial : Scheduler := .ofConfig {} .empty (fun _ => .error "") 0

theorem Comes.unique (comes : Comes allowed c act told out)
    (also : Comes allowed' c act told' out') : told' = told ∧ out' = out := by
  induction comes generalizing told' out' with
  | complete v => cases also with | complete => exact ⟨rfl, rfl⟩
  | abort message => cases also with | abort => exact ⟨rfl, rfl⟩
  | effect e next may on ih => cases also with | effect _ _ may' on' => exact ih trial (on' trial)
  | background envelope callback held next result gives on ih =>
    cases also with
    | background _ _ _ _ result' gives' on' =>
      -- both lists begin with what the callback gives in the server that is tried
      have its := gives trial.toHost none
      have its' := gives' trial.toHost none
      obtain ⟨rest, ends⟩ := ih _ its (on' _ its')
      exact ⟨congrArg₂ List.cons (its'.symm.trans its) rest, ends⟩

/-- Tasks that agree come to the same end by the same results. -/
theorem Agrees.comes (agrees : Agrees c c' act act') :
    ∃ told out, Comes (·.turnsOn = false) c act told out ∧
      Comes (fun _ => True) c' act' told out := by
  induction agrees with
  | complete v v' same => exact ⟨[], .ok v.shape, .complete v, same ▸ .complete v'⟩
  | abort message => exact ⟨[], .error message, .abort message, .abort message⟩
  | left e next off on ih =>
    obtain ⟨told, out, -, one_end⟩ := ih trial
    refine ⟨told, out, .effect e next off fun s => ?_, one_end⟩
    obtain ⟨_, _, here, there⟩ := ih s
    obtain ⟨rfl, rfl⟩ := one_end.unique there
    exact here
  | right e next on ih =>
    obtain ⟨told, out, one_end, -⟩ := ih trial
    refine ⟨told, out, one_end, .effect e next trivial fun s => ?_⟩
    obtain ⟨_, _, here, there⟩ := ih s
    obtain ⟨rfl, rfl⟩ := one_end.unique here
    exact there
  | background envelope envelope' callback callback' held held' next next' result gives gives' on
    ih =>
    have its := gives trial.toHost none
    have its' := gives' trial.toHost none
    obtain ⟨told, out, one_end, one_end'⟩ := ih _ _ its its'
    refine ⟨result :: told, out,
      .background envelope callback held next result gives fun v hv => ?_,
      .background envelope' callback' held' next' result gives' fun v' hv' => ?_⟩
    · obtain ⟨_, _, here, there⟩ := ih _ _ hv its'
      obtain ⟨rfl, rfl⟩ := one_end'.unique there
      exact here
    · obtain ⟨_, _, here, there⟩ := ih _ _ its hv'
      obtain ⟨rfl, rfl⟩ := one_end.unique here
      exact there

end Act
end MooCore
