import Mathlib
import MooCore.Background.Host
import MooCore.Proofs.Value.Merging
/-!
# The story of a request

What a trace says about one request, taken by itself, is a story: it is asked for, and then it is
turned down, or done on the spot, or waits for its thread and is over when the thread is.
-/

set_option autoImplicit false
namespace MooCore

/-- What an event says about a request. -/
inductive Mark where
  | accepted
  | refused
  | returned
  | immediate
  | silenced
  | sent
  | discarded
  | lost
  | vanished
deriving DecidableEq

def Event.mark? : Event → Option (Nat × Mark)
  | .accepted n .. => some (n, .accepted)
  | .refused n _ => some (n, .refused)
  | .returned n _ => some (n, .returned)
  | .immediate n _ => some (n, .immediate)
  | .silenced n => some (n, .silenced)
  | .sent n _ => some (n, .sent)
  | .discarded n .. => some (n, .discarded)
  | .lost n .. => some (n, .lost)
  | .vanished n .. => some (n, .vanished)
  | .cleaned .. | .taken _ | .stray .. | .delivered _ | .remark _ | .created .. | .stepped ..
  | .reentered _ | .ended .. | .killed .. | .answered .. | .replied .. | .told .. | .announced _
  | .destroyed _ => none

namespace Background

def tally (m : Mark) (n : Nat) (trace : List Event) : Nat :=
  trace.countP fun e => e.mark? = some (n, m)

def total (m : Mark) (trace : List Event) : Nat :=
  trace.countP fun e => e.mark?.map Prod.snd = some m

def about (n : Nat) (trace : List Event) : List Event :=
  trace.filter fun e => e.mark?.map Prod.fst = some n

variable {n k : Nat} {m : Mark} {trace es : List Event} {e : Event}

theorem about_append (n : Nat) (trace es : List Event) :
    about n (trace ++ es) = about n trace ++ about n es := List.filter_append ..

theorem about_self {e : Event} (h : e.mark? = some (n, m)) : about n [e] = [e] := by
  simp [about, h]

theorem about_other (h : e.mark? = some (k, m)) (ne : k ≠ n) : about n [e] = [] := by
  simp [about, h, ne]

theorem about_mute (mute : ∀ e ∈ es, e.mark? = none) (n : Nat) : about n es = [] :=
  List.filter_eq_nil_iff.2 fun e he => by simp [mute e he]

theorem total_append (m : Mark) (trace es : List Event) :
    total m (trace ++ es) = total m trace + total m es := List.countP_append ..

theorem total_mute (mute : ∀ e ∈ es, e.mark? = none) (m : Mark) : total m es = 0 :=
  List.countP_eq_zero.2 fun e he => by simp [mute e he]

theorem total_single {l : Mark} (h : e.mark? = some (n, l)) :
    total m [e] = if l = m then 1 else 0 := by
  simp [total, List.countP_singleton, h]

/-! ## Chapters -/

/-- What is handed over when a callback has ended: its own value, or an error that says how it broke
down. -/
def Host.Ending.Gives : Host.Ending → Value → Prop
  | .ok own, v => v = own
  | .error message, v => v.shape = .errorMap .exec (message.getD "Background callback panicked")

theorem Host.result_gives (h : Host) (ending : Ending) : ending.Gives (h.result ending).1 := by
  cases ending with
  | ok v => rfl
  | error message => exact h.heap.plain_errorMap_shape .exec _

/-- In the course of the trace the callback of the request with the number was carried out, on the
thread with the handle or on the spot. When it had ended, the value was noted as what it gave. -/
def Request.CameTo (r : Request) (n : Nat) (handle : Option Handle) (trace : List Event)
    (v : Value) : Prop :=
  ∃ (before after : Host) (ending : Host.Ending),
    (r.callback handle r.argument).run { handle, extra := r.extra } before = (ending, after) ∧
      ending.Gives v ∧ after.trace ++ [.returned n v] <+: trace

theorem Request.CameTo.mono {r : Request} {handle : Option Handle} {v : Value}
    {trace' : List Event} (came : r.CameTo n handle trace v) (more : trace <+: trace') :
    r.CameTo n handle trace' v := by
  obtain ⟨before, after, ending, ran, gives, noted⟩ := came
  exact ⟨before, after, ending, ran, gives, noted.trans more⟩

theorem Host.work_came (h : Host) (n : Nat) (handle : Option Handle) (r : Request) :
    r.CameTo n handle
      ((h.work (call r.callback) handle r).2.trace ++
        [.returned n (h.work (call r.callback) handle r).1])
      (h.work (call r.callback) handle r).1 := by
  have same (h : Host) (ending : Ending) : (h.result ending).2.trace = h.trace := by
    cases ending <;> rfl
  refine ⟨h, (call r.callback r.extra handle r.argument h).2,
    (call r.callback r.extra handle r.argument h).1, rfl, result_gives _ _, ?_⟩
  rw [work, same]

/-- How far a request has come. -/
inductive Chapter where
  | asked
  | refused
  | worked (result : Value)
  | immediate
  | waiting (handle : Handle) (active : Bool) (result : Option Value)
  | sent
  | discarded
  | lost

def Chapter.Over : Chapter → Prop
  | refused | immediate | sent | discarded | lost => True
  | asked | worked _ | waiting .. => False

/-- The stories there are of a request of a task in the course of a trace. -/
inductive Tells (trace : List Event) (n : Nat) (task : TaskId) (r : Request) :
    List Event → Chapter → Prop
  | asked : Tells trace n task r [] .asked
  | refused {es : List Event} (h : Tells trace n task r es .asked) (why : Refusal) :
      Tells trace n task r (es ++ [.refused n why]) .refused
  | worked {es : List Event} (h : Tells trace n task r es .asked) {v : Value}
      (came : r.CameTo n none trace v) :
      Tells trace n task r (es ++ [.returned n v]) (.worked v)
  | immediate {es : List Event} {v : Value} (h : Tells trace n task r es (.worked v)) :
      Tells trace n task r (es ++ [.immediate n v]) .immediate
  | accepted {es : List Event} (h : Tells trace n task r es .asked) (handle : Handle) :
      Tells trace n task r (es ++ [.accepted n handle task]) (.waiting handle true none)
  | silenced {es : List Event} {handle : Handle} {active : Bool} {result : Option Value}
      (h : Tells trace n task r es (.waiting handle active result)) :
      Tells trace n task r (es ++ [.silenced n]) (.waiting handle false result)
  | returned {es : List Event} {handle : Handle} {active : Bool}
      (h : Tells trace n task r es (.waiting handle active none)) {v : Value}
      (came : r.CameTo n (some handle) trace v) :
      Tells trace n task r (es ++ [.returned n v]) (.waiting handle active (some v))
  | sent {es : List Event} {handle : Handle} {v : Value}
      (h : Tells trace n task r es (.waiting handle true (some v))) :
      Tells trace n task r (es ++ [.sent n { handle, task, result := v }]) .sent
  | discarded {es : List Event} {handle : Handle} {v : Value}
      (h : Tells trace n task r es (.waiting handle false (some v))) :
      Tells trace n task r (es ++ [.discarded n handle task]) .discarded
  | lost {es : List Event} {handle : Handle} {v : Value}
      (h : Tells trace n task r es (.waiting handle true (some v))) :
      Tells trace n task r (es ++ [.lost n handle task]) .lost

def Chapter.marks : Chapter → List Mark
  | asked => []
  | refused => [.refused]
  | worked _ => [.returned]
  | immediate => [.returned, .immediate]
  | waiting _ _ result => .accepted :: result.toList.map fun _ => .returned
  | sent => [.accepted, .returned, .sent]
  | discarded => [.accepted, .returned, .discarded]
  | lost => [.accepted, .returned, .lost]

variable {task : TaskId} {r : Request} {ch : Chapter}

theorem tally_snoc (m : Mark) (n : Nat) (es : List Event) (e : Event) :
    tally m n (es ++ [e]) = tally m n es + if e.mark? = some (n, m) then 1 else 0 := by
  simp [tally, List.countP_append, List.countP_singleton]

theorem Tells.mono {trace' : List Event} (h : Tells trace n task r es ch)
    (more : trace <+: trace') : Tells trace' n task r es ch := by
  induction h with
  | asked => exact .asked
  | refused _ why ih => exact ih.refused why
  | worked _ came ih => exact ih.worked (came.mono more)
  | immediate _ ih => exact ih.immediate
  | accepted _ handle ih => exact ih.accepted handle
  | silenced _ ih => exact ih.silenced
  | returned _ came ih => exact ih.returned (came.mono more)
  | sent _ ih => exact ih.sent
  | discarded _ ih => exact ih.discarded
  | lost _ ih => exact ih.lost

theorem Tells.tally (h : Tells trace n task r es ch) (m : Mark) (loud : m ≠ .silenced) :
    Background.tally m n es = ch.marks.count m := by
  induction h with
  | asked => rfl
  | @silenced es handle active result _ ih =>
    rw [tally_snoc, ih]
    cases result <;> simp [Event.mark?, Chapter.marks, Ne.symm loud]
  | returned _ _ ih | refused _ _ ih | worked _ _ ih | immediate _ ih | accepted _ _ ih
  | sent _ ih | discarded _ ih | lost _ ih =>
    rw [tally_snoc, ih]
    cases m <;> simp [Event.mark?, Chapter.marks]

theorem Tells.ended (h : Tells trace n task r es ch) (he : e ∈ es) (said : e.mark? = some (n, m))
    (loud : m ≠ .silenced) : m ∈ ch.marks := by
  have some_such : 0 < Background.tally m n es :=
    List.countP_pos_iff.2 ⟨e, he, by simp [said]⟩
  rw [h.tally m loud] at some_such
  exact List.count_pos_iff.1 some_such

end Background
end MooCore
