import Mathlib
import MooCore.Workspace
/-!
# Histories of a finalization queue

What happens to the values of a queue, in order, over any course of work: operations of owners,
passes, and queues read back. A history is lawful when every happening is allowed by what came
before it; that no value is finalized or destroyed twice follows from that alone.
-/

set_option autoImplicit false
namespace MooCore.Workspace

/-- What is done to a workspace. -/
inductive Deed where
  | act (op : Op)
  | drain (dispatch : Dispatcher) (farewell : Farewell)
  | restore (source : Text.Source)

/-- What happens to a value of the queue. A value read back as one whose finalizer had been started
before counts as restored. -/
inductive Happening where
  | pass (e : PassEvent)
  | restored (v : Value)

def PassEvent.value : PassEvent → Value
  | .finalize v _ | .failed v _ | .destroy v _ => v

def Happening.value : Happening → Value
  | .pass e => e.value
  | .restored v => v

/-- What is read back as started. -/
def readBack (es : List Entry) : List Happening :=
  (es.filter Entry.finalized).map fun e => .restored e.value

def Deed.carryOut (w : Workspace) : Deed → List Happening × Workspace
  | .act op => ([], (w.apply op).2)
  | .drain dispatch farewell =>
    let p := w.drain dispatch farewell
    (p.events.map .pass, p.workspace)
  | .restore source =>
    let w' := (w.restore source).2.2
    (readBack (w'.entries.drop w.entries.length), w')

def carryOut (w : Workspace) : List Deed → List Happening × Workspace
  | [] => ([], w)
  | d :: ds =>
    let (now, w) := d.carryOut w
    let (rest, w) := carryOut w ds
    (now ++ rest, w)

/-! ## Laws -/

def Finalizes (c : CellId) : Happening → Bool
  | .pass (.finalize v _) => v.cell? == some c
  | _ => false

def Destroys (c : CellId) : Happening → Bool
  | .pass (.destroy v _) => v.cell? == some c
  | _ => false

def Silent (past : List Happening) (v : Value) : Prop :=
  ∀ x ∈ past, ∀ c, v.cell? = some c → x.value.cell? ≠ some c

def Started (past : List Happening) (v : Value) : Prop :=
  (∃ refs, .pass (.finalize v refs) ∈ past) ∨ .restored v ∈ past

def Undestroyed (past : List Happening) (v : Value) : Prop :=
  ∀ x ∈ past, ∀ c, v.cell? = some c → Destroys c x = false

def Allowed (past : List Happening) : Happening → Prop
  | .pass (.finalize v _) => v.isFinalizable = true ∧ Silent past v
  | .pass (.failed v _) => ∃ refs, .pass (.finalize v refs) ∈ past
  | .pass (.destroy v refs) => refs = 0 ∧ Started past v ∧ Undestroyed past v
  | .restored v => Silent past v

def Lawful (past : List Happening) : Prop :=
  ∀ before x after, past = before ++ x :: after → Allowed before x

variable {past before after : List Happening} {v : Value} {c : CellId} {x : Happening}

theorem lawful_nil : Lawful [] := by
  intro before x after e
  simp at e

theorem Lawful.snoc (lawful : Lawful past) (allowed : Allowed past x) : Lawful (past ++ [x]) := by
  intro before y after e
  rcases List.eq_nil_or_concat after with rfl | ⟨front, last, rfl⟩
  · obtain ⟨rfl, same⟩ := List.append_inj' e rfl
    cases same
    exact allowed
  · rw [List.concat_eq_append, ← List.cons_append, ← List.append_assoc] at e
    exact lawful before y front (List.append_inj' e rfl).1

theorem Lawful.of_append (lawful : Lawful (before ++ after)) : Lawful before := by
  intro b x a e
  exact lawful b x (a ++ after) (by rw [e, List.append_assoc, List.cons_append])

theorem Silent.append (first : Silent before v) (second : Silent after v) :
    Silent (before ++ after) v := by
  intro x hx
  rcases List.mem_append.1 hx with hx | hx
  · exact first x hx
  · exact second x hx

theorem Silent.undestroyed (silent : Silent past v) : Undestroyed past v := by
  intro x hx c hc
  cases x with
  | restored u => rfl
  | pass e =>
    cases e with
    | finalize u n => rfl
    | failed u f => rfl
    | destroy u n => simpa [Destroys, Happening.value, PassEvent.value] using silent _ hx c hc

theorem value_of_finalizes (h : Finalizes c x = true) : x.value.cell? = some c := by
  cases x with
  | restored u => cases h
  | pass e =>
    cases e with
    | finalize u n => simpa [Finalizes, Happening.value, PassEvent.value] using h
    | failed u f => cases h
    | destroy u n => cases h

theorem Silent.countP_finalizes (silent : Silent past v) (hc : v.cell? = some c) :
    past.countP (Finalizes c) = 0 :=
  List.countP_eq_zero.2 fun x hx finalizes => silent x hx c hc (value_of_finalizes finalizes)

theorem silent_of_finalizes (lawful : Lawful (before ++ x :: after)) (h : Finalizes c x = true) :
    ∃ v, v.cell? = some c ∧ Silent before v := by
  have allowed := lawful before x after rfl
  cases x with
  | restored u => cases h
  | pass e =>
    cases e with
    | finalize u n => exact ⟨u, by simpa [Finalizes] using h, allowed.2⟩
    | failed u f => cases h
    | destroy u n => cases h

theorem Lawful.finalized_once (lawful : Lawful past) (c : CellId) :
    past.countP (Finalizes c) ≤ 1 := by
  induction past using List.reverseRecOn with
  | nil => exact Nat.zero_le _
  | append_singleton past x ih =>
    rw [List.countP_append, List.countP_singleton]
    split
    · rename_i h
      obtain ⟨v, hc, silent⟩ := silent_of_finalizes lawful h
      rw [silent.countP_finalizes hc]
    · exact ih lawful.of_append

theorem Lawful.destroyed_once (lawful : Lawful past) (c : CellId) :
    past.countP (Destroys c) ≤ 1 := by
  induction past using List.reverseRecOn with
  | nil => exact Nat.zero_le _
  | append_singleton past x ih =>
    rw [List.countP_append, List.countP_singleton]
    split
    · rename_i h
      have allowed := lawful past x [] rfl
      have none : past.countP (Destroys c) = 0 := by
        cases x with
        | restored u => cases h
        | pass e =>
          cases e with
          | finalize u n => cases h
          | failed u f => cases h
          | destroy u n =>
            refine List.countP_eq_zero.2 fun y hy => ?_
            have hc : u.cell? = some c := by simpa [Destroys] using h
            simpa using allowed.2.2 y hy c hc
      rw [none]
    · exact ih lawful.of_append

theorem Lawful.not_finalized_after (lawful : Lawful (before ++ x :: after))
    (hc : x.value.cell? = some c) : after.countP (Finalizes c) = 0 := by
  refine List.countP_eq_zero.2 fun y hy finalizes => ?_
  obtain ⟨between, rest, rfl⟩ := List.append_of_mem hy
  rw [← List.cons_append, ← List.append_assoc] at lawful
  obtain ⟨v, hv, silent⟩ := silent_of_finalizes lawful finalizes
  exact silent x (by simp) c hv hc

theorem Lawful.restored_not_finalized (lawful : Lawful past) (restored : .restored v ∈ past)
    (hc : v.cell? = some c) : past.countP (Finalizes c) = 0 := by
  obtain ⟨before, after, rfl⟩ := List.append_of_mem restored
  have silent : Silent before v := lawful before _ after rfl
  have none : Finalizes c (.restored v) = false := rfl
  rw [List.countP_append, List.countP_cons, silent.countP_finalizes hc,
    lawful.not_finalized_after hc, none]
  simp

end MooCore.Workspace
