import MooCore.Proofs.Text.Calls
import MooCore.Proofs.Value.RoundTrip
/-!
# Progress of a reader

Every head takes a line, so a value takes at least as many lines as there are members announced and
not read yet. A container that announces more members than there are lines left is never completed,
however deep it stands and whatever number it announces.
-/

set_option autoImplicit false
namespace MooCore

open Text

namespace Reader

/-- A reader asks for one line after the other until one is refused or it wants no more; to succeed
it takes at least `m`. -/
def Asks {α : Type} (m : Nat) (r : Reader α) : Prop := ∀ src, Asked m src (r src).1 (r src).2

section Readers
variable {α β : Type} {m n : Nat}

theorem Asks.pure (a : α) : Asks 0 (pure a : Reader α) := fun _ => .ok a

theorem Asks.failAt (e : Nat → DecodingError) : Asks m (failAt e : Reader α) := fun _ => .error _

theorem Asks.bind {r : Reader α} {f : α → Reader β} (first : Asks m r)
    (second : ∀ a, Asks n (f a)) : Asks (m + n) (r >>= f) := by
  intro src
  have start := first src
  rw [run_bind]
  rcases e : r src with ⟨e | a, mid⟩
  · rw [e] at start
    exact start.fails _
  · rw [e] at start
    exact start.trans (second a mid)

theorem Asks.accept {r : Reader α} {f : α → Reader β} (first : Asks m r)
    (second : ∀ a, (∃ b, f a = Pure.pure b) ∨ ∃ e, f a = Reader.failAt e) : Asks m (r >>= f) :=
  first.bind (n := 0) fun a => by
    rcases second a with ⟨b, eq⟩ | ⟨e, eq⟩
    · rw [eq]
      exact .pure b
    · rw [eq]
      exact .failAt e

theorem Asks.mono {r : Reader α} (h : Asks n r) (le : m ≤ n) : Asks m r := fun src => (h src).mono le

theorem Asks.map {r : Reader α} (h : Asks m r) (f : α → β) : Asks m (do return f (← r)) :=
  h.bind fun a => Asks.pure (f a)

theorem Asks.head {r : Reader α} (h : Asks m r) (make : α → Head) :
    Asks 0 (do return make (← r)) :=
  (h.map make).mono (Nat.zero_le _)

end Readers

theorem readLine_asks : Asks 1 readLine := by
  intro src
  unfold readLine
  rcases e : src.readLine with ⟨(_ | k) | s, rest⟩
  · exact ⟨1, .refused (.nil src) e, fun _ h => by cases h⟩
  · exact ⟨1, .refused (.nil src) e, fun _ h => by cases h⟩
  · have one : src.Lines 1 rest := .cons e (.nil rest)
    exact ⟨1, .given one, fun _ _ => ⟨one, Nat.le_refl 1⟩⟩

theorem readInteger_asks : Asks 1 readInteger :=
  .accept readLine_asks fun l => by split <;> simp

theorem readFloat_asks : Asks 1 readFloat :=
  .accept readLine_asks fun l => by split <;> simp

theorem readText_asks : Asks 1 readText :=
  .accept readLine_asks fun l => by split <;> simp

theorem readError_asks : Asks 1 readError :=
  .accept readInteger_asks fun n => by split <;> simp

theorem readLength_asks : Asks 1 readLength :=
  .accept readInteger_asks fun n => by split <;> simp

theorem readObj_asks : Asks 1 readObj := .map readInteger_asks Obj.mk

theorem readId_asks : Asks 1 readId := .map readInteger_asks Int64.toUInt64

theorem readBody_asks (code : Int64) : Asks 0 (readBody code) := by
  unfold readBody
  split
  · exact .pure _
  · exact .head readInteger_asks _
  · exact .head readObj_asks _
  · exact .head readFloat_asks _
  · exact .head readError_asks _
  · exact .head readText_asks _
  · exact .head readLength_asks _
  · exact .head readLength_asks _
  · exact .mono (.bind readId_asks fun id => .head readObj_asks _) (Nat.zero_le _)
  · exact .mono (.bind readId_asks fun id => .bind readObj_asks fun cls =>
      .bind readObj_asks fun owner => .head readLength_asks _) (Nat.zero_le _)
  · exact .failAt _

theorem readHead_asks : Asks 1 readHead := .bind readInteger_asks readBody_asks

/-! ## Members still to come -/

/-- The members a head announces, two for a pair. -/
def Head.members : Head → Nat
  | .value _ => 0
  | .list n => n
  | .map n => 2 * n
  | .waif _ _ _ n => n

/-- The members of an open container that are to come after the current one. -/
def Frame.left : Frame → Nat
  | .list n _ => n
  | .map n _ none => 2 * n + 1
  | .map n _ (some _) => 2 * n
  | .waif _ _ _ n _ => n

/-- How many values are to come at least: the current one, and what the open containers lack. -/
def owed (fs : List Frame) : Nat := (fs.map Frame.left).sum + 1

theorem owed_cons (f : Frame) (fs : List Frame) : owed (f :: fs) = f.left + owed fs := by
  rw [owed, owed, List.map_cons, List.sum_cons, Nat.add_assoc]

theorem owed_settle (v : Shape) (fs : List Frame) :
    match settle v fs with
    | .inl _ => owed fs = 1
    | .inr fs' => owed fs = owed fs' + 1 := by
  fun_induction settle v fs with
  | case1 v => rfl
  | case2 v done fs ih =>
    rw [owed_cons, Frame.left, Nat.zero_add]
    exact ih
  | case3 v n done fs =>
    simp only [owed_cons, Frame.left]
    omega
  | case4 v n done fs =>
    simp only [owed_cons, Frame.left]
    omega
  | case5 v done k fs ih =>
    rw [owed_cons, Frame.left, Nat.mul_zero, Nat.zero_add]
    exact ih
  | case6 v n done k fs =>
    simp only [owed_cons, Frame.left]
    omega
  | case7 v id cls owner done fs ih =>
    rw [owed_cons, Frame.left, Nat.zero_add]
    exact ih
  | case8 v id cls owner n done fs =>
    simp only [owed_cons, Frame.left]
    omega

theorem owed_place (fs : List Frame) (head : Head) :
    match place fs head with
    | .inl _ => owed fs + head.members = 1
    | .inr fs' => owed fs + head.members = owed fs' + 1 := by
  rcases head with v | (_ | n) | (_ | n) | ⟨id, cls, owner, (_ | n)⟩
  · exact owed_settle v fs
  · exact owed_settle (.list []) fs
  · simp only [place, owed_cons, Frame.left, Head.members]
    omega
  · exact owed_settle (.map []) fs
  · simp only [place, owed_cons, Frame.left, Head.members]
    omega
  · exact owed_settle (.waif id cls owner []) fs
  · simp only [place, owed_cons, Frame.left, Head.members]
    omega

theorem resume_asks (fs : List Frame) (src : Source) :
    Asked (owed fs) src (resume fs src).1 (resume fs src).2 := by
  -- By `owed_place` a head pays for one value and only adds to what is owed, and it took a line.
  fun_induction resume fs src with
  | case1 fs src e rest taken =>
    have asked := readHead_asks src
    rw [taken] at asked
    exact asked.fails _
  | case2 fs src head rest taken _ v placed =>
    have asked := readHead_asks src
    have one := owed_place fs head
    rw [taken] at asked
    rw [placed] at one
    exact (asked.map v).mono (by omega)
  | case3 fs src head rest taken _ fs' placed ih =>
    have asked := readHead_asks src
    have one := owed_place fs head
    rw [taken] at asked
    simp only [placed] at one
    exact (asked.trans ih).mono (by omega)

/-! ## Announcements -/

def Takes (a b : List Frame × Source) : Prop :=
  ∃ head, readHead a.2 = (.ok head, b.2) ∧ place a.1 head = .inr b.1

/-- In reading a value a head is come to, at any depth, and the rest stands behind it. -/
def Announces (src : Source) (head : Head) (rest : Source) : Prop :=
  ∃ fs mid, Relation.ReflTransGen Takes ([], src) (fs, mid) ∧ readHead mid = (.ok head, rest)

theorem resume_of_placed {fs fs' : List Frame} {src rest : Source} {head : Head}
    (taken : readHead src = (.ok head, rest)) (placed : place fs head = .inr fs') :
    resume fs src = resume fs' rest := by
  rw [resume]
  split
  · rename_i e
    rw [taken] at e
    cases e
  · rename_i e
    rw [taken] at e
    cases e
    simp only [placed]

theorem resume_of_takes {a b : List Frame × Source} (h : Relation.ReflTransGen Takes a b) :
    resume a.1 a.2 = resume b.1 b.2 := by
  induction h with
  | refl => rfl
  | tail _ step ih =>
    obtain ⟨head, taken, placed⟩ := step
    exact ih.trans (resume_of_placed taken placed)

theorem readShape_of_announces {src rest : Source} {head : Head} (h : Announces src head rest)
    (few : lineCount rest.rest < head.members) : ∃ u, (readShape src).1 = .error u := by
  obtain ⟨fs, mid, taken, read⟩ := h
  have same : readShape src = resume fs mid := resume_of_takes taken
  have owes := owed_place fs head
  cases placed : place fs head with
  | inl v =>
    -- A head that completes the value announces nothing, and no fewer lines than none are left.
    simp only [placed] at owes
    have current : owed fs ≠ 0 := Nat.succ_ne_zero _
    omega
  | inr fs' =>
    simp only [placed] at owes
    have current : owed fs ≠ 0 := Nat.succ_ne_zero _
    rw [same, resume_of_placed read placed]
    exact (resume_asks fs' rest).fault (by omega)

end Reader
end MooCore
