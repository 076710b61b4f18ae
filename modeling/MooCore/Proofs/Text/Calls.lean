import MooCore.Proofs.Text.Lines
/-!
# Asking for lines

A source has as many lines as it can give. Whoever asks for one line after the other, and stops
when none is given, asks at most once more often than there are lines.
-/

set_option autoImplicit false
namespace MooCore.Text

/-- The lines in some bytes: one for each line feed, and one more for what stands behind the last. -/
def lineCount (bs : List UInt8) : Nat :=
  bs.count 10 + if bs = [] ∨ bs.getLast? = some 10 then 0 else 1

theorem lineCount_nil : lineCount [] = 0 := rfl

theorem lineCount_newline (bs : List UInt8) : lineCount (10 :: bs) = lineCount bs + 1 := by
  cases bs with
  | nil => rfl
  | cons b bs =>
    simp only [lineCount, List.count_cons_self, List.getLast?_cons_cons, reduceCtorEq, false_or]
    omega

theorem lineCount_singleton {b : UInt8} (h : b ≠ 10) : lineCount [b] = 1 := by
  simp [lineCount, h]

theorem lineCount_cons {b : UInt8} (h : b ≠ 10) (c : UInt8) (bs : List UInt8) :
    lineCount (b :: c :: bs) = lineCount (c :: bs) := by
  simp only [lineCount, List.count_cons_of_ne h, List.getLast?_cons_cons, reduceCtorEq, false_or]

namespace Source

theorem lineCount_splitLine (b : UInt8) (bs : List UInt8) :
    lineCount (splitLine (b :: bs)).2 + 1 = lineCount (b :: bs) := by
  induction bs generalizing b with
  | nil =>
    by_cases h : b = 10
    · subst h
      rfl
    · simp [splitLine, h, lineCount_singleton, lineCount_nil]
  | cons c bs ih =>
    by_cases h : b = 10
    · subst h
      simp [splitLine, lineCount_newline]
    · have other : (splitLine (b :: c :: bs)).2 = (splitLine (c :: bs)).2 := by
        simp [splitLine, h]
      rw [other, ih, lineCount_cons h]

theorem lineCount_readLine {src rest : Source} {s : String} (h : src.readLine = (.ok s, rest)) :
    lineCount rest.rest + 1 = lineCount src.rest := by
  unfold readLine at h
  cases e : src.rest with
  | nil =>
    rw [e] at h
    cases h
  | cons b bs =>
    simp only [e] at h
    split at h
    · cases h
    · cases h
      exact lineCount_splitLine b bs

/-- Calls for a line, one after the other, that were all answered with one. -/
inductive Lines : Source → Nat → Source → Prop
  | nil (src : Source) : Lines src 0 src
  | cons {src mid rest : Source} {s : String} {k : Nat} (line : src.readLine = (.ok s, mid))
      (others : Lines mid k rest) : Lines src (k + 1) rest

/-- Calls for a line, one after the other; the last one may have been answered with a fault. -/
inductive Calls : Source → Nat → Source → Prop
  | given {src rest : Source} {k : Nat} (lines : Lines src k rest) : Calls src k rest
  | refused {src mid rest : Source} {k : Nat} {f : LineFault} (lines : Lines src k mid)
      (fault : mid.readLine = (.error f, rest)) : Calls src (k + 1) rest

theorem Lines.append {src mid rest : Source} {k m : Nat} (first : Lines src k mid)
    (others : Lines mid m rest) : Lines src (k + m) rest := by
  induction first with
  | nil src => rwa [Nat.zero_add]
  | cons line _ ih =>
    rw [Nat.add_right_comm]
    exact .cons line (ih others)

theorem Lines.calls {src mid rest : Source} {k m : Nat} (first : Lines src k mid)
    (others : Calls mid m rest) : Calls src (k + m) rest := by
  cases others with
  | given lines => exact .given (first.append lines)
  | refused lines fault => exact .refused (first.append lines) fault

theorem Lines.lineCount_eq {src rest : Source} {k : Nat} (h : Lines src k rest) :
    lineCount rest.rest + k = lineCount src.rest := by
  induction h with
  | nil src => rfl
  | cons line _ ih =>
    have one := lineCount_readLine line
    omega

theorem Calls.le {src rest : Source} {k : Nat} (h : Calls src k rest) :
    k ≤ lineCount src.rest + 1 := by
  cases h with
  | given lines =>
    have eq := lines.lineCount_eq
    omega
  | refused lines fault =>
    have eq := lines.lineCount_eq
    omega

end Source

/-- What came of reading from a source: where the source is now, lines were asked for one after the
other until one was refused or no more were wanted; and success took at least `m` of them. -/
def Asked {α ε : Type} (m : Nat) (src : Source) (result : Except ε α) (rest : Source) : Prop :=
  ∃ k, src.Calls k rest ∧ ∀ a, result = .ok a → src.Lines k rest ∧ m ≤ k

namespace Asked

variable {α β ε ε' : Type} {m n : Nat} {src mid rest : Source}

theorem ok (a : α) : Asked 0 src (.ok a : Except ε α) src :=
  ⟨0, .given (.nil src), fun _ _ => ⟨.nil src, Nat.le_refl 0⟩⟩

theorem error (e : ε) : Asked m src (.error e : Except ε α) src :=
  ⟨0, .given (.nil src), fun _ h => by cases h⟩

theorem trans {a : α} {result : Except ε' β} (first : Asked m src (.ok a : Except ε α) mid)
    (second : Asked n mid result rest) : Asked (m + n) src result rest := by
  obtain ⟨k, -, first⟩ := first
  obtain ⟨lines, least⟩ := first a rfl
  obtain ⟨l, calls, second⟩ := second
  refine ⟨k + l, lines.calls calls, fun b eq => ?_⟩
  obtain ⟨others, more⟩ := second b eq
  exact ⟨lines.append others, by omega⟩

theorem fails {e : ε} (h : Asked m src (.error e : Except ε α) rest) (e' : ε') :
    Asked n src (.error e' : Except ε' β) rest := by
  obtain ⟨k, calls, -⟩ := h
  exact ⟨k, calls, fun _ eq => by cases eq⟩

theorem reject {a : α} (h : Asked m src (.ok a : Except ε α) rest) (e : ε') :
    Asked n src (.error e : Except ε' β) rest := by
  obtain ⟨k, calls, -⟩ := h
  exact ⟨k, calls, fun _ eq => by cases eq⟩

theorem mono {result : Except ε α} (h : Asked n src result rest) (le : m ≤ n) :
    Asked m src result rest := by
  obtain ⟨k, calls, success⟩ := h
  refine ⟨k, calls, fun a eq => ?_⟩
  obtain ⟨lines, least⟩ := success a eq
  exact ⟨lines, by omega⟩

theorem map {a : α} (h : Asked m src (.ok a : Except ε α) rest) (b : β) :
    Asked m src (.ok b : Except ε' β) rest :=
  h.trans (ok b)

theorem lineCount_le {a : α} (h : Asked m src (.ok a : Except ε α) rest) :
    lineCount rest.rest + m ≤ lineCount src.rest := by
  obtain ⟨k, -, success⟩ := h
  obtain ⟨lines, least⟩ := success a rfl
  have eq := lines.lineCount_eq
  omega

theorem fault {result : Except ε α} (h : Asked m src result rest)
    (few : lineCount src.rest < m) : ∃ e, result = .error e := by
  cases result with
  | error e => exact ⟨e, rfl⟩
  | ok a =>
    have enough := h.lineCount_le
    omega

end Asked

end MooCore.Text
