import MooCore.Proofs.Text.Lines
import MooCore.Text.Blank
/-!
# Numbers that were written

Decimal digits read back as the number they were written for, within any bound that the number
keeps. Written numbers have no blanks, so neither trimming nor the end of a line changes them.
-/

set_option autoImplicit false
namespace MooCore.Text

/-! ## Texts without blanks -/

def Solid (cs : List Char) : Prop := ∀ c ∈ cs, isBlank c = false

theorem Solid.append {cs ds : List Char} (hc : Solid cs) (hd : Solid ds) : Solid (cs ++ ds) := by
  intro c mem
  rcases List.mem_append.1 mem with mem | mem
  · exact hc c mem
  · exact hd c mem

theorem Solid.cons {c : Char} {cs : List Char} (hc : isBlank c = false) (hcs : Solid cs) :
    Solid (c :: cs) := by
  intro d mem
  rcases List.mem_cons.1 mem with rfl | mem
  · exact hc
  · exact hcs d mem

theorem Solid.newline {cs : List Char} (h : Solid cs) : '\n' ∉ cs :=
  fun mem => Bool.false_ne_true (h _ mem).symm

theorem Solid.dropReturn_eq {cs : List Char} (h : Solid cs) : dropReturn cs = cs := by
  unfold dropReturn
  split
  · rename_i front e
    have mem : '\r' ∈ cs := by
      rw [← List.mem_reverse, e]
      exact List.mem_cons_self
    exact absurd (h _ mem) (by decide)
  · rfl

theorem Solid.dropWhile_eq {cs : List Char} (h : Solid cs) : cs.dropWhile isBlank = cs := by
  cases cs with
  | nil => rfl
  | cons c cs => simp [h c List.mem_cons_self]

theorem Solid.trimBlanks_eq {cs : List Char} (h : Solid cs) : trimBlanks cs = cs := by
  have back : Solid cs.reverse := fun c mem => h c (List.mem_reverse.1 mem)
  rw [trimBlanks, h.dropWhile_eq, back.dropWhile_eq, List.reverse_reverse]

/-! ## Digits -/

def AllDigits (cs : List Char) : Prop := ∀ c ∈ cs, ∃ d < 10, c = digitChar d

theorem digit?_digitChar {d : Nat} (h : d < 10) : digit? (digitChar d) = some d := by
  interval_cases d <;> rfl

theorem isBlank_digitChar {d : Nat} (h : d < 10) : isBlank (digitChar d) = false := by
  interval_cases d <;> rfl

theorem digitChar_ne {d : Nat} (h : d < 10) {c : Char} (hc : digit? c = none) :
    digitChar d ≠ c := by
  rintro rfl
  rw [digit?_digitChar h] at hc
  cases hc

theorem AllDigits.append {cs ds : List Char} (hc : AllDigits cs) (hd : AllDigits ds) :
    AllDigits (cs ++ ds) := by
  intro c mem
  rcases List.mem_append.1 mem with mem | mem
  · exact hc c mem
  · exact hd c mem

theorem AllDigits.solid {cs : List Char} (h : AllDigits cs) : Solid cs := by
  intro c mem
  obtain ⟨d, lt, rfl⟩ := h c mem
  exact isBlank_digitChar lt

theorem digits_allDigits (n : Nat) : AllDigits (digits n) := by
  induction n using Nat.strongRecOn with
  | ind n ih =>
    rw [digits]
    split
    · rename_i lt
      exact fun c mem => ⟨n, lt, List.mem_singleton.1 mem⟩
    · rename_i big
      refine (ih (n / 10) (by omega)).append fun c mem => ?_
      exact ⟨n % 10, Nat.mod_lt _ (by decide), List.mem_singleton.1 mem⟩

theorem digits_ne_nil (n : Nat) : digits n ≠ [] := by
  rw [digits]
  split <;> simp

theorem readDigits_append {limit : Nat} {tooBig : IntegerFault} {acc mid : Nat}
    {cs : List Char} (ds : List Char) (h : readDigits limit tooBig acc cs = .ok mid) :
    readDigits limit tooBig acc (cs ++ ds) = readDigits limit tooBig mid ds := by
  induction cs generalizing acc with
  | nil =>
    cases h
    rfl
  | cons c cs ih =>
    simp only [List.cons_append, readDigits] at h ⊢
    cases hc : digit? c with
    | none =>
      rw [hc] at h
      cases h
    | some d =>
      rw [hc] at h
      simp only at h ⊢
      split at h
      · rename_i le
        rw [if_pos le]
        exact ih h
      · cases h

theorem readDigits_digits {limit : Nat} (tooBig : IntegerFault) {n : Nat} (h : n ≤ limit) :
    readDigits limit tooBig 0 (digits n) = .ok n := by
  induction n using Nat.strongRecOn with
  | ind n ih =>
    rw [digits]
    split
    · rename_i lt
      simp [readDigits, digit?_digitChar lt, h]
    · rename_i big
      have front := ih (n / 10) (by omega) (by omega)
      have whole : n / 10 * 10 + n % 10 = n := by omega
      rw [readDigits_append _ front]
      simp [readDigits, digit?_digitChar (Nat.mod_lt n (by decide : 10 > 0)), whole, h]

theorem readMagnitude_digits {limit : Nat} (tooBig : IntegerFault) {n : Nat} (h : n ≤ limit) :
    readMagnitude limit tooBig (digits n) = .ok n := by
  have read := readDigits_digits tooBig h
  unfold readMagnitude
  split
  · rename_i e
    exact absurd e (digits_ne_nil n)
  · exact read

theorem digits_cases (n : Nat) : ∃ d cs, digits n = d :: cs ∧ d ≠ '-' ∧ d ≠ '+' := by
  cases e : digits n with
  | nil => exact absurd e (digits_ne_nil n)
  | cons d cs =>
    obtain ⟨k, lt, rfl⟩ := digits_allDigits n d (by rw [e]; exact List.mem_cons_self)
    exact ⟨_, cs, rfl, digitChar_ne lt rfl, digitChar_ne lt rfl⟩

theorem readNat_digits {limit n : Nat} (h : n ≤ limit) : readNat limit (digits n) = .ok n := by
  have read := readMagnitude_digits .tooLarge h
  obtain ⟨d, cs, e, -, plus⟩ := digits_cases n
  rw [e] at read ⊢
  unfold readNat
  split
  · contradiction
  · rename_i same
    cases same
    exact absurd rfl plus
  · exact read

/-! ## Integers -/

theorem integerChars_forall {p : Char → Prop} (minus : p '-')
    (digit : ∀ d < 10, p (digitChar d)) (i : Int) : ∀ c ∈ integerChars i, p c := by
  have all (n : Nat) : ∀ c ∈ digits n, p c := by
    intro c mem
    obtain ⟨d, lt, rfl⟩ := digits_allDigits n c mem
    exact digit d lt
  cases i with
  | ofNat n => exact all n
  | negSucc n =>
    rintro c (_ | ⟨_, mem⟩)
    · exact minus
    · exact all (n + 1) c mem

theorem integerChars_solid (i : Int) : Solid (integerChars i) := by
  cases i with
  | ofNat n => exact (digits_allDigits n).solid
  | negSucc n => exact Solid.cons rfl (digits_allDigits (n + 1)).solid

theorem readInt64_integerChars (n : Int64) : readInt64 (integerChars n.toInt) = .ok n := by
  have low := n.le_toInt
  have high := n.toInt_lt
  cases e : n.toInt with
  | ofNat k =>
    have read : readMagnitude 0x7fffffffffffffff .tooLarge (digits k) = .ok k := by
      refine readMagnitude_digits _ ?_
      rw [e] at high
      simp only [Int.ofNat_eq_natCast] at high
      omega
    have back : Int64.ofInt (k : Int) = n := by
      have := Int64.ofInt_toInt n
      rwa [e] at this
    obtain ⟨d, cs, ds, minus, plus⟩ := digits_cases k
    simp only [integerChars]
    rw [ds] at read ⊢
    unfold readInt64
    split
    · contradiction
    · rename_i same
      cases same
      exact absurd rfl minus
    · rename_i same
      cases same
      exact absurd rfl plus
    · rw [read]
      change Except.ok (Int64.ofInt (k : Int)) = _
      rw [back]
  | negSucc k =>
    have read : readMagnitude 0x8000000000000000 .tooSmall (digits (k + 1)) = .ok (k + 1) := by
      refine readMagnitude_digits _ ?_
      rw [e] at low
      omega
    have back : Int64.ofInt (-((k + 1 : Nat) : Int)) = n := by
      have := Int64.ofInt_toInt n
      rwa [e] at this
    simp only [integerChars, readInt64]
    rw [read]
    change Except.ok (Int64.ofInt (-((k + 1 : Nat) : Int))) = _
    rw [back]

end MooCore.Text
