import MooCore.Proofs.Text.Numbers
import MooCore.Binary64.Reader
/-!
# Floating point numbers that were written

A written magnitude is read as the decimal it shows: digits, perhaps a point and more digits, and
perhaps an exponent.
-/

set_option autoImplicit false
namespace MooCore.Binary64

open Text (AllDigits Solid digitChar digits digit? integerChars)

def valueOn (acc : Nat) (ds : List Char) : Nat :=
  ds.foldl (fun n c => n * 10 + (digit? c).getD 0) acc

theorem valueOn_append (acc : Nat) (ds es : List Char) :
    valueOn acc (ds ++ es) = valueOn (valueOn acc ds) es := List.foldl_append

theorem valueOn_digits (n : Nat) : valueOn 0 (digits n) = n := by
  induction n using Nat.strongRecOn with
  | ind n ih =>
    rw [digits]
    split
    · rename_i lt
      simp [valueOn, Text.digit?_digitChar lt]
    · rename_i big
      rw [valueOn_append, ih (n / 10) (by omega)]
      simp only [valueOn, List.foldl_cons, List.foldl_nil,
        Text.digit?_digitChar (Nat.mod_lt n (by decide : 10 > 0)), Option.getD_some]
      omega

theorem valueOn_zeros (acc n : Nat) : valueOn acc (zeros n) = acc * 10 ^ n := by
  induction n generalizing acc with
  | zero => simp [valueOn, zeros]
  | succ n ih =>
    have step : valueOn acc (zeros (n + 1)) = valueOn (acc * 10) (zeros n) := rfl
    rw [step, ih, Nat.pow_succ, Nat.mul_assoc, Nat.mul_comm 10]

/-- What may follow digits without being taken for one of them or for a point. -/
def tail : Option Int → List Char
  | none => []
  | some i => 'e' :: integerChars i

theorem tail_head {t : Option Int} {c : Char} {rest : List Char} (e : tail t = c :: rest) :
    c = 'e' := by
  cases t with
  | none => cases e
  | some i =>
    cases e
    rfl

theorem tail_solid (t : Option Int) : Solid (tail t) := by
  cases t with
  | none => simp [tail, Solid]
  | some i => exact Solid.cons rfl (Text.integerChars_solid i)

theorem takeDigits_append {ds : List Char} (hd : AllDigits ds) (rest : List Char)
    (stop : ∀ c cs, rest = c :: cs → digit? c = none) (acc count : Nat) :
    takeDigits acc count (ds ++ rest) = (valueOn acc ds, count + ds.length, rest) := by
  induction ds generalizing acc count with
  | nil =>
    cases rest with
    | nil => rfl
    | cons c cs => simp [takeDigits, stop c cs rfl, valueOn]
  | cons c ds ih =>
    obtain ⟨d, lt, rfl⟩ := hd c List.mem_cons_self
    have taken := ih (fun x mem => hd x (List.mem_cons_of_mem _ mem)) (acc * 10 + d) (count + 1)
    simp only [List.cons_append, takeDigits, Text.digit?_digitChar lt, taken, List.length_cons,
      valueOn, List.foldl_cons, Option.getD_some]
    rw [Nat.add_right_comm, Nat.add_assoc]

theorem takeSign_none {c : Char} {cs : List Char} (minus : c ≠ '-') (plus : c ≠ '+') :
    takeSign (c :: cs) = (false, c :: cs) := by
  unfold takeSign
  split
  · rename_i same
    cases same
    exact absurd rfl minus
  · rename_i same
    cases same
    exact absurd rfl plus
  · rfl

theorem readExponent_tail (t : Option Int) : readExponent (tail t) = some (t.getD 0) := by
  have whole : ∀ n : Nat, takeDigits 0 0 (digits n) = (n, (digits n).length, []) := by
    intro n
    have taken := takeDigits_append (Text.digits_allDigits n) [] (by simp) 0 0
    rwa [List.append_nil, Nat.zero_add, valueOn_digits] at taken
  have some_digit : ∀ n, (digits n).length ≠ 0 := by
    intro n zero
    exact Text.digits_ne_nil n (List.length_eq_zero_iff.1 zero)
  rcases t with _ | n | n
  · rfl
  · obtain ⟨d, cs, e, minus, plus⟩ := Text.digits_cases n
    have sign : takeSign (digits n) = (false, digits n) := by
      rw [e, takeSign_none minus plus]
    simp [tail, integerChars, readExponent, sign, whole, some_digit n]
  · simp [tail, integerChars, readExponent, takeSign, whole, some_digit (n + 1)]
    omega

theorem readDecimal_whole {ds : List Char} (hd : AllDigits ds) (some_digit : ds ≠ [])
    (t : Option Int) :
    readDecimal (ds ++ tail t) = some { mantissa := valueOn 0 ds, exponent := t.getD 0 } := by
  have taken := takeDigits_append hd (tail t) (fun c cs e => by rw [tail_head e]; rfl) 0 0
  have exponent := readExponent_tail t
  have count : ds.length ≠ 0 := fun zero => some_digit (List.length_eq_zero_iff.1 zero)
  generalize ds ++ tail t = text at taken ⊢
  cases t <;> simp [readDecimal, taken, count, tail] <;> exact exponent

theorem readDecimal_fraction {ds fs : List Char} (hd : AllDigits ds) (some_digit : ds ≠ [])
    (hf : AllDigits fs) (t : Option Int) :
    readDecimal (ds ++ '.' :: (fs ++ tail t)) =
      some { mantissa := valueOn 0 (ds ++ fs), exponent := t.getD 0 - fs.length } := by
  have taken := takeDigits_append hd ('.' :: (fs ++ tail t)) (fun c cs e => by cases e; rfl) 0 0
  have more := takeDigits_append hf (tail t) (fun c cs e => by rw [tail_head e]; rfl)
    (valueOn 0 ds) 0
  have exponent := readExponent_tail t
  have count : ds.length ≠ 0 := fun zero => some_digit (List.length_eq_zero_iff.1 zero)
  simp [readDecimal, taken, more, count, exponent, valueOn_append]

/-! ## The written forms -/

/-- What a decimal stands for. -/
def Decimal.value (d : Decimal) : ℚ := d.mantissa * (10 : ℚ) ^ d.exponent

def Writes (cs : List Char) (d : Decimal) : Prop :=
  ∃ ds t, AllDigits ds ∧ ds ≠ [] ∧
    (cs = ds ++ tail t ∧ d = { mantissa := valueOn 0 ds, exponent := t.getD 0 } ∨
      ∃ fs, AllDigits fs ∧ cs = ds ++ '.' :: (fs ++ tail t) ∧
        d = { mantissa := valueOn 0 (ds ++ fs), exponent := t.getD 0 - fs.length })

variable {cs ds : List Char} {d : Decimal}

theorem Writes.solid (h : Writes cs d) : Solid cs := by
  obtain ⟨ds, t, hd, -, ⟨rfl, -⟩ | ⟨fs, hf, rfl, -⟩⟩ := h
  · exact hd.solid.append (tail_solid t)
  · exact hd.solid.append (Solid.cons rfl (hf.solid.append (tail_solid t)))

theorem Writes.read (h : Writes cs d) : readDecimal cs = some d := by
  obtain ⟨ds, t, hd, some_digit, ⟨rfl, rfl⟩ | ⟨fs, hf, rfl, rfl⟩⟩ := h
  · exact readDecimal_whole hd some_digit t
  · exact readDecimal_fraction hd some_digit hf t

theorem Writes.head (h : Writes cs d) : ∃ k < 10, ∃ rest, cs = digitChar k :: rest := by
  obtain ⟨ds, t, hd, some_digit, form⟩ := h
  cases ds with
  | nil => exact absurd rfl some_digit
  | cons c ds =>
    obtain ⟨k, lt, rfl⟩ := hd c List.mem_cons_self
    rcases form with ⟨rfl, -⟩ | ⟨fs, -, rfl, -⟩ <;> exact ⟨k, lt, _, rfl⟩

theorem zeros_allDigits (n : Nat) : AllDigits (zeros n) := by
  intro c mem
  exact ⟨0, by decide, List.eq_of_mem_replicate mem⟩

theorem allDigits_zero : AllDigits ['0'] := fun _ mem => ⟨0, by decide, List.mem_singleton.1 mem⟩

theorem positional_writes (hd : AllDigits ds) (some_digit : ds ≠ []) (e : Int) :
    ∃ d, Writes (positional ds e) d ∧ d.value = valueOn 0 ds * (10 : ℚ) ^ e := by
  unfold positional
  split
  · rename_i whole
    refine ⟨_, ⟨ds ++ zeros e.toNat, none, hd.append (zeros_allDigits _), by simp [some_digit],
      Or.inr ⟨['0'], allDigits_zero, by simp [tail], rfl⟩⟩, ?_⟩
    have last : valueOn 0 (ds ++ zeros e.toNat ++ ['0']) = valueOn 0 ds * 10 ^ e.toNat * 10 := by
      rw [valueOn_append, valueOn_append, valueOn_zeros]
      rfl
    have power : (10 : ℚ) ^ e = 10 ^ e.toNat := by
      rw [← zpow_natCast, Int.toNat_of_nonneg whole]
    rw [Decimal.value, last, power]
    push_cast
    simp
  · rename_i negative
    dsimp only
    split
    · rename_i lt
      have length : (ds.drop (ds.length - (-e).toNat)).length = (-e).toNat := by
        rw [List.length_drop]
        omega
      refine ⟨_, ⟨ds.take (ds.length - (-e).toNat), none,
        fun c mem => hd c (List.mem_of_mem_take mem), ?_,
        Or.inr ⟨ds.drop (ds.length - (-e).toNat), fun c mem => hd c (List.mem_of_mem_drop mem),
          by simp [tail], rfl⟩⟩, ?_⟩
      · intro nil
        have length := congrArg List.length nil
        rw [List.length_take, List.length_nil] at length
        omega
      · have exponent : (0 : Int) - (-e).toNat = e := by omega
        rw [Decimal.value, List.take_append_drop, length]
        simp only [Option.getD_none, exponent]
    · rename_i ge
      have length : ((zeros ((-e).toNat - ds.length) ++ ds).length : Int) = -e := by
        simp only [zeros, List.length_append, List.length_replicate]
        omega
      have value : valueOn 0 (['0'] ++ (zeros ((-e).toNat - ds.length) ++ ds)) = valueOn 0 ds := by
        have first : valueOn 0 ['0'] = 0 := rfl
        rw [valueOn_append, valueOn_append, first, valueOn_zeros, Nat.zero_mul]
      refine ⟨_, ⟨['0'], none, allDigits_zero, by simp,
        Or.inr ⟨zeros ((-e).toNat - ds.length) ++ ds, (zeros_allDigits _).append hd,
          by simp [tail], rfl⟩⟩, ?_⟩
      rw [Decimal.value, value, length]
      simp

theorem scientific_writes (hd : AllDigits ds) (some_digit : ds ≠ []) (e : Int) :
    ∃ d, Writes (scientific ds e) d ∧ d.value = valueOn 0 ds * (10 : ℚ) ^ e := by
  have first : ∀ c rest, ds = c :: rest → AllDigits [c] := by
    rintro c rest rfl x mem
    rw [List.mem_singleton.1 mem]
    exact hd c List.mem_cons_self
  unfold scientific
  dsimp only
  split
  · exact absurd rfl some_digit
  · rename_i c
    refine ⟨_, ⟨[c], some (e + (0 : Nat)), first c [] rfl, by simp, Or.inl ⟨rfl, rfl⟩⟩, ?_⟩
    rw [Decimal.value]
    simp
  · rename_i c rest _
    refine ⟨_, ⟨[c], some (e + (rest.length : Nat)), first c rest rfl, by simp,
      Or.inr ⟨rest, fun c mem => hd c (List.mem_cons_of_mem _ mem), by simp [tail], rfl⟩⟩, ?_⟩
    rw [Decimal.value]
    simp

theorem unsignedChars_writes {x : Binary64} (nonzero : x.isZero ≠ true) :
    ∃ d, Writes x.unsignedChars d ∧ d.value = x.shortest.1 * (10 : ℚ) ^ x.shortest.2 := by
  rw [unsignedChars, if_neg nonzero]
  dsimp only
  have hd := Text.digits_allDigits x.shortest.1
  have some_digit := Text.digits_ne_nil x.shortest.1
  have value := valueOn_digits x.shortest.1
  split
  · simpa only [value] using positional_writes hd some_digit x.shortest.2
  · simpa only [value] using scientific_writes hd some_digit x.shortest.2

theorem writes_zero : Writes ['0', '.', '0'] { mantissa := 0, exponent := -1 } :=
  ⟨['0'], none, allDigits_zero, by simp, Or.inr ⟨['0'], allDigits_zero, rfl, rfl⟩⟩

theorem Writes.readUnsigned (h : Writes cs d) (neg : Bool) :
    readUnsigned neg cs = some (ofDecimal neg d) := by
  have read := h.read
  obtain ⟨k, lt, rest, rfl⟩ := h.head
  have word : lower (digitChar k) ≠ 'i' ∧ lower (digitChar k) ≠ 'n' := by
    interval_cases k <;> decide
  simp [Binary64.readUnsigned, word, read]

theorem read_signed {c : Char} {y : Binary64} (minus : c ≠ '-') (plus : c ≠ '+') {neg : Bool}
    (h : Binary64.readUnsigned neg (c :: cs) = some y) :
    read (if neg = true then '-' :: c :: cs else c :: cs) = .ok y := by
  cases neg with
  | true => simp only [if_true, read, takeSign, h]
  | false =>
    simp only [Bool.false_eq_true, if_false, read, takeSign_none minus plus, h]

theorem Writes.read_signed (h : Writes cs d) (neg : Bool) :
    Binary64.read (if neg = true then '-' :: cs else cs) = .ok (ofDecimal neg d) := by
  have unsigned := h.readUnsigned neg
  obtain ⟨k, lt, rest, rfl⟩ := h.head
  exact Binary64.read_signed (Text.digitChar_ne lt rfl) (Text.digitChar_ne lt rfl) unsigned

end MooCore.Binary64
