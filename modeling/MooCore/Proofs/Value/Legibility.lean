import MooCore.Proofs.Text.Numbers
import MooCore.Proofs.Value.Merging
import MooCore.Value.Literal
/-!
# Literal forms are read in one way

The first character of a literal form tells what kind of value it is of, and its end is found
without looking further: a text ends at the first quote that is not escaped, a composite at the
bracket that closes it, and anything else before the first character that cannot be part of a word.
So no literal form is the beginning of another one that goes on, and two values with one literal
form have the same contents.
-/

set_option autoImplicit false
namespace MooCore

open Text (integerChars digits Solid)

namespace Shape

/-! ## Values that their literal form determines -/

mutual

/-- Neither a number with a fraction nor an object without a literal form anywhere inside. -/
def definite : Shape → Bool
  | none | int _ | obj _ | err _ | str _ => true
  | float _ | anon .. | waif .. => false
  | list xs => definiteAll xs
  | map kvs => definitePairs kvs

def definiteAll : List Shape → Bool
  | [] => true
  | x :: xs => x.definite && definiteAll xs

def definitePairs : List (Shape × Shape) → Bool
  | [] => true
  | (k, v) :: kvs => k.definite && v.definite && definitePairs kvs

end

mutual

theorem same_self (s : Shape) (h : s.definite = true) : s.same s = true := by
  cases s with
  | none => rfl
  | int | obj | err | str => simp [same]
  | float | anon | waif => cases h
  | list xs => exact sameAll_self xs h
  | map kvs => exact samePairs_self kvs h

theorem sameAll_self (xs : List Shape) (h : definiteAll xs = true) : sameAll xs xs = true := by
  cases xs with
  | nil => rfl
  | cons x xs =>
    simp only [definiteAll, Bool.and_eq_true] at h
    rw [sameAll, same_self x h.1, sameAll_self xs h.2, Bool.and_true]

theorem samePairs_self (kvs : List (Shape × Shape)) (h : definitePairs kvs = true) :
    samePairs kvs kvs = true := by
  match kvs with
  | [] => rfl
  | (k, v) :: kvs =>
    simp only [definitePairs, Bool.and_eq_true] at h
    rw [samePairs, same_self k h.1.1, same_self v h.1.2, samePairs_self kvs h.2, Bool.and_true,
      Bool.and_true]

end

/-! ## Where a literal form ends -/

def closes (c : Char) : Bool := c == ',' || c == ' ' || c == '\x7d' || c == ']'

def Closed (rest : List Char) : Prop := ∀ c ∈ rest.head?, closes c = true

theorem closed_nil : Closed [] := fun _ mem => absurd mem (by simp)

def Unbroken (cs : List Char) : Prop := ∀ c ∈ cs, closes c = false

theorem Unbroken.unique {cs ds r r' : List Char} (hc : Unbroken cs) (hd : Unbroken ds)
    (hr : Closed r) (hr' : Closed r') (e : cs ++ r = ds ++ r') : cs = ds ∧ r = r' := by
  induction cs generalizing ds with
  | nil =>
    cases ds with
    | nil => exact ⟨rfl, e⟩
    | cons d ds =>
      have closing := hr d (by rw [show r = d :: (ds ++ r') from e]; rfl)
      rw [hd d List.mem_cons_self] at closing
      cases closing
  | cons c cs ih =>
    cases ds with
    | nil =>
      have closing := hr' c (by rw [show r' = c :: (cs ++ r) from e.symm]; rfl)
      rw [hc c List.mem_cons_self] at closing
      cases closing
    | cons d ds =>
      obtain ⟨rfl, behind⟩ := List.cons.inj e
      obtain ⟨rfl, rfl⟩ := ih (fun a mem => hc a (List.mem_cons_of_mem _ mem))
        (fun a mem => hd a (List.mem_cons_of_mem _ mem)) behind
      exact ⟨rfl, rfl⟩

theorem unbroken_integerChars (i : Int) : Unbroken (integerChars i) :=
  Text.integerChars_forall (p := (closes · = false)) rfl (by decide) i

theorem unbroken_obj (o : Obj) : Unbroken o.chars := by
  rintro c (_ | ⟨_, mem⟩)
  · rfl
  · exact unbroken_integerChars _ c mem

theorem unbroken_name (e : ErrorCode) : Unbroken e.name.toList := by
  have whole : (e.name.toList.all fun c => !closes c) = true := by cases e <;> rfl
  intro c mem
  simpa using List.all_eq_true.1 whole c mem

theorem ofName?_name (e : ErrorCode) : ErrorCode.ofName? e.name.toList = some e := by
  cases e <;> decide

/-- A text ends at the first quote that is not escaped. -/
theorem escaped_unique {cs ds r r' : List Char}
    (e : cs.flatMap escape ++ '"' :: r = ds.flatMap escape ++ '"' :: r') : cs = ds ∧ r = r' := by
  induction cs generalizing ds with
  | nil =>
    cases ds with
    | nil => exact ⟨rfl, (List.cons.inj e).2⟩
    | cons d ds =>
      simp only [List.flatMap_nil, List.nil_append, List.flatMap_cons, escape] at e
      split at e
      · cases e
      · rename_i plain
        exact absurd (.inl (List.cons.inj e).1.symm) plain
  | cons c cs ih =>
    cases ds with
    | nil =>
      simp only [List.flatMap_nil, List.nil_append, List.flatMap_cons, escape] at e
      split at e
      · cases e
      · rename_i plain
        exact absurd (.inl (List.cons.inj e).1) plain
    | cons d ds =>
      have both : c = d ∧ cs.flatMap escape ++ '"' :: r = ds.flatMap escape ++ '"' :: r' := by
        simp only [List.flatMap_cons, escape] at e
        split at e <;> split at e
        · simpa using e
        · rename_i plain
          exact absurd (.inr (List.cons.inj e).1.symm) plain
        · rename_i plain _
          exact absurd (.inr (List.cons.inj e).1) plain
        · simpa using e
      obtain ⟨rfl, rfl⟩ := ih both.2
      exact ⟨by rw [both.1], rfl⟩

/-! ## The first character -/

def Begins : Shape → Char → Prop
  | none, c => c = 'N'
  | int _, c => c = '-' ∨ ∃ d < 10, c = Text.digitChar d
  | obj _, c => c = '#'
  | err _, c => c = 'E'
  | str _, c => c = '"'
  | list _, c => c = '\x7b'
  | map _, c => c = '['
  | float _, _ | anon .., _ | waif .., _ => False

theorem chars_begins {s : Shape} (h : s.definite = true) :
    ∃ c cs, s.chars = c :: cs ∧ s.Begins c := by
  cases s with
  | none | obj | str | list | map => exact ⟨_, _, rfl, rfl⟩
  | float | anon | waif => cases h
  | err e => cases e <;> exact ⟨_, _, rfl, rfl⟩
  | int n =>
    rw [chars]
    cases n.toInt with
    | negSucc k => exact ⟨_, _, rfl, .inl rfl⟩
    | ofNat k =>
      obtain ⟨d, ds, e, -, -⟩ := Text.digits_cases k
      refine ⟨d, ds, e, .inr (Text.digits_allDigits k d ?_)⟩
      rw [e]
      exact List.mem_cons_self

theorem Begins.forall {p : Char → Prop} (digit : ∀ d < 10, p (Text.digitChar d))
    (other : ∀ c ∈ ['-', 'N', '#', 'E', '"', '\x7b', '['], p c) {s : Shape} {c : Char}
    (h : s.Begins c) : p c := by
  cases s with
  | float | anon | waif => cases h
  | none | obj | err | str | list | map =>
    cases h
    exact other _ (by decide)
  | int n =>
    obtain rfl | ⟨d, lt, rfl⟩ := h
    · exact other _ (by decide)
    · exact digit d lt

theorem Begins.opens {s : Shape} {c : Char} (h : s.Begins c) : closes c = false :=
  h.forall (p := (closes · = false)) (by decide) (by simp [closes])

theorem Begins.kind {s t : Shape} {c : Char} (hs : s.Begins c) (ht : t.Begins c) :
    s.ctorIdx = t.ctorIdx := by
  have digit {c : Char} (h : c = '-' ∨ ∃ d < 10, c = Text.digitChar d) :
      c ∉ ['N', '#', 'E', '"', '\x7b', '['] := by
    obtain rfl | ⟨d, lt, rfl⟩ := h
    · decide
    · interval_cases d <;> decide
  cases s <;> cases t <;> simp only [Begins] at hs ht <;> first
    | rfl
    | (subst hs; exact absurd (digit ht) (by decide))
    | (subst ht; exact absurd (digit hs) (by decide))
    | (subst hs; cases ht)

/-! ## Items -/

def Opened (item : List Char) : Prop := ∃ c cs, item = c :: cs ∧ closes c = false

theorem chars_opened {s : Shape} (h : s.definite = true) : Opened s.chars := by
  obtain ⟨c, cs, e, begins⟩ := chars_begins h
  exact ⟨c, cs, e, begins.opens⟩

theorem charsAll_opened {xs : List Shape} (h : definiteAll xs = true) :
    ∀ item ∈ charsAll xs, Opened item := by
  induction xs with
  | nil => exact fun _ mem => absurd mem List.not_mem_nil
  | cons x xs ih =>
    simp only [definiteAll, Bool.and_eq_true] at h
    rintro item (_ | ⟨_, mem⟩)
    · exact chars_opened h.1
    · exact ih h.2 item mem

theorem charsPairs_opened {kvs : List (Shape × Shape)} (h : definitePairs kvs = true) :
    ∀ item ∈ charsPairs kvs, Opened item := by
  induction kvs with
  | nil => exact fun _ mem => absurd mem List.not_mem_nil
  | cons kv kvs ih =>
    simp only [definitePairs, Bool.and_eq_true] at h
    rintro item (_ | ⟨_, mem⟩)
    · obtain ⟨c, cs, e, opens⟩ := chars_opened h.1.1
      exact ⟨c, _, by rw [e]; rfl, opens⟩
    · exact ih h.2 item mem

def continued (items : List (List Char)) : List Char :=
  items.flatMap fun item => ',' :: ' ' :: item

theorem commaSeparated_cons (x : List Char) (xs : List (List Char)) :
    commaSeparated (x :: xs) = x ++ continued xs := by
  induction xs generalizing x with
  | nil => simp [commaSeparated, continued]
  | cons y ys ih => simp [commaSeparated, ih y, continued]

theorem continued_cons (x : List Char) (xs : List (List Char)) :
    continued (x :: xs) = ',' :: ' ' :: x ++ continued xs :=
  List.flatMap_cons

theorem continued_of_enclosed {items items' : List (List Char)} {close : Char} {r r' : List Char}
    (hc : closes close = true) (h : ∀ item ∈ items, Opened item)
    (h' : ∀ item ∈ items', Opened item)
    (e : commaSeparated items ++ close :: r = commaSeparated items' ++ close :: r') :
    continued items ++ close :: r = continued items' ++ close :: r' := by
  cases items with
  | nil =>
    cases items' with
    | nil => exact e
    | cons item' items' =>
      obtain ⟨c, cs, rfl, opens⟩ := h' item' List.mem_cons_self
      rw [commaSeparated_cons] at e
      cases e
      rw [opens] at hc
      cases hc
  | cons item items =>
    cases items' with
    | nil =>
      obtain ⟨c, cs, rfl, opens⟩ := h item List.mem_cons_self
      rw [commaSeparated_cons] at e
      cases e
      rw [opens] at hc
      cases hc
    | cons item' items' =>
      rw [commaSeparated_cons, commaSeparated_cons] at e
      simpa [continued_cons] using e

theorem closed_continued (items : List (List Char)) {close : Char} (h : closes close = true)
    (r : List Char) : Closed (continued items ++ close :: r) := by
  rintro c mem
  cases items with
  | nil =>
    cases mem
    exact h
  | cons item items =>
    cases mem
    rfl

theorem closed_arrow (r : List Char) : Closed (" -> ".toList ++ r) := by
  rintro c ⟨⟩
  rfl

mutual

/-- A literal form is followed by only one thing, and only one value has it. -/
theorem chars_unique (s t : Shape) (hs : s.definite = true) (ht : t.definite = true)
    {r r' : List Char} (hr : Closed r) (hr' : Closed r') (e : s.chars ++ r = t.chars ++ r') :
    s = t ∧ r = r' := by
  have kind : s.ctorIdx = t.ctorIdx := by
    obtain ⟨c, cs, es, begins⟩ := chars_begins hs
    obtain ⟨d, ds, et, begins'⟩ := chars_begins ht
    rw [es, et] at e
    cases (List.cons.inj e).1
    exact begins.kind begins'
  cases s with
  | float | anon | waif => cases hs
  | none =>
    cases t with
    | none => exact ⟨rfl, List.append_cancel_left e⟩
    | _ => cases kind
  | int m =>
    cases t with
    | int n =>
      obtain ⟨word, rfl⟩ := (unbroken_integerChars _).unique (unbroken_integerChars _) hr hr' e
      have read := Text.readInt64_integerChars m
      rw [word, Text.readInt64_integerChars] at read
      cases read
      exact ⟨rfl, rfl⟩
    | _ => cases kind
  | obj o =>
    cases t with
    | obj p =>
      obtain ⟨word, rfl⟩ := (unbroken_obj o).unique (unbroken_obj p) hr hr' e
      have read := Text.readInt64_integerChars o.number
      rw [(List.cons.inj word).2, Text.readInt64_integerChars] at read
      cases o
      cases read
      exact ⟨rfl, rfl⟩
    | _ => cases kind
  | err f =>
    cases t with
    | err g =>
      obtain ⟨word, rfl⟩ := (unbroken_name f).unique (unbroken_name g) hr hr' e
      have read := ofName?_name f
      rw [word, ofName?_name] at read
      cases read
      exact ⟨rfl, rfl⟩
    | _ => cases kind
  | str a =>
    cases t with
    | str b =>
      obtain ⟨text, rfl⟩ := escaped_unique (by simpa [chars, quote] using e)
      exact ⟨by rw [String.toList_inj.1 text], rfl⟩
    | _ => cases kind
  | list xs =>
    cases t with
    | list ys =>
      have items := continued_of_enclosed (show closes '\x7d' = true from rfl) (charsAll_opened hs)
        (charsAll_opened ht) (by simpa [chars] using e)
      obtain ⟨rfl, rfl⟩ := all_unique xs ys hs ht items
      exact ⟨rfl, rfl⟩
    | _ => cases kind
  | map kvs =>
    cases t with
    | map lws =>
      have items := continued_of_enclosed (show closes ']' = true from rfl) (charsPairs_opened hs)
        (charsPairs_opened ht) (by simpa [chars] using e)
      obtain ⟨rfl, rfl⟩ := pairs_unique kvs lws hs ht items
      exact ⟨rfl, rfl⟩
    | _ => cases kind

theorem all_unique (xs ys : List Shape) (hx : definiteAll xs = true) (hy : definiteAll ys = true)
    {r r' : List Char}
    (e : continued (charsAll xs) ++ '\x7d' :: r = continued (charsAll ys) ++ '\x7d' :: r') :
    xs = ys ∧ r = r' := by
  cases xs with
  | nil =>
    cases ys with
    | nil => exact ⟨rfl, (List.cons.inj e).2⟩
    | cons y ys => cases e
  | cons x xs =>
    cases ys with
    | nil => cases e
    | cons y ys =>
      simp only [definiteAll, Bool.and_eq_true] at hx hy
      simp only [charsAll, continued_cons, List.cons_append, List.append_assoc, List.cons.injEq,
        true_and] at e
      obtain ⟨rfl, rest⟩ := chars_unique x y hx.1 hy.1 (closed_continued _ rfl r)
        (closed_continued _ rfl r') e
      obtain ⟨rfl, rfl⟩ := all_unique xs ys hx.2 hy.2 rest
      exact ⟨rfl, rfl⟩

theorem pairs_unique (kvs lws : List (Shape × Shape)) (hk : definitePairs kvs = true)
    (hl : definitePairs lws = true) {r r' : List Char}
    (e : continued (charsPairs kvs) ++ ']' :: r = continued (charsPairs lws) ++ ']' :: r') :
    kvs = lws ∧ r = r' := by
  match kvs, lws with
  | [], [] => exact ⟨rfl, (List.cons.inj e).2⟩
  | [], (l, w) :: lws => cases e
  | (k, v) :: kvs, [] => cases e
  | (k, v) :: kvs, (l, w) :: lws =>
    simp only [definitePairs, Bool.and_eq_true] at hk hl
    simp only [charsPairs, continued_cons, List.cons_append, List.append_assoc, List.cons.injEq,
      true_and] at e
    obtain ⟨rfl, arrow⟩ := chars_unique k l hk.1.1 hl.1.1 (closed_arrow _) (closed_arrow _) e
    obtain ⟨rfl, rest⟩ := chars_unique v w hk.1.2 hl.1.2 (closed_continued _ rfl r)
      (closed_continued _ rfl r') (List.append_cancel_left arrow)
    obtain ⟨rfl, rfl⟩ := pairs_unique kvs lws hk.2 hl.2 rest
    exact ⟨rfl, rfl⟩

end

theorem literal_inj {s t : Shape} (hs : s.definite = true) (ht : t.definite = true)
    (e : s.literal = t.literal) : s = t := by
  have chars : s.chars = t.chars := String.ofList_inj.1 e
  exact (chars_unique s t hs ht closed_nil closed_nil
    (congrArg (· ++ []) chars)).1

end Shape

theorem Value.equal_of_shape {v w : Value} (definite : v.shape.definite = true)
    (same : v.shape = w.shape) : v.equal w = true := by
  refine Value.equal_of_same v w ?_
  rw [← same]
  exact Shape.same_self _ definite

end MooCore
