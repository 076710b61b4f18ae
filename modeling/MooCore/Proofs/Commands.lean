import MooCore.Builtin.Task
import MooCore.Proofs.Value.Legibility
/-!
# Commands read back what was shown

A line that is put together from the name of a built-in function and the literal forms of integers,
objects, errors and texts is read as the call of that function with those arguments: in parentheses
with commas, or bare with blanks, and with any blanks around it.
-/

set_option autoImplicit false
namespace MooCore

/-! ## Blanks at both ends -/

namespace Text

/-- Some text that begins and ends with something else than a blank. -/
structure Trimmed (cs : List Char) : Prop where
  some : cs ≠ []
  head : ∀ c ∈ cs.head?, isBlank c = false
  last : ∀ c ∈ cs.getLast?, isBlank c = false

theorem Trimmed.of_solid {cs : List Char} (some : cs ≠ []) (h : Solid cs) : Trimmed cs where
  some := some
  head := fun c mem => h c (List.mem_of_mem_head? mem)
  last := fun c mem => h c (List.mem_of_getLast? mem)

theorem Trimmed.join {cs ds : List Char} (hc : Trimmed cs) (mid : List Char) (hd : Trimmed ds) :
    Trimmed (cs ++ mid ++ ds) where
  some := by simp [hc.some]
  head := by
    intro c mem
    rw [List.append_assoc, List.head?_append_of_ne_nil _ hc.some] at mem
    exact hc.head c mem
  last := by
    intro c mem
    rw [List.getLast?_append_of_ne_nil _ hd.some] at mem
    exact hd.last c mem

theorem dropWhile_head {cs : List Char} (head : ∀ c ∈ cs.head?, isBlank c = false) :
    cs.dropWhile isBlank = cs := by
  cases cs with
  | nil => rfl
  | cons c cs => simp [head c rfl]

theorem trimBlanks_pad {lead core trail : List Char} (hl : ∀ c ∈ lead, isBlank c = true)
    (ht : ∀ c ∈ trail, isBlank c = true) (trimmed : Trimmed core) :
    trimBlanks (lead ++ core ++ trail) = core := by
  have front : (lead ++ core ++ trail).dropWhile isBlank = core ++ trail := by
    rw [List.append_assoc, List.dropWhile_append_of_pos hl]
    refine dropWhile_head fun c mem => trimmed.head c ?_
    rwa [List.head?_append_of_ne_nil _ trimmed.some] at mem
  have back : (core ++ trail).reverse.dropWhile isBlank = core.reverse := by
    rw [List.reverse_append, List.dropWhile_append_of_pos fun c mem => ht c (by simpa using mem)]
    refine dropWhile_head fun c mem => trimmed.last c ?_
    rwa [List.head?_reverse] at mem
  rw [trimBlanks, front, back, List.reverse_reverse]

theorem Trimmed.trimBlanks_eq {cs : List Char} (h : Trimmed cs) : trimBlanks cs = cs := by
  have none : ∀ c ∈ ([] : List Char), isBlank c = true := fun _ mem => absurd mem List.not_mem_nil
  have pad := trimBlanks_pad none none h
  rwa [List.nil_append, List.append_nil] at pad

end Text

/-! ## Words and texts -/

/-- The values that a command can name in full: integers, objects, errors and texts. -/
def Shape.isSimple : Shape → Bool
  | int _ | obj _ | err _ | str _ => true
  | none | float _ | list _ | map _ | anon .. | waif .. => false

theorem Shape.definite_of_simple {a : Shape} (h : a.isSimple = true) : a.definite = true := by
  cases a with
  | int | obj | err | str => rfl
  | none | float | list | map | anon | waif => cases h

namespace Command
open Shape (escape continued charsAll commaSeparated)

def isWordChar (c : Char) : Bool := !isSeparator c && c != '"'

def Ends (rest : List Char) : Prop := ∀ c ∈ rest.head?, isSeparator c = true

theorem readArgs_separators {sep : List Char} (all : sep.all isSeparator = true)
    (cs : List Char) : readArgs .between (sep ++ cs) = readArgs .between cs := by
  induction sep with
  | nil => rfl
  | cons c sep ih =>
    rw [List.all_cons, Bool.and_eq_true] at all
    rw [List.cons_append, readArgs, if_pos all.1]
    exact ih all.2

theorem readArgs_word {word rest : List Char} (chars : ∀ c ∈ word, isWordChar c = true)
    (ends : Ends rest) (read : List Char) :
    readArgs (.word read) (word ++ rest) = (do
      let x ← readWord (read.reverse ++ word)
      let xs ← readArgs .between rest
      .ok (x :: xs)) := by
  induction word generalizing read with
  | nil =>
    cases rest with
    | nil =>
      simp only [List.append_nil, readArgs]
      cases readWord read.reverse <;> rfl
    | cons c rest =>
      have sep := ends c rfl
      simp [readArgs, sep]
  | cons c word ih =>
    have plain : isSeparator c = false := by
      have := chars c List.mem_cons_self
      simp only [isWordChar, Bool.and_eq_true, Bool.not_eq_true'] at this
      exact this.1
    rw [List.cons_append, readArgs, plain, if_neg Bool.false_ne_true,
      ih (fun d mem => chars d (List.mem_cons_of_mem _ mem))]
    simp

theorem readArgs_text (cs rest read : List Char) :
    readArgs (.text read) (cs.flatMap escape ++ '"' :: rest) =
      (readArgs .between rest).map (.str (String.ofList (read.reverse ++ cs)) :: ·) := by
  induction cs generalizing read with
  | nil => simp [readArgs]
  | cons c cs ih =>
    have kept : (c :: read).reverse ++ cs = read.reverse ++ c :: cs := by simp
    rw [← kept, ← ih (c :: read), List.flatMap_cons, escape]
    split
    · rfl
    · rename_i plain
      simp only [not_or] at plain
      simp [readArgs, plain.1, plain.2]

theorem readWord_int (n : Int64) : readWord (Text.integerChars n.toInt) = .ok (.int n) := by
  have hash : '#' ∉ Text.integerChars n.toInt := fun mem =>
    Text.integerChars_forall (p := (· ≠ '#')) (by decide) (by decide) n.toInt '#' mem rfl
  unfold readWord
  split
  · rename_i e
    rw [e] at hash
    exact absurd List.mem_cons_self hash
  · rw [wordShape, Text.readInt64_integerChars]

theorem readWord_obj (o : Obj) : readWord o.chars = .ok (.obj o) := by
  rw [Obj.chars, readWord, Text.readInt64_integerChars]

theorem readWord_err (e : ErrorCode) : readWord e.name.toList = .ok (.err e) := by
  cases e <;> rfl

theorem integerChars_word (i : Int) : ∀ c ∈ Text.integerChars i, isWordChar c = true :=
  Text.integerChars_forall (p := (isWordChar · = true)) rfl (by decide) i

theorem name_word (e : ErrorCode) : ∀ c ∈ e.name.toList, isWordChar c = true := by
  have whole : e.name.toList.all isWordChar = true := by cases e <;> rfl
  exact List.all_eq_true.1 whole

/-! ## Arguments -/

theorem solid_of_word {word : List Char} (chars : ∀ c ∈ word, isWordChar c = true) :
    Text.Solid word := by
  intro c mem
  have := chars c mem
  simp only [isWordChar, isSeparator, Bool.and_eq_true, Bool.not_eq_true', Bool.or_eq_false_iff]
    at this
  exact this.1.1

theorem readArgs_bare {word rest : List Char} {x : Shape} (some : word ≠ [])
    (chars : ∀ c ∈ word, isWordChar c = true) (ends : Ends rest) (read : readWord word = .ok x) :
    readArgs .between (word ++ rest) = (readArgs .between rest).map (x :: ·) := by
  cases word with
  | nil => exact absurd rfl some
  | cons c word =>
    have first := chars c List.mem_cons_self
    simp only [isWordChar, Bool.and_eq_true, Bool.not_eq_true', bne_iff_ne] at first
    rw [List.cons_append, readArgs, first.1, if_neg Bool.false_ne_true, if_neg first.2,
      readArgs_word (fun d mem => chars d (List.mem_cons_of_mem _ mem)) ends]
    simp only [List.reverse_singleton, List.singleton_append, read]
    cases readArgs .between rest <;> rfl

theorem chars_cases {a : Shape} (simple : a.isSimple = true) :
    (a.chars ≠ [] ∧ (∀ c ∈ a.chars, isWordChar c = true) ∧ readWord a.chars = .ok a) ∨
      ∃ t : String, a = .str t := by
  have some : a.chars ≠ [] := by
    obtain ⟨c, cs, e, -⟩ := Shape.chars_opened (Shape.definite_of_simple simple)
    simp [e]
  cases a with
  | none | float | list | map | anon | waif => cases simple
  | int n => exact .inl ⟨some, integerChars_word _, readWord_int n⟩
  | obj o =>
    refine .inl ⟨some, ?_, readWord_obj o⟩
    rintro c (_ | ⟨_, mem⟩)
    · rfl
    · exact integerChars_word _ c mem
  | err e => exact .inl ⟨some, name_word e, readWord_err e⟩
  | str t => exact .inr ⟨t, rfl⟩

theorem readArgs_chars {a : Shape} (simple : a.isSimple = true) {rest : List Char}
    (ends : Ends rest) :
    readArgs .between (a.chars ++ rest) = (readArgs .between rest).map (a :: ·) := by
  obtain ⟨some, word, read⟩ | ⟨t, rfl⟩ := chars_cases simple
  · exact readArgs_bare some word ends read
  · have shown : (Shape.str t).chars ++ rest =
        '"' :: (t.toList.flatMap escape ++ '"' :: rest) := by
      simp [Shape.chars, Shape.quote]
    rw [shown, readArgs, if_neg (by decide), if_pos rfl, readArgs_text]
    simp

theorem chars_trimmed {a : Shape} (simple : a.isSimple = true) : Text.Trimmed a.chars := by
  obtain ⟨some, word, -⟩ | ⟨t, rfl⟩ := chars_cases simple
  · exact .of_solid some (solid_of_word word)
  · have quotes : Text.Trimmed ['"'] := .of_solid (by simp) (by simp [Text.Solid]; decide)
    have shown : (Shape.str t).chars = ['"'] ++ t.toList.flatMap escape ++ ['"'] := by
      simp [Shape.chars, Shape.quote]
    rw [shown]
    exact quotes.join _ quotes

def spaced (sep : List Char) (forms : List (List Char)) : List Char :=
  forms.flatMap fun form => sep ++ form

theorem spaced_ends {sep : List Char} (some : sep ≠ []) (all : sep.all isSeparator = true)
    (forms : List (List Char)) : Ends (spaced sep forms) := by
  intro c mem
  cases forms with
  | nil => cases mem
  | cons form forms =>
    rw [spaced, List.flatMap_cons, List.append_assoc, List.head?_append_of_ne_nil _ some] at mem
    exact List.all_eq_true.1 all c (List.mem_of_mem_head? mem)

theorem readArgs_spaced {sep : List Char} (some : sep ≠ []) (all : sep.all isSeparator = true)
    {args : List Shape} (simple : ∀ a ∈ args, a.isSimple = true) :
    readArgs .between (spaced sep (charsAll args)) = .ok args := by
  induction args with
  | nil => rfl
  | cons a args ih =>
    rw [charsAll, spaced, List.flatMap_cons, List.append_assoc, readArgs_separators all, ← spaced,
      readArgs_chars (simple a List.mem_cons_self) (spaced_ends some all _),
      ih fun b mem => simple b (List.mem_cons_of_mem _ mem)]
    rfl

theorem readArgs_commaSeparated (forms : List (List Char)) :
    readArgs .between (commaSeparated forms) = readArgs .between (spaced [',', ' '] forms) := by
  cases forms with
  | nil => rfl
  | cons form forms =>
    rw [Shape.commaSeparated_cons,
      ← @readArgs_separators [',', ' '] rfl (form ++ continued forms)]
    rfl

/-! ## Lines -/

theorem name_chars (b : Builtin) : ∀ c ∈ b.name.toList, isNameChar c = true := by
  have whole : b.name.toList.all isNameChar = true := by cases b <;> rfl
  exact List.all_eq_true.1 whole

theorem name_trimmed (b : Builtin) : Text.Trimmed b.name.toList := by
  have whole : (b.name.toList.all fun c => !Text.isBlank c) = true := by cases b <;> rfl
  refine .of_solid (by cases b <;> simp [Builtin.name]) fun c mem => ?_
  simpa using List.all_eq_true.1 whole c mem

theorem ofName?_name (b : Builtin) : Builtin.ofName? b.name = some b := by
  cases b <;> decide

theorem parse_line (b : Builtin) (inner : List Char) {lead rest trail : List Char}
    {args : List Shape}
    (hl : ∀ c ∈ lead, Text.isBlank c = true) (ht : ∀ c ∈ trail, Text.isBlank c = true)
    (trimmed : Text.Trimmed (b.name.toList ++ rest)) (ends : ∀ c ∈ rest.head?, isNameChar c = false)
    (opened : ∀ line, inside line (Text.trimBlanks rest) = .ok inner)
    (read : readArgs .between inner = .ok args) :
    parse (String.ofList (lead ++ (b.name.toList ++ rest) ++ trail)) = .ok ⟨b, args⟩ := by
  have none : rest.takeWhile isNameChar = [] ∧ rest.dropWhile isNameChar = rest := by
    cases rest with
    | nil => exact ⟨rfl, rfl⟩
    | cons c rest => simp [ends c rfl]
  have name : (b.name.toList ++ rest).takeWhile isNameChar = b.name.toList := by
    rw [List.takeWhile_append_of_pos (name_chars b), none.1, List.append_nil]
  have behind : (b.name.toList ++ rest).dropWhile isNameChar = rest := by
    rw [List.dropWhile_append_of_pos (name_chars b), none.2]
  have some : b.name.toList.isEmpty = false := by
    simpa using (name_trimmed b).some
  unfold parse
  simp only [String.toList_ofList, Text.trimBlanks_pad hl ht trimmed, name, behind, some, opened,
    String.ofList_toList, ofName?_name]
  change (readArgs .between inner).bind _ = _
  rw [read]
  rfl

def call (b : Builtin) (forms : List (List Char)) : List Char :=
  b.name.toList ++ '(' :: commaSeparated forms ++ [')']

def bare (b : Builtin) (forms : List (List Char)) : List Char :=
  b.name.toList ++ forms.flatMap fun form => ' ' :: form

theorem parse_call (b : Builtin) {args : List Shape} (simple : ∀ a ∈ args, a.isSimple = true)
    {lead trail : List Char} (hl : ∀ c ∈ lead, Text.isBlank c = true)
    (ht : ∀ c ∈ trail, Text.isBlank c = true) :
    parse (String.ofList (lead ++ call b (charsAll args) ++ trail)) = .ok ⟨b, args⟩ := by
  have paren {c : Char} (h : Text.isBlank c = false) : Text.Trimmed [c] :=
    .of_solid (List.cons_ne_nil _ _) fun d mem => by rwa [List.mem_singleton.1 mem]
  have whole := (name_trimmed b).join ('(' :: commaSeparated (charsAll args)) (paren (c := ')') rfl)
  have behind := (paren (c := '(') rfl).join (commaSeparated (charsAll args))
    (paren (c := ')') rfl)
  rw [List.append_assoc] at whole
  rw [List.singleton_append] at behind
  rw [call, List.append_assoc b.name.toList]
  refine parse_line b (commaSeparated (charsAll args)) hl ht whole ?_ (fun line => ?_) ?_
  · rintro c ⟨⟩
    rfl
  · rw [behind.trimBlanks_eq]
    simp [inside]
  · rw [readArgs_commaSeparated]
    exact readArgs_spaced (List.cons_ne_nil _ _) rfl simple

theorem spaced_trimmed {front : List Char} (h : Text.Trimmed front) {args : List Shape}
    (simple : ∀ a ∈ args, a.isSimple = true) :
    Text.Trimmed (front ++ spaced [' '] (charsAll args)) := by
  induction args generalizing front with
  | nil => simpa [spaced, charsAll] using h
  | cons a args ih =>
    have longer := h.join [' '] (chars_trimmed (simple a List.mem_cons_self))
    have := ih longer fun b mem => simple b (List.mem_cons_of_mem _ mem)
    simpa [spaced, charsAll] using this

theorem inside_chars {a : Shape} (simple : a.isSimple = true) (line rest : List Char) :
    inside line (a.chars ++ rest) = .ok (a.chars ++ rest) := by
  obtain ⟨c, cs, e, begins⟩ := Shape.chars_begins (Shape.definite_of_simple simple)
  have plain : c ≠ '(' := begins.forall (p := (· ≠ '(')) (by decide) (by simp)
  rw [e, List.cons_append, inside]
  rintro _ ⟨⟩
  exact plain rfl

theorem parse_bare (b : Builtin) {args : List Shape} (simple : ∀ a ∈ args, a.isSimple = true)
    {lead trail : List Char} (hl : ∀ c ∈ lead, Text.isBlank c = true)
    (ht : ∀ c ∈ trail, Text.isBlank c = true) :
    parse (String.ofList (lead ++ bare b (charsAll args) ++ trail)) = .ok ⟨b, args⟩ := by
  have whole := spaced_trimmed (name_trimmed b) simple
  have read := readArgs_spaced (List.cons_ne_nil ' ' []) rfl simple
  cases args with
  | nil => exact parse_line b [] hl ht whole (by rintro c ⟨⟩) (fun _ => rfl) read
  | cons a args =>
    have first := simple a List.mem_cons_self
    have trimmed := spaced_trimmed (chars_trimmed first) fun b mem =>
      simple b (List.mem_cons_of_mem _ mem)
    have behind : spaced [' '] (charsAll (a :: args)) =
        [' '] ++ (a.chars ++ spaced [' '] (charsAll args)) ++ [] := by
      simp [spaced, charsAll]
    refine parse_line b (a.chars ++ spaced [' '] (charsAll args)) hl ht whole ?_
      (fun line => ?_) ?_
    · rintro c ⟨⟩
      rfl
    · have blank : ∀ c ∈ [' '], Text.isBlank c = true := List.all_eq_true.1 rfl
      have none : ∀ c ∈ ([] : List Char), Text.isBlank c = true := List.all_eq_true.1 rfl
      have shorn := Text.trimBlanks_pad blank none trimmed
      rw [← behind] at shorn
      exact (congrArg (inside line) shorn).trans (inside_chars first line _)
    · rw [behind, List.append_nil, readArgs_separators rfl] at read
      exact read

theorem charsAll_shapes (args : List Value) :
    charsAll (args.map Value.shape) = args.map fun v => v.literal.toList := by
  induction args with
  | nil => rfl
  | cons v args ih =>
    rw [List.map_cons, charsAll, ih, List.map_cons, Value.literal, Shape.literal,
      String.toList_ofList]

/-- Every function, called with integers, objects, errors and texts in their literal forms, is read
as that call, in parentheses with commas or bare with blanks, whatever blanks stand around it. -/
theorem shown_call_reads (b : Builtin) (args : List Value)
    (simple : ∀ a ∈ args, a.shape.isSimple = true) (lead trail : List Char)
    (hl : ∀ c ∈ lead, Text.isBlank c = true) (ht : ∀ c ∈ trail, Text.isBlank c = true) :
    let forms := args.map fun v => v.literal.toList
    ∀ line ∈ [lead ++ call b forms ++ trail, lead ++ bare b forms ++ trail],
      parse (String.ofList line) = .ok ⟨b, args.map Value.shape⟩ ∧
        read (String.ofList line) = .ok (b.draft (args.map fun v => .shape v.shape)) := by
  intro forms line mem
  have each : ∀ a ∈ args.map Value.shape, a.isSimple = true := by
    intro a mem
    obtain ⟨v, arg, rfl⟩ := List.mem_map.1 mem
    exact simple v arg
  have parsed : parse (String.ofList line) = .ok ⟨b, args.map Value.shape⟩ := by
    rw [show forms = charsAll (args.map Value.shape) from (charsAll_shapes args).symm] at mem
    simp only [List.mem_cons, List.not_mem_nil, or_false] at mem
    obtain rfl | rfl := mem
    · exact parse_call b each hl ht
    · exact parse_bare b each hl ht
  refine ⟨parsed, ?_⟩
  rw [read, parsed]
  simp [draft, Function.comp_def]

/-- Texts with quotes, a backslash, a comma and parentheses, and some numbers. -/
def trickyArgs : List Value :=
  [.str 1 "a \"b\", \\(", .int (-3), .obj ⟨7⟩, .err .perm, .str 2 ")"]

theorem shown_call_reads_tricky :
    (∀ a ∈ trickyArgs, a.shape.isSimple = true) ∧ (∀ c ∈ [' ', '\t'], Text.isBlank c = true) ∧
      (∀ c ∈ ['\n'], Text.isBlank c = true) ∧
      parse " \tstring_hash(\"a \\\"b\\\", \\\\(\", -3, #7, E_PERM, \")\")\n" =
        .ok ⟨.stringHash, trickyArgs.map Value.shape⟩ ∧
      parse " \tstring_hash \"a \\\"b\\\", \\\\(\" -3 #7 E_PERM \")\"\n" =
        .ok ⟨.stringHash, trickyArgs.map Value.shape⟩ := by
  have simple : ∀ a ∈ trickyArgs, a.shape.isSimple = true := List.all_eq_true.1 rfl
  have lead : ∀ c ∈ [' ', '\t'], Text.isBlank c = true := List.all_eq_true.1 rfl
  have trail : ∀ c ∈ ['\n'], Text.isBlank c = true := List.all_eq_true.1 rfl
  have reads := shown_call_reads .stringHash trickyArgs simple _ _ lead trail
  refine ⟨simple, lead, trail, ?_, ?_⟩
  · rw [← (reads _ List.mem_cons_self).1]
    refine congrArg parse (String.toList_inj.1 ?_)
    rw [String.toList_ofList]
    decide +kernel
  · rw [← (reads _ (List.mem_cons_of_mem _ List.mem_cons_self)).1]
    refine congrArg parse (String.toList_inj.1 ?_)
    rw [String.toList_ofList]
    decide +kernel

end Command
end MooCore
