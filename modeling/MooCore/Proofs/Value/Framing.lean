import MooCore.Proofs.Value.Faithful
/-!
# Items written one after another

Values and plain lines are written into one stream. No written line has a line feed inside, so as
many lines are written as the text has line feeds. Reading an item takes up just the bytes that
were written for it, whatever comes behind; so a reader that asks for the items in their order
stands at the beginning of the next one after each of them.
-/

set_option autoImplicit false
namespace MooCore

open Text

/-! ## Lines of a value -/

theorem Text.digits_newline (n : Nat) : '\n' ∉ digits n := (digits_allDigits n).solid.newline

namespace Shape

mutual

theorem lines_newline (s : Shape) : ∀ l ∈ s.lines, '\n' ∉ l := by
  have kind (k : Kind) : '\n' ∉ kindLine k := digits_newline k.number
  have integer (i : Int) : '\n' ∉ integerChars i := (integerChars_solid i).newline
  have pair {l m : List Char} (hl : '\n' ∉ l) (hm : '\n' ∉ m) : ∀ x ∈ [l, m], '\n' ∉ x :=
    List.forall_mem_cons.2 ⟨hl, List.forall_mem_singleton.2 hm⟩
  cases s with
  | none => exact List.forall_mem_singleton.2 (kind .none)
  | int n => exact pair (kind .int) (integer _)
  | float x => exact pair (kind .float) x.read_chars.1.newline
  | obj o => exact pair (kind .obj) (integer _)
  | err e => exact pair (kind .err) (digits_newline _)
  | str s => exact pair (kind .str) (Reader.escapeLine_newline s.toList)
  | list xs =>
    exact List.forall_mem_cons.2 ⟨kind .list,
      List.forall_mem_cons.2 ⟨digits_newline _, linesAll_newline xs⟩⟩
  | map kvs =>
    exact List.forall_mem_cons.2 ⟨kind .map,
      List.forall_mem_cons.2 ⟨digits_newline _, linesPairs_newline kvs⟩⟩
  | anon id parent =>
    exact List.forall_mem_cons.2 ⟨kind .anon, pair (integer _) (integer _)⟩
  | waif id cls owner ps =>
    exact List.forall_mem_cons.2 ⟨kind .waif, List.forall_mem_cons.2 ⟨integer _,
      List.forall_mem_cons.2 ⟨integer _, List.forall_mem_cons.2 ⟨integer _,
        List.forall_mem_cons.2 ⟨digits_newline _, linesAll_newline ps⟩⟩⟩⟩⟩

theorem linesAll_newline (xs : List Shape) : ∀ l ∈ linesAll xs, '\n' ∉ l := by
  cases xs with
  | nil => exact List.forall_mem_nil _
  | cons x xs => exact List.forall_mem_append.2 ⟨lines_newline x, linesAll_newline xs⟩

theorem linesPairs_newline (kvs : List (Shape × Shape)) : ∀ l ∈ linesPairs kvs, '\n' ∉ l := by
  cases kvs with
  | nil => exact List.forall_mem_nil _
  | cons kv kvs =>
    exact List.forall_mem_append.2 ⟨List.forall_mem_append.2 ⟨lines_newline kv.1, lines_newline kv.2⟩,
      linesPairs_newline kvs⟩

end

end Shape

theorem count_textOfLines {ls : List (List Char)} (plain : ∀ l ∈ ls, '\n' ∉ l) :
    (textOfLines ls).toList.count '\n' = ls.length := by
  rw [textOfLines, String.toList_ofList]
  induction ls with
  | nil => rfl
  | cons l ls ih =>
    obtain ⟨first, others⟩ := List.forall_mem_cons.1 plain
    rw [List.flatMap_cons, List.count_append, List.count_append, List.count_eq_zero_of_not_mem first,
      ih others, List.count_singleton_self, List.length_cons]
    omega

/-! ## Items -/

/-- What is written into a stream: a value, or a line of its own. -/
inductive Item where
  | value (v : Value)
  | line (l : String)

/-- What a reader asks for next. -/
inductive Wanted where
  | value
  | line

namespace Item

def wanted : Item → Wanted
  | value _ => .value
  | line _ => .line

def lines : Item → List (List Char)
  | value v => v.shape.lines
  | line l => [l.toList]

/-- Lengths fit, and a line of its own has no line feed inside. -/
def Sound : Item → Prop
  | value v => v.shape.Fits
  | line l => '\n' ∉ l.toList

/-- The second item is what comes back of the first. -/
def Echoes : Item → Item → Prop
  | value v, value v' => v'.shape = v.shape.echo.merged
  | line l, line l' => l' = String.ofList (dropReturn l.toList)
  | _, _ => False

/-- The text of some items, one behind the other. -/
def text (items : List Item) : String := textOfLines (items.flatMap lines)

theorem lines_newline_of_sound {a : Item} (sound : a.Sound) : ∀ l ∈ a.lines, '\n' ∉ l := by
  cases a with
  | value v => exact v.shape.lines_newline
  | line l => exact List.forall_mem_singleton.2 sound

theorem count_text {items : List Item} (sound : ∀ a ∈ items, a.Sound) :
    (text items).toList.count '\n' = (items.flatMap lines).length :=
  count_textOfLines fun l mem => by
    obtain ⟨a, ha, hl⟩ := List.mem_flatMap.1 mem
    exact lines_newline_of_sound (sound a ha) l hl

theorem bytes_text_append (done left : List Item) :
    (text (done ++ left)).toUTF8.toList = (text done).toUTF8.toList ++ (text left).toUTF8.toList := by
  rw [text, text, text, bytes_textOfLines, bytes_textOfLines, bytes_textOfLines, List.flatMap_append,
    lineBytes_append]

theorem bytes_text_cons (a : Item) (items : List Item) :
    (text (a :: items)).toUTF8.toList = lineBytes a.lines ++ (text items).toUTF8.toList := by
  rw [text, text, bytes_textOfLines, bytes_textOfLines, List.flatMap_cons, lineBytes_append]

end Item

namespace Intake

/-- Reads what is asked for. -/
def readItem (sink : Option SinkId) (i : Intake) : Wanted → Except DecodingError Item × Intake
  | .value =>
    match i.readValue sink with
    | (.ok v, i) => (.ok (.value v), i)
    | (.error e, i) => (.error e, i)
  | .line =>
    match i.read Reader.readLine with
    | (.ok l, i) => (.ok (.line l), i)
    | (.error e, i) => (.error e, i)

/-- Reads one item after the other. -/
def readItems (sink : Option SinkId) (i : Intake) :
    List Wanted → Except DecodingError (List Item) × Intake
  | [] => (.ok [], i)
  | w :: ws =>
    match i.readItem sink w with
    | (.error e, i) => (.error e, i)
    | (.ok a, i) =>
      match readItems sink i ws with
      | (.error e, i) => (.error e, i)
      | (.ok items, i) => (.ok (a :: items), i)

variable (sink : Option SinkId)

theorem readItem_lines (h : Heap) {a : Item} (sound : a.Sound) (more : List UInt8) (n : Nat) :
    ∃ a' h', readItem sink ⟨⟨lineBytes a.lines ++ more, n⟩, h⟩ a.wanted =
        (.ok a', ⟨⟨more, n + a.lines.length⟩, h'⟩) ∧ a.Echoes a' := by
  cases a with
  | value v =>
    obtain ⟨v', h', taken, shape⟩ := readValue_echo sink h sound more n
    rw [Value.encode, bytes_textOfLines] at taken
    refine ⟨.value v', h', ?_, shape⟩
    rw [Item.wanted, readItem, Item.lines, taken]
  | line l =>
    refine ⟨.line (String.ofList (dropReturn l.toList)), h, ?_, rfl⟩
    have taken := Reader.readLine_reads sound more n
    rw [Item.wanted, readItem, read, Item.lines, taken]

theorem readItems_text {items : List Item} (sound : ∀ a ∈ items, a.Sound) (more : List UInt8) :
    ∀ (h : Heap) (n : Nat), ∃ found h',
      readItems sink ⟨⟨(Item.text items).toUTF8.toList ++ more, n⟩, h⟩ (items.map Item.wanted) =
        (.ok found, ⟨⟨more, n + (items.flatMap Item.lines).length⟩, h'⟩) ∧
      List.Forall₂ Item.Echoes items found := by
  -- The heap and the line count change from item to item, so the induction is for all of them.
  induction items with
  | nil =>
    intro h n
    have bytes : (Item.text []).toUTF8.toList = [] := bytes_textOfLines []
    refine ⟨[], h, ?_, .nil⟩
    rw [bytes]
    rfl
  | cons a items ih =>
    intro h n
    obtain ⟨first, others⟩ := List.forall_mem_cons.1 sound
    obtain ⟨a', mid, taken, echo⟩ :=
      readItem_lines sink h first ((Item.text items).toUTF8.toList ++ more) n
    obtain ⟨found, h', rest, echoes⟩ := ih others mid (n + a.lines.length)
    refine ⟨a' :: found, h', ?_, .cons echo echoes⟩
    rw [Item.bytes_text_cons, List.append_assoc, List.map_cons, readItems, taken]
    simp only [rest, List.flatMap_cons, List.length_append, Nat.add_assoc]

/-- A value is read from just the bytes it was written as, whatever comes behind them, and the line
count goes up by the lines that were written. So of any items written one after another, however
many were read, the source stands at the beginning of the next one, and each came back as its
echo. -/
theorem framing_exact (h : Heap) (rest : List UInt8) (n : Nat) :
    (∀ v : Value, v.shape.Fits → ∃ v' h',
      readValue sink ⟨⟨v.encode.toUTF8.toList ++ rest, n⟩, h⟩ =
          (.ok v', ⟨⟨rest, n + v.encode.toList.count '\n'⟩, h'⟩) ∧
        v'.shape = v.shape.echo.merged) ∧
    ∀ done left : List Item, (∀ a ∈ done, a.Sound) → ∃ found h',
      readItems sink ⟨⟨(Item.text (done ++ left)).toUTF8.toList ++ rest, n⟩, h⟩
          (done.map Item.wanted) =
        (.ok found, ⟨⟨(Item.text left).toUTF8.toList ++ rest,
          n + (Item.text done).toList.count '\n'⟩, h'⟩) ∧
      List.Forall₂ Item.Echoes done found := by
  constructor
  · intro v fits
    rw [Value.encode, count_textOfLines v.shape.lines_newline]
    exact readValue_echo sink h fits rest n
  · intro done left sound
    rw [Item.count_text sound, Item.bytes_text_append, List.append_assoc]
    exact readItems_text sink sound _ h n

/-- A waif that holds a list and a text with every line end there is. -/
def lineEnds : Value :=
  .waif 1 none 0xffffffffffffffff ⟨-1⟩ ⟨7⟩
    [.list 0 [.float ⟨0x7ff8000000000001⟩, .int (-5)], .str 2 "\r\n\\n\u2028\u0085\r"]

def mixedItems : List Item :=
  [.line "1 values pending finalization\r", .value lineEnds, .line "", .value (.str 3 "\n")]

theorem mixedItems_framed :
    lineEnds.shape.Fits ∧ (∀ a ∈ mixedItems, a.Sound) ∧
    (∃ v' h', readValue none ⟨⟨lineEnds.encode.toUTF8.toList ++ [0xff], 3⟩, {}⟩ =
        (.ok v', ⟨⟨[0xff], 3 + lineEnds.encode.toList.count '\n'⟩, h'⟩) ∧
      v'.shape = lineEnds.shape.echo.merged) ∧
    ∃ found h', readItems none
        ⟨⟨(Item.text (mixedItems ++ [.value lineEnds])).toUTF8.toList ++ [0xff], 3⟩, {}⟩
          (mixedItems.map Item.wanted) =
        (.ok found, ⟨⟨(Item.text [.value lineEnds]).toUTF8.toList ++ [0xff],
          3 + (Item.text mixedItems).toList.count '\n'⟩, h'⟩) ∧
      List.Forall₂ Item.Echoes mixedItems found := by
  have fits : lineEnds.shape.Fits := by
    simp [lineEnds, Value.shape, Value.shapes, Shape.Fits, Shape.FitsAll, Shape.lengthLimit]
  have sound : ∀ a ∈ mixedItems, a.Sound := by
    simp [mixedItems, Item.Sound, fits, Value.shape, Shape.Fits]
  have framed := framing_exact none {} [0xff] 3
  exact ⟨fits, sound, framed.1 lineEnds fits, framed.2 mixedItems [.value lineEnds] sound⟩

end Intake

end MooCore
