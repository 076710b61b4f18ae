import Mathlib
import MooCore.Text.Source
import MooCore.Value.Encoding
/-!
# Lines that were written

The bytes of written lines, read line by line, give the lines back, except that a carriage return
at the end of a line is lost.
-/

set_option autoImplicit false
namespace MooCore.Text

/-- The bytes of some characters. -/
def utf8 (cs : List Char) : List UInt8 := cs.flatMap String.utf8EncodeChar

/-- A line without the carriage return at its end, if it has one. -/
def dropReturn (cs : List Char) : List Char :=
  match cs.reverse with
  | '\r' :: front => front.reverse
  | _ => cs

theorem utf8_append (cs ds : List Char) : utf8 (cs ++ ds) = utf8 cs ++ utf8 ds :=
  List.flatMap_append

theorem utf8_newline : utf8 ['\n'] = [10] := rfl

theorem newline_not_mem {c : Char} (h : c ≠ '\n') : (10 : UInt8) ∉ String.utf8EncodeChar c := by
  have value : c.val.toNat ≠ 10 := fun e => h (Char.ext (UInt32.toNat_inj.1 e))
  have bytes : ∀ n < 256, n ≠ 10 → (10 : UInt8) ≠ UInt8.ofNat n := by
    intro n lt ne e
    have same : 10 = (UInt8.ofNat n).toNat := congrArg UInt8.toNat e
    rw [UInt8.toNat_ofNat_of_lt' lt] at same
    exact ne same.symm
  unfold String.utf8EncodeChar
  dsimp only
  split_ifs <;> simp only [List.mem_cons, List.not_mem_nil, or_false, not_or]
  · exact bytes _ (by omega) value
  · exact ⟨bytes _ (by omega) (by omega), bytes _ (by omega) (by omega)⟩
  · exact ⟨bytes _ (by omega) (by omega), bytes _ (by omega) (by omega),
      bytes _ (by omega) (by omega)⟩
  · exact ⟨bytes _ (by omega) (by omega), bytes _ (by omega) (by omega),
      bytes _ (by omega) (by omega), bytes _ (by omega) (by omega)⟩

theorem newline_not_mem_utf8 {cs : List Char} (h : '\n' ∉ cs) : (10 : UInt8) ∉ utf8 cs := by
  intro mem
  obtain ⟨c, hc, byte⟩ := List.mem_flatMap.1 mem
  exact newline_not_mem (fun e => h (e ▸ hc)) byte

namespace Source

theorem splitLine_written {bs : List UInt8} (h : (10 : UInt8) ∉ bs) (rest : List UInt8) :
    splitLine (bs ++ 10 :: rest) = (bs ++ [10], rest) := by
  induction bs with
  | nil => rfl
  | cons b bs ih =>
    simp only [List.mem_cons, not_or] at h
    simp [splitLine, Ne.symm h.1, ih h.2]

theorem decodeUtf8_utf8 (cs : List Char) : decodeUtf8 (utf8 cs) = some (String.ofList cs) := by
  have bytes : (⟨(utf8 cs).toArray⟩ : ByteArray) = (String.ofList cs).toByteArray := by
    rw [String.toByteArray_ofList]
    exact ByteArray.ext (by rw [List.utf8Encode, List.data_toByteArray]; rfl)
  have valid := (String.ofList cs).isValidUTF8
  rw [decodeUtf8, bytes, String.fromUTF8?, dif_pos valid]
  rfl

theorem chomp_written (cs : List Char) : chomp (cs ++ ['\n']) = dropReturn cs := by
  unfold chomp dropReturn
  rw [List.reverse_append]
  generalize e : cs.reverse = front
  cases front with
  | nil => simp [List.reverse_eq_nil_iff.1 e]
  | cons c front =>
    have back : cs = front.reverse ++ [c] := by
      rw [← List.reverse_reverse cs, e, List.reverse_cons]
    by_cases h : c = '\r'
    · subst h
      rfl
    · simp [h, back]

theorem readLine_written {l : List Char} (h : '\n' ∉ l) (more : List UInt8) (n : Nat) :
    readLine { rest := utf8 (l ++ ['\n']) ++ more, line := n } =
      (.ok (String.ofList (dropReturn l)), { rest := more, line := n + 1 }) := by
  have bytes : utf8 (l ++ ['\n']) ++ more = utf8 l ++ 10 :: more := by
    rw [utf8_append, utf8_newline, List.append_assoc]
    rfl
  have split := splitLine_written (newline_not_mem_utf8 h) more
  have whole : utf8 l ++ [10] = utf8 (l ++ ['\n']) := by rw [utf8_append, utf8_newline]
  unfold readLine
  rw [bytes]
  cases e : utf8 l ++ 10 :: more with
  | nil => simp at e
  | cons b bs =>
    rw [e] at split
    simp only [split, whole, decodeUtf8_utf8, String.toList_ofList, chomp_written]

end Source

theorem byteArray_toList (b : ByteArray) : b.toList = b.data.toList := by
  have loop : ∀ i r, i ≤ b.size → ByteArray.toList.loop b i r = r.reverse ++ b.data.toList.drop i := by
    intro i r
    fun_induction ByteArray.toList.loop b i r with
    | case1 i r lt ih =>
      intro _
      rw [ih lt]
      have next : b.data.toList.drop i = b.get! i :: b.data.toList.drop (i + 1) := by
        rw [List.drop_eq_getElem_cons (by simpa using lt)]
        congr 1
        have inside : i < b.data.size := lt
        change b.data.toList[i] = b.data[i]!
        rw [Array.getElem_toList, getElem!_pos b.data i inside]
      rw [next]
      simp
    | case2 i r out =>
      intro le
      have ends : b.data.toList.length ≤ i := by
        have size : b.data.toList.length = b.size := rfl
        omega
      rw [List.drop_eq_nil_of_le ends, List.append_nil]
  have from_zero := loop 0 [] (Nat.zero_le _)
  rwa [List.reverse_nil, List.nil_append, List.drop_zero] at from_zero

/-- The bytes that lines are written as. -/
def lineBytes (ls : List (List Char)) : List UInt8 := ls.flatMap fun l => utf8 (l ++ ['\n'])

theorem lineBytes_cons (l : List Char) (ls : List (List Char)) :
    lineBytes (l :: ls) = utf8 (l ++ ['\n']) ++ lineBytes ls := rfl

theorem lineBytes_append (ls ms : List (List Char)) :
    lineBytes (ls ++ ms) = lineBytes ls ++ lineBytes ms := List.flatMap_append

theorem bytes_textOfLines (ls : List (List Char)) :
    (textOfLines ls).toUTF8.toList = lineBytes ls := by
  rw [byteArray_toList]
  change (textOfLines ls).toByteArray.data.toList = _
  rw [textOfLines, String.toByteArray_ofList, List.utf8Encode, List.data_toByteArray]
  change utf8 (ls.flatMap fun l => l ++ ['\n']) = _
  rw [utf8, lineBytes, List.flatMap_assoc]
  rfl

theorem ofText_textOfLines (ls : List (List Char)) :
    Source.ofText (textOfLines ls) = { rest := lineBytes ls } := by
  rw [Source.ofText, bytes_textOfLines, Source.ofBytes]

end MooCore.Text
