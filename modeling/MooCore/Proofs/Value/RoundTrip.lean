import MooCore.Proofs.Binary64.Shortest
import MooCore.Value.Decoding
/-!
# Values that were written

Reading the written form of a value gives its echo: the same value, but for a carriage return at
the end of a text, which is lost, and for what is not a number, which is read as one and the same.
The length of every container has to fit a signed machine word.
-/

set_option autoImplicit false
namespace MooCore

open Text

namespace Shape

mutual

/-- What comes back of a value that is written and read. -/
def echo : Shape → Shape
  | none => none
  | int n => int n
  | float x => float x.canonical
  | obj o => obj o
  | err e => err e
  | str s => str (String.ofList (dropReturn s.toList))
  | list xs => list (echoAll xs)
  | map kvs => map (echoPairs kvs)
  | anon id parent => anon id parent
  | waif id cls owner ps => waif id cls owner (echoAll ps)

def echoAll : List Shape → List Shape
  | [] => []
  | x :: xs => x.echo :: echoAll xs

def echoPairs : List (Shape × Shape) → List (Shape × Shape)
  | [] => []
  | (k, v) :: kvs => (k.echo, v.echo) :: echoPairs kvs

end

/-- What a container's length has to stay below. -/
def lengthLimit : Nat := 0x8000000000000000

mutual

/-- Every container in the value has a length that fits. -/
def Fits : Shape → Prop
  | list xs => xs.length < lengthLimit ∧ FitsAll xs
  | map kvs => kvs.length < lengthLimit ∧ FitsPairs kvs
  | waif _ _ _ ps => ps.length < lengthLimit ∧ FitsAll ps
  | none | int _ | float _ | obj _ | err _ | str _ | anon _ _ => True

def FitsAll : List Shape → Prop
  | [] => True
  | x :: xs => x.Fits ∧ FitsAll xs

def FitsPairs : List (Shape × Shape) → Prop
  | [] => True
  | (k, v) :: kvs => k.Fits ∧ v.Fits ∧ FitsPairs kvs

end

end Shape

namespace Reader

def Reads {α : Type} (r : Reader α) (ls : List (List Char)) (a : α) : Prop :=
  ∀ more n, r { rest := lineBytes ls ++ more, line := n } =
    (.ok a, { rest := more, line := n + ls.length })

theorem Reads.pure {α : Type} (a : α) : Reads (pure a : Reader α) [] a := fun _ _ => rfl

theorem Reads.bind {α β : Type} {r : Reader α} {f : α → Reader β} {ls ms : List (List Char)}
    {a : α} {b : β} (first : Reads r ls a) (second : Reads (f a) ms b) :
    Reads (r >>= f) (ls ++ ms) b := by
  intro more n
  rw [run_bind, lineBytes_append, List.append_assoc, first]
  simp only
  rw [second, List.length_append, Nat.add_assoc]

theorem Reads.accept {α β : Type} {r : Reader α} {f : α → Reader β} {ls : List (List Char)}
    {a : α} {b : β} (first : Reads r ls a) (accepted : f a = Pure.pure b) :
    Reads (r >>= f) ls b := by
  have second : Reads (f a) [] b := by
    rw [accepted]
    exact Reads.pure b
  have both := first.bind second
  rwa [List.append_nil] at both

theorem Reads.map {α β : Type} {r : Reader α} {ls : List (List Char)} {a : α}
    (first : Reads r ls a) (f : α → β) : Reads (r >>= fun a => Pure.pure (f a)) ls (f a) :=
  first.accept rfl

theorem readLine_reads {l : List Char} (h : '\n' ∉ l) :
    Reads readLine [l] (String.ofList (dropReturn l)) := by
  intro more n
  have bytes : lineBytes [l] ++ more = utf8 (l ++ ['\n']) ++ more := by
    rw [lineBytes_cons]
    simp [lineBytes]
  rw [bytes]
  simp only [readLine, Source.readLine_written h, List.length_singleton]

theorem readInteger_reads (n : Int64) : Reads readInteger [integerChars n.toInt] n := by
  have solid := integerChars_solid n.toInt
  refine (readLine_reads solid.newline).accept ?_
  rw [String.toList_ofList, solid.dropReturn_eq, solid.trimBlanks_eq, readInt64_integerChars]

theorem readInteger_digits {k : Nat} (h : k < Shape.lengthLimit) :
    ∃ n : Int64, n.toInt = k ∧ Reads readInteger [digits k] n := by
  have value : (Int64.ofNat k).toInt = k := Int64.toInt_ofNat_of_lt h
  have read := readInteger_reads (Int64.ofNat k)
  rw [value] at read
  exact ⟨_, value, read⟩

theorem readLength_reads {k : Nat} (h : k < Shape.lengthLimit) : Reads readLength [digits k] k := by
  obtain ⟨n, value, read⟩ := readInteger_digits h
  refine read.accept ?_
  rw [value, if_pos (Int.natCast_nonneg k), Int.toNat_natCast]

theorem readObj_reads (o : Obj) : Reads readObj [integerChars o.number.toInt] o :=
  (readInteger_reads o.number).map fun n => (⟨n⟩ : Obj)

theorem readId_reads (id : UInt64) : Reads readId [integerChars (signedId id)] id := by
  have read := (readInteger_reads id.toInt64).map Int64.toUInt64
  rwa [UInt64.toUInt64_toInt64] at read

theorem ofNumber?_number (e : ErrorCode) : ErrorCode.ofNumber? e.number = some e := by
  cases e <;> rfl

theorem readError_reads (e : ErrorCode) : Reads readError [digits e.number] e := by
  have small : e.number < Shape.lengthLimit := by cases e <;> decide
  obtain ⟨n, value, read⟩ := readInteger_digits small
  refine read.accept ?_
  rw [value, if_pos (Int.natCast_nonneg _), Int.toNat_natCast, ofNumber?_number]

theorem readFloat_reads (x : Binary64) : Reads readFloat [x.chars] x.canonical := by
  obtain ⟨solid, read⟩ := x.read_chars
  refine (readLine_reads solid.newline).accept ?_
  rw [String.toList_ofList, solid.dropReturn_eq, solid.trimBlanks_eq, read]

/-! ## Texts -/

theorem escapeLine_newline (cs : List Char) : '\n' ∉ cs.flatMap Shape.escapeLine := by
  intro mem
  obtain ⟨c, -, hc⟩ := List.mem_flatMap.1 mem
  unfold Shape.escapeLine at hc
  split at hc
  · simp at hc
  · split at hc
    · simp at hc
    · rename_i ne
      exact ne (List.mem_singleton.1 hc).symm

theorem unescape_escapeLine (cs : List Char) :
    unescape (cs.flatMap Shape.escapeLine) = .ok cs := by
  induction cs with
  | nil => rfl
  | cons c cs ih =>
    rw [List.flatMap_cons]
    by_cases slash : c = '\\'
    · subst slash
      change (unescape (cs.flatMap Shape.escapeLine)).map _ = _
      rw [ih]
      rfl
    · by_cases newline : c = '\n'
      · subst newline
        change (unescape (cs.flatMap Shape.escapeLine)).map _ = _
        rw [ih]
        rfl
      · have plain : Shape.escapeLine c = [c] := by
          simp [Shape.escapeLine, slash, newline]
        rw [plain, List.singleton_append]
        simp [unescape, slash, ih, Except.map]

theorem dropReturn_escapeLine (cs : List Char) :
    dropReturn (cs.flatMap Shape.escapeLine) = (dropReturn cs).flatMap Shape.escapeLine := by
  rcases List.eq_nil_or_concat cs with rfl | ⟨front, c, rfl⟩
  · rfl
  · rw [List.concat_eq_append]
    have last (ds : List Char) (d : Char) :
        dropReturn (ds ++ [d]) = if d = '\r' then ds else ds ++ [d] := by
      unfold dropReturn
      rw [List.reverse_append]
      by_cases h : d = '\r'
      · subst h
        simp
      · simp [h]
    rw [last, List.flatMap_append, List.flatMap_singleton]
    by_cases h : c = '\r'
    · subst h
      rw [if_pos rfl]
      exact (last _ '\r').trans (if_pos rfl)
    · rw [if_neg h, List.flatMap_append, List.flatMap_singleton]
      have kept (ds : List Char) : dropReturn (ds ++ Shape.escapeLine c) = ds ++ Shape.escapeLine c := by
        unfold Shape.escapeLine
        split
        · exact (congrArg dropReturn (List.append_assoc ds ['\\'] ['\\']).symm).trans
            ((last _ _).trans ((if_neg (by decide)).trans (List.append_assoc _ _ _)))
        · split
          · exact (congrArg dropReturn (List.append_assoc ds ['\\'] ['n']).symm).trans
              ((last _ _).trans ((if_neg (by decide)).trans (List.append_assoc _ _ _)))
          · rw [last, if_neg h]
      exact kept _

theorem readText_reads (s : String) :
    Reads readText [s.toList.flatMap Shape.escapeLine] (String.ofList (dropReturn s.toList)) := by
  refine (readLine_reads (escapeLine_newline s.toList)).accept ?_
  rw [String.toList_ofList, dropReturn_escapeLine, unescape_escapeLine]

/-! ## Heads -/

theorem readHead_reads {k : Kind} {ls : List (List Char)} {head : Head}
    (body : ∀ code : Int64, Kind.ofNumber? code.toInt = some k → Reads (readBody code) ls head) :
    Reads readHead (Shape.kindLine k :: ls) head := by
  have small : k.number < Shape.lengthLimit := by cases k <;> decide
  obtain ⟨n, value, read⟩ := readInteger_digits small
  have kind : Kind.ofNumber? n.toInt = some k := by rw [value, Kind.ofNumber_number]
  exact read.bind (body n kind)

theorem readHead_value {k : Kind} {ls : List (List Char)} {α : Type} {r : Reader α} {a : α}
    (make : α → Shape) (read : Reads r ls a)
    (body : ∀ code : Int64, Kind.ofNumber? code.toInt = some k →
      readBody code = r >>= fun a => pure (.value (make a))) :
    Reads readHead (Shape.kindLine k :: ls) (.value (make a)) :=
  readHead_reads fun code hk => by
    rw [body code hk]
    exact read.map fun a => Head.value (make a)

theorem readHead_list {n : Nat} (h : n < Shape.lengthLimit) :
    Reads readHead [Shape.kindLine .list, digits n] (.list n) :=
  readHead_reads fun code hk => by
    rw [readBody, hk]
    exact (readLength_reads h).map Head.list

theorem readHead_map {n : Nat} (h : n < Shape.lengthLimit) :
    Reads readHead [Shape.kindLine .map, digits n] (.map n) :=
  readHead_reads fun code hk => by
    rw [readBody, hk]
    exact (readLength_reads h).map Head.map

theorem readHead_anon (id : UInt64) (parent : Obj) :
    Reads readHead (Shape.anon id parent).lines (.value (.anon id parent)) := by
  have both := (readId_reads id).bind (f := fun id => do
    return Head.value (.anon id (← readObj)))
    ((readObj_reads parent).map fun parent => Head.value (.anon id parent))
  simp only [Shape.lines]
  refine readHead_reads fun code hk => ?_
  rw [readBody, hk]
  exact both

theorem readHead_waif (id : UInt64) (cls owner : Obj) {n : Nat} (h : n < Shape.lengthLimit) :
    Reads readHead [Shape.kindLine .waif, integerChars (signedId id),
      integerChars cls.number.toInt, integerChars owner.number.toInt, digits n]
      (.waif id cls owner n) := by
  refine readHead_reads fun code hk => ?_
  rw [readBody, hk]
  exact (readId_reads id).bind ((readObj_reads cls).bind ((readObj_reads owner).bind
    ((readLength_reads h).map fun n => Head.waif id cls owner n)))

/-! ## Whole values -/

/-- What becomes of a complete value with containers open. -/
def settled (v : Shape) (fs : List Frame) (src : Source) : Except Unfinished Shape × Source :=
  match settle v fs with
  | .inl v => (.ok v, src)
  | .inr fs => resume fs src

theorem resume_head {ls : List (List Char)} {head : Head} (read : Reads readHead ls head)
    (fs : List Frame) (more : List UInt8) (n : Nat) :
    resume fs { rest := lineBytes ls ++ more, line := n } =
      match place fs head with
      | .inl v => (.ok v, { rest := more, line := n + ls.length })
      | .inr fs => resume fs { rest := more, line := n + ls.length } := by
  have taken := read more n
  rw [resume]
  split
  · rename_i e
    rw [taken] at e
    cases e
  · rename_i e
    rw [taken] at e
    cases e
    rfl

/-- Containers whose members come one by one. -/
structure Sequence (open_ : Nat → List Shape → Frame) (close : List Shape → Shape) : Prop where
  last : ∀ v done fs, settle v (open_ 0 done :: fs) = settle (close (v :: done).reverse) fs
  next : ∀ v n done fs, settle v (open_ (n + 1) done :: fs) = .inr (open_ n (v :: done) :: fs)

theorem sequence_list : Sequence Frame.list Shape.list := ⟨fun _ _ _ => rfl, fun _ _ _ _ => rfl⟩

theorem sequence_waif (id : UInt64) (cls owner : Obj) :
    Sequence (Frame.waif id cls owner) (Shape.waif id cls owner) :=
  ⟨fun _ _ _ => rfl, fun _ _ _ _ => rfl⟩

mutual

/-- A written value is read as its echo, and goes where it belongs. -/
theorem resume_lines (s : Shape) (fits : s.Fits) (fs : List Frame) (more : List UInt8) (n : Nat) :
    resume fs { rest := lineBytes s.lines ++ more, line := n } =
      settled s.echo fs { rest := more, line := n + s.lines.length } := by
  have value (read : Reads readHead s.lines (.value s.echo)) := resume_head read fs more n
  cases s with
  | none => exact value (readHead_reads fun code hk => by rw [readBody, hk]; exact Reads.pure _)
  | int i =>
    exact value (readHead_value Shape.int (readInteger_reads i) fun code hk => by
      rw [readBody, hk])
  | float x =>
    exact value (readHead_value Shape.float (readFloat_reads x) fun code hk => by
      rw [readBody, hk])
  | obj o =>
    exact value (readHead_value Shape.obj (readObj_reads o) fun code hk => by rw [readBody, hk])
  | err e =>
    exact value (readHead_value Shape.err (readError_reads e) fun code hk => by
      rw [readBody, hk])
  | str t =>
    exact value (readHead_value Shape.str (readText_reads t) fun code hk => by
      rw [readBody, hk])
  | anon id parent => exact value (readHead_anon id parent)
  | list xs =>
    have head := resume_head (readHead_list fits.1) fs (lineBytes (Shape.linesAll xs) ++ more) n
    have lines : (Shape.list xs).lines =
      [Shape.kindLine .list, digits xs.length] ++ Shape.linesAll xs := rfl
    rw [lines, lineBytes_append, List.append_assoc, head, List.length_append, ← Nat.add_assoc]
    cases xs with
    | nil => rfl
    | cons x xs => exact resume_members sequence_list (x :: xs) fits.2 rfl [] fs more _
  | map kvs =>
    have head := resume_head (readHead_map fits.1) fs (lineBytes (Shape.linesPairs kvs) ++ more) n
    have lines : (Shape.map kvs).lines =
      [Shape.kindLine .map, digits kvs.length] ++ Shape.linesPairs kvs := rfl
    rw [lines, lineBytes_append, List.append_assoc, head, List.length_append, ← Nat.add_assoc]
    cases kvs with
    | nil => rfl
    | cons kv kvs => exact resume_pairs (kv :: kvs) fits.2 rfl [] fs more _
  | waif id cls owner ps =>
    have head := resume_head (readHead_waif id cls owner fits.1) fs
      (lineBytes (Shape.linesAll ps) ++ more) n
    have lines : (Shape.waif id cls owner ps).lines =
      [Shape.kindLine .waif, integerChars (signedId id), integerChars cls.number.toInt,
        integerChars owner.number.toInt, digits ps.length] ++ Shape.linesAll ps := rfl
    rw [lines, lineBytes_append, List.append_assoc, head, List.length_append, ← Nat.add_assoc]
    cases ps with
    | nil => rfl
    | cons p ps =>
      exact resume_members (sequence_waif id cls owner) (p :: ps) fits.2 rfl [] fs more _

theorem resume_members {open_ : Nat → List Shape → Frame} {close : List Shape → Shape}
    (seq : Sequence open_ close) (xs : List Shape) (fits : Shape.FitsAll xs) {left : Nat}
    (length : xs.length = left + 1) (done : List Shape) (fs : List Frame) (more : List UInt8)
    (n : Nat) :
    resume (open_ left done :: fs) { rest := lineBytes (Shape.linesAll xs) ++ more, line := n } =
      settled (close (done.reverse ++ Shape.echoAll xs)) fs
        { rest := more, line := n + (Shape.linesAll xs).length } := by
  cases xs with
  | nil => cases length
  | cons x xs =>
    have first := resume_lines x fits.1 (open_ left done :: fs)
      (lineBytes (Shape.linesAll xs) ++ more) n
    simp only [Shape.linesAll, Shape.echoAll]
    rw [lineBytes_append, List.append_assoc, first, List.length_append, ← Nat.add_assoc, settled]
    cases xs with
    | nil =>
      obtain rfl : left = 0 := by simpa using length.symm
      rw [seq.last]
      simp only [Shape.echoAll, Shape.linesAll, List.reverse_cons]
      rfl
    | cons y ys =>
      obtain rfl : left = ys.length + 1 := by simpa using length.symm
      rw [seq.next]
      have rest := resume_members seq (y :: ys) fits.2 rfl (x.echo :: done) fs more
        (n + x.lines.length)
      rw [List.reverse_cons, List.append_assoc] at rest
      exact rest

theorem resume_pairs (kvs : List (Shape × Shape)) (fits : Shape.FitsPairs kvs) {left : Nat}
    (length : kvs.length = left + 1) (done : List (Shape × Shape)) (fs : List Frame)
    (more : List UInt8) (n : Nat) :
    resume (.map left done none :: fs)
        { rest := lineBytes (Shape.linesPairs kvs) ++ more, line := n } =
      settled (.map (done.reverse ++ Shape.echoPairs kvs)) fs
        { rest := more, line := n + (Shape.linesPairs kvs).length } := by
  cases kvs with
  | nil => cases length
  | cons kv kvs =>
    obtain ⟨k, v⟩ := kv
    have key := resume_lines k fits.1 (.map left done none :: fs)
      (lineBytes v.lines ++ (lineBytes (Shape.linesPairs kvs) ++ more)) n
    have value := resume_lines v fits.2.1 (.map left done (some k.echo) :: fs)
      (lineBytes (Shape.linesPairs kvs) ++ more) (n + k.lines.length)
    simp only [Shape.linesPairs, Shape.echoPairs]
    rw [lineBytes_append, lineBytes_append, List.append_assoc, List.append_assoc, key, settled]
    change resume (.map left done (some k.echo) :: fs) _ = _
    rw [value, List.length_append, List.length_append, ← Nat.add_assoc, ← Nat.add_assoc, settled]
    cases kvs with
    | nil =>
      obtain rfl : left = 0 := by simpa using length.symm
      simp only [settle, Shape.echoPairs, Shape.linesPairs, List.reverse_cons]
      rfl
    | cons lw kvs =>
      obtain rfl : left = kvs.length + 1 := by simpa using length.symm
      have rest := resume_pairs (lw :: kvs) fits.2.2 rfl ((k.echo, v.echo) :: done) fs more
        (n + k.lines.length + v.lines.length)
      rw [List.reverse_cons, List.append_assoc] at rest
      exact rest

end

theorem readShape_lines {s : Shape} (fits : s.Fits) (more : List UInt8) (n : Nat) :
    readShape { rest := lineBytes s.lines ++ more, line := n } =
      (.ok s.echo, { rest := more, line := n + s.lines.length }) :=
  resume_lines s fits [] more n

end Reader
end MooCore
