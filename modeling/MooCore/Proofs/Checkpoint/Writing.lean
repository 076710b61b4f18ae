import MooCore.Proofs.Checkpoint.Trees
import MooCore.Proofs.Text.Floats
/-!
# Checkpoints that were written

A checkpoint that was written has a name that nothing had before, and is found under it with the
lines it was given: the unfinished file and the new one stand where no directory is, so every way
through directories leads where it led.
-/

set_option autoImplicit false
namespace MooCore

namespace Checkpoint

open Text

/-! ## Names of checkpoints -/

namespace Directory

theorem stampChars_allDigits (stamp : Nat) : AllDigits (stampChars stamp) := by
  refine AllDigits.append (fun c mem => ?_) (digits_allDigits stamp)
  exact ⟨0, by decide, List.eq_of_mem_replicate mem⟩

theorem stampChars_injective {m n : Nat} (h : stampChars m = stampChars n) : m = n := by
  have value (k : Nat) : Binary64.valueOn 0 (stampChars k) = k := by
    rw [stampChars, Binary64.valueOn_append]
    change Binary64.valueOn (Binary64.valueOn 0 (Binary64.zeros _)) _ = k
    rw [Binary64.valueOn_zeros, Nat.zero_mul, Binary64.valueOn_digits]
  rw [← value m, h, value n]

theorem completeName_injective {m n : Nat} (h : completeName m = completeName n) : m = n := by
  have chars := String.ofList_injective h
  exact stampChars_injective (List.append_cancel_left (List.append_cancel_right chars))

theorem plain_of_head {name : String} (first : name.toList.head? = some 'c') :
    Path.isAbsolute name = false ∧ Path.isStay name = false ∧ name ≠ ".." ∧ name ≠ "/" := by
  have differs (other : String) (h : other.toList.head? ≠ some 'c') : name ≠ other := by
    rintro rfl
    exact h first
  refine ⟨?_, ?_, differs _ (by decide), differs _ (by decide)⟩
  · rw [Path.isAbsolute, first]
    rfl
  · simp [Path.isStay, differs "" (by decide), differs "." (by decide)]

theorem completeName_chars (stamp : Nat) :
    (completeName stamp).toList = "checkpoint-".toList ++ stampChars stamp ++ ".db".toList :=
  String.toList_ofList

theorem unfinishedName_chars (stamp : Nat) :
    (unfinishedName stamp).toList =
      "checkpoint-".toList ++ stampChars stamp ++ ".in-progress".toList :=
  String.toList_ofList

theorem completeName_head (stamp : Nat) : (completeName stamp).toList.head? = some 'c' := by
  rw [completeName_chars]
  rfl

theorem unfinishedName_head (stamp : Nat) : (unfinishedName stamp).toList.head? = some 'c' := by
  rw [unfinishedName_chars]
  rfl

theorem isUp_unfinished (here : Way) (n : Nat) : Path.isUp (here ++ [unfinishedName n]) = false := by
  obtain ⟨-, -, up, root⟩ := plain_of_head (unfinishedName_head n)
  exact Path.isUp_named here root up

theorem isUp_complete (here : Way) (n : Nat) : Path.isUp (here ++ [completeName n]) = false := by
  obtain ⟨-, -, up, root⟩ := plain_of_head (completeName_head n)
  exact Path.isUp_named here root up

theorem completeName_ne_unfinishedName (m n : Nat) : completeName m ≠ unfinishedName n := by
  intro h
  have last := congrArg (fun name : String => name.toList.getLast?) h
  simp only [completeName_chars, unfinishedName_chars, List.getLast?_append] at last
  have letters : some 'b' = some 's' := last
  exact absurd letters (by decide)

theorem steps_completeName (stamp : Nat) : Path.steps (completeName stamp) = [completeName stamp] := by
  have slash : '/' ∉ (completeName stamp).toList := by
    rw [completeName_chars]
    simp only [List.mem_append, not_or]
    refine ⟨⟨by decide, fun mem => ?_⟩, by decide⟩
    obtain ⟨d, lt, e⟩ := stampChars_allDigits stamp _ mem
    exact digitChar_ne lt rfl e.symm
  rw [Path.steps, Path.cut_plain slash, List.map_singleton, String.ofList_toList]

theorem ofList_size (cs : List Char) (ending : String) :
    (String.ofList (cs ++ ending.toList)).utf8ByteSize =
      (String.ofList cs).utf8ByteSize + ending.utf8ByteSize := by
  rw [String.ofList_append, String.ofList_toList, String.utf8ByteSize_append]

theorem fits_completeName {d : Directory} {stamp : Nat}
    (fits : Path.fits (d.fullName (unfinishedName stamp)) = true) :
    Path.fits (d.fullName (completeName stamp)) = true := by
  have shorter : (completeName stamp).utf8ByteSize ≤ (unfinishedName stamp).utf8ByteSize := by
    have complete : (completeName stamp).utf8ByteSize = _ + ".db".utf8ByteSize := ofList_size _ _
    have unfinished : (unfinishedName stamp).utf8ByteSize = _ + ".in-progress".utf8ByteSize :=
      ofList_size _ _
    have three : ".db".utf8ByteSize = 3 := by decide
    have twelve : ".in-progress".utf8ByteSize = 12 := by decide
    omega
  simp only [Path.fits, fullName, Path.joined, (plain_of_head (completeName_head stamp)).1,
    (plain_of_head (unfinishedName_head stamp)).1, decide_eq_true_eq, Bool.false_eq_true,
    if_false] at fits ⊢
  split at fits <;>
  · rename_i ending
    simp only [ending, if_true, if_false, String.utf8ByteSize_append] at fits ⊢
    omega

theorem fits_path {d : Directory} {name : String} (relative : Path.isAbsolute name = false)
    (fits : Path.fits (d.fullName name) = true) : Path.fits d.path = true := by
  simp only [Path.fits, fullName, Path.joined, relative, decide_eq_true_eq, Bool.false_eq_true,
    if_false] at fits ⊢
  split at fits <;>
  · simp only [String.utf8ByteSize_append] at fits
    omega

/-! ## A free name -/

theorem freeStamp_spec (t : Tree) (here : Way) (stamp tries : Nat) :
    t.node? (here ++ [completeName (freeStamp t here stamp tries)]) = none ∨
      ∀ i < tries, (t.node? (here ++ [completeName (stamp + i)])).isSome := by
  induction tries generalizing stamp with
  | zero => exact Or.inr fun i lt => absurd lt (Nat.not_lt_zero i)
  | succ tries ih =>
    unfold freeStamp
    split
    · rename_i taken
      rcases ih (stamp + 1) with free | all
      · exact Or.inl free
      · refine Or.inr fun i lt => ?_
        cases i with
        | zero => exact taken
        | succ i =>
          have later := all i (by omega)
          rwa [show stamp + 1 + i = stamp + (i + 1) by omega] at later
    · rename_i free
      exact Or.inl (by simpa using free)

theorem nextStamp_free (t : Tree) (here : Way) (stamp : Nat) :
    t.node? (here ++ [completeName (nextStamp t here stamp)]) = none := by
  refine (freeStamp_spec t here stamp (t.nodes.length + 1)).resolve_right fun taken => ?_
  -- If all were taken, there would be more different ways than the tree has nodes.
  let ways := (List.range (t.nodes.length + 1)).map fun i => here ++ [completeName (stamp + i)]
  have distinct : ways.Nodup := by
    refine List.Nodup.map (fun i j same => ?_) List.nodup_range
    have names := (List.cons.inj (List.append_cancel_left same)).1
    have stamps := completeName_injective names
    omega
  have there : ways ⊆ t.nodes.map Prod.fst := by
    intro way mem
    obtain ⟨i, lt, rfl⟩ := List.mem_map.1 mem
    have found := taken i (List.mem_range.1 lt)
    obtain ⟨-, -, up, root⟩ := plain_of_head (completeName_head (stamp + i))
    rw [Tree.node?, Path.isUp_named here root up] at found
    obtain ⟨node, found⟩ := Option.isSome_iff_exists.1 found
    exact List.mem_map_of_mem (Named.mem_of_get? found)
  have fewer := (List.subperm_of_subset distinct there).length_le
  simp only [ways, List.length_map, List.length_range] at fewer
  omega

/-! ## Writing -/

variable {d d' : Directory} {stamp : Nat} {ls : List (List Char)} {failing : Option WriteStep}
  {name : String}

theorem bytesOfLines_eq (ls : List (List Char)) : bytesOfLines ls = lineBytes ls := by
  refine congrArg List.flatten (List.map_congr_left fun l _ => ?_)
  rw [byteArray_toList, utf8_append, utf8_newline]
  change (String.ofList l).toByteArray.data.toList ++ [10] = _
  rw [String.toByteArray_ofList, List.utf8Encode, List.data_toByteArray]
  rfl

def prepared (d : Directory) : Option WriteStep → Tree
  | some (.directory made) => (d.tree.ensureEach d.start [] ((Tree.above d.steps).take made)).2
  | _ => d.make.2.tree

theorem make_cases (d : Directory) :
    (∃ e, d.make = (.error e, { d with tree := d.make.2.tree })) ∨
      ∃ here, d.make = (.ok here, { d with tree := d.make.2.tree }) ∧
        d.make.2.tree.enter d.start d.steps = .ok here := by
  unfold make
  split
  · exact .inl ⟨_, rfl⟩
  · split
    · exact .inl ⟨_, rfl⟩
    · generalize d.tree.ensureAll d.start d.steps = ensured
      obtain ⟨result, tree⟩ := ensured
      cases result with
      | error e => exact .inl ⟨e, rfl⟩
      | ok _ =>
        dsimp only [Except.bind]
        cases entered : tree.enter d.start d.steps with
        | error e => exact .inl ⟨e, rfl⟩
        | ok here => exact .inr ⟨here, rfl, rfl⟩

/-- Where a checkpoint with the given stamp can be written: the directory is entered, its name is
free, and the unfinished file has a place. -/
structure Site (d : Directory) (tree : Tree) (here : Way) (n : Nat) : Prop where
  entered : tree.enter d.start d.steps = .ok here
  free : tree.node? (here ++ [completeName n]) = none
  fits : Path.fits (d.fullName (unfinishedName n)) = true
  place : tree.node? (here ++ [unfinishedName n]) ≠ some .directory

/-- A tree once an unfinished file has given way to the complete one. -/
def finished (tree : Tree) (here : Way) (n : Nat) (content : Bytes) : Tree :=
  (tree.remove (here ++ [unfinishedName n])).put (here ++ [completeName n]) (.file content)

theorem node?_finished (tree : Tree) {way here : Way} {n : Nat} (content : Bytes)
    (ne : way ≠ here ++ [unfinishedName n]) : (finished tree here n content).node? way =
      if way = here ++ [completeName n] then some (.file content) else tree.node? way := by
  rw [finished, Tree.node?_put _ (isUp_complete here n), Tree.node?_remove_ne _ ne]

theorem Site.keeps {tree : Tree} {here : Way} {n : Nat} (site : Site d tree here n)
    (content : Bytes) : Tree.Keeps tree (finished tree here n content) := by
  intro way directory
  have ne : way ≠ here ++ [unfinishedName n] := by
    rintro rfl
    exact site.place directory
  rw [node?_finished tree content ne, if_neg]
  · exact directory
  · rintro rfl
    rw [site.free] at directory
    cases directory

/-- All that writing a checkpoint comes to: it fails before there is an unfinished file; or the
unfinished file is taken away, or left behind if it does not get its name, or gives way to the
complete one. -/
theorem write_cases (d : Directory) (stamp : Nat) (ls : List (List Char))
    (failing : Option WriteStep) :
    (∃ e, d.write stamp ls failing = (.error e, { d with tree := d.prepared failing })) ∨
    ∃ here n, Site d (d.prepared failing) here n ∧
      ((∃ e, d.write stamp ls failing = (.error e,
          { d with tree := (d.prepared failing).remove (here ++ [unfinishedName n]) })) ∨
      (failing = some .rename ∧ ∃ e content, d.write stamp ls failing = (.error e, { d with
          tree := (d.prepared failing).put (here ++ [unfinishedName n]) (.file content) })) ∨
      d.write stamp ls failing = (.ok (completeName n),
          { d with tree := finished (d.prepared failing) here n (bytesOfLines ls) })) := by
  have others (ne : ∀ made, failing ≠ some (.directory made)) : d.prepared failing = d.make.2.tree := by
    unfold prepared
    split
    · exact absurd rfl (ne _)
    · rfl
  unfold write
  split
  · exact .inl ⟨_, rfl⟩
  · rename_i ne
    rw [others fun made e => ne made e]
    rcases make_cases d with ⟨e, failed⟩ | ⟨here, made, entered⟩
    · rw [failed]
      exact .inl ⟨e, rfl⟩
    · generalize d.make.2.tree = tree at made entered
      rw [made]
      dsimp only
      split
      · exact .inl ⟨_, rfl⟩
      · rename_i fits
        split
        · exact .inl ⟨_, rfl⟩
        · rename_i place
          rw [Bool.not_eq_true, Bool.not_eq_false'] at fits
          refine .inr ⟨here, nextStamp tree here stamp,
            ⟨entered, nextStamp_free tree here stamp, fits, place⟩, ?_⟩
          split
          · exact .inl ⟨_, rfl⟩
          · split
            · exact .inr (.inl ⟨rfl, _, _, rfl⟩)
            · rw [Tree.remove_put]
              exact .inl ⟨_, rfl⟩
            · rw [Tree.remove_put]
              exact .inr (.inr rfl)

theorem write_find (written : d.write stamp ls failing = (.ok name, d')) :
    d'.find name = .ok (.file (lineBytes ls)) := by
  have written' := write_cases d stamp ls failing
  rw [written] at written'
  rcases written' with ⟨e, h⟩ | ⟨here, n, site, ⟨e, h⟩ | ⟨-, e, content, h⟩ | h⟩ <;> cases h
  obtain ⟨absolute, stay, up, -⟩ := plain_of_head (completeName_head n)
  rw [bytesOfLines_eq]
  have further := Tree.follow_further (site.keeps (lineBytes ls)) site.entered (completeName n)
  have there : (finished (d.prepared failing) here n (lineBytes ls)).node?
      (here ++ [completeName n]) = some (.file (lineBytes ls)) := by
    rw [node?_finished, if_pos rfl]
    exact fun e => completeName_ne_unfinishedName n n (List.cons.inj (List.append_cancel_left e)).1
  generalize finished (d.prepared failing) here n (lineBytes ls) = tree at further there ⊢
  have fits : Path.fits (fullName { d with tree } (completeName n)) = true :=
    fits_completeName site.fits
  rw [Path.move_named here stay up] at further
  simp only [find, fits, if_true, trail, absolute, Bool.false_eq_true, if_false,
    steps_completeName, further, Tree.follow, there, Option.isSome_some, Option.elim_some]

end Directory
end Checkpoint
end MooCore
