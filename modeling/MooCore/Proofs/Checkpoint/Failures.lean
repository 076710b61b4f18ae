import MooCore.Proofs.Checkpoint.Writing
/-!
# Checkpoints that were not written

Whatever step of writing a checkpoint fails, every complete file is what it was, and nothing is left
of the new one unless it only lacked its name. The newest complete file is the one it was, too: the
directory is where it was, or it is new and has nothing in it. Only a path that goes up may come to
lead elsewhere, when a directory it leads through is made.
-/

set_option autoImplicit false
namespace MooCore

namespace Checkpoint

open Text

/-! ## Names that are complete and names that are not -/

theorem getLast?_of_dropSuffix? {tail cs : List Char} {c : Char} (last : tail.getLast? = some c)
    (ending : (dropSuffix? tail cs).isSome) : cs.getLast? = some c := by
  rw [dropSuffix?, Option.isSome_map] at ending
  rw [List.getLast?_eq_head?_reverse] at last ⊢
  generalize tail.reverse = back at last ending
  generalize cs.reverse = front at ending
  cases back with
  | nil => cases last
  | cons p back =>
    obtain rfl : p = c := Option.some.inj last
    cases front with
    | nil => cases ending
    | cons q front =>
      by_cases same : p = q
      · rw [same]
        rfl
      · rw [dropPrefix?, if_neg same] at ending
        cases ending

namespace Directory

theorem not_complete {name : String}
    (ending : (dropSuffix? ".in-progress".toList name.toList).isSome) : isComplete name = false := by
  have last : name.toList.getLast? = some 's' := getLast?_of_dropSuffix? (by decide) ending
  cases complete : isComplete name with
  | false => rfl
  | true =>
    rw [isComplete, Bool.and_eq_true] at complete
    have other := getLast?_of_dropSuffix? (c := 'b') (by decide) complete.2
    rw [last] at other
    exact absurd (Option.some.inj other) (by decide)

theorem isComplete_unfinishedName (n : Nat) : isComplete (unfinishedName n) = false :=
  not_complete (by rw [unfinishedName_chars, dropSuffix?_append]; rfl)

theorem isComplete_completeName (n : Nat) : isComplete (completeName n) = true := by
  rw [isComplete, completeName_chars, dropSuffix?_append, List.append_assoc, dropPrefix?_append]
  rfl

theorem complete_ne_unfinished {way here : Way} {name : String} (complete : isComplete name = true)
    (n : Nat) : way ++ [name] ≠ here ++ [unfinishedName n] := by
  intro e
  have last := congrArg List.getLast? e
  rw [List.getLast?_concat, List.getLast?_concat] at last
  rw [Option.some.inj last, isComplete_unfinishedName] at complete
  cases complete

end Directory

namespace Tree

variable {t t' : Tree} {u : Way}

/-- The complete files in a directory, by their names. -/
def complete (t : Tree) (here : Way) : List String := (t.names here).filter Directory.isComplete

/-- Two trees differ in nothing but one file, and that is not a complete one. -/
structure Besides (u : Way) (t t' : Tree) : Prop where
  node : ∀ way, way ≠ u → t'.node? way = t.node? way
  complete : ∀ here, t'.complete here = t.complete here

theorem unseen (here way : Way) (n : Nat) :
    Option.filter Directory.isComplete (if (way ++ [Directory.unfinishedName n]).dropLast = here
      then (way ++ [Directory.unfinishedName n]).getLast? else none) = none := by
  rw [List.getLast?_concat]
  split
  · rw [Option.filter_some, Directory.isComplete_unfinishedName]
    rfl
  · rfl

theorem besides_remove (t : Tree) (way : Way) (n : Nat) :
    Besides (way ++ [Directory.unfinishedName n]) t
      (t.remove (way ++ [Directory.unfinishedName n])) := by
  refine ⟨fun _ ne => node?_remove_ne t ne, fun here => ?_⟩
  rw [complete, complete, names, names, List.filter_filterMap, List.filter_filterMap]
  exact Named.filterMap_erase _ fun _ => unseen here way n

theorem besides_put (t : Tree) (way : Way) (n : Nat) (node : Node) :
    Besides (way ++ [Directory.unfinishedName n]) t
      (t.put (way ++ [Directory.unfinishedName n]) node) := by
  refine ⟨fun other ne => ?_, fun here => ?_⟩
  · rw [node?_put t (Directory.isUp_unfinished way n), if_neg ne]
  · rw [complete, complete, names, names, List.filter_filterMap, List.filter_filterMap]
    exact Named.filterMap_set _ (fun _ => unseen here way n) node

theorem Besides.keeps (besides : Besides u t t') (place : t.node? u ≠ some .directory) :
    Keeps t t' := by
  intro way directory
  rw [besides.node way, directory]
  rintro rfl
  exact place directory

/-- A directory that was made for a path that does not go up has no complete files in it. -/
theorem fresh {start way : Way} {steps : List String} {e : FileFault} (sound : t.Sound)
    (grown : Grows (Along start steps) t t') (down : ".." ∉ steps)
    (missing : t.follow start steps = .error e) (found : t'.follow start steps = .ok way) :
    t'.node? way = some .directory ∧ t'.complete way = [] := by
  have free := free_of_follow sound grown down missing found
  constructor
  · rcases grown.node?_cases way with same | ⟨-, there⟩
    · have there := isSome_of_found found
      rw [same, free] at there
      cases there
    · exact there
  · have empty : t'.names way = [] := by
      refine List.eq_nil_iff_forall_not_mem.2 fun name mem => ?_
      obtain ⟨⟨key, node⟩, mem, seen⟩ := List.mem_filterMap.1 mem
      have key_mem := List.mem_map_of_mem (f := Prod.fst) mem
      simp only at seen key_mem
      split at seen
      · rename_i inside
        rcases grown.mem_cases key_mem with old | new
        · have parent := sound.parent key old
          rw [inside, free] at parent
          cases parent
        · -- It would stand below the end of the path, where no directory was made.
          have short := new down
          rw [follow_down down found] at inside
          have length := congrArg List.length inside
          have some : key ≠ [] := by
            rintro rfl
            cases seen
          have positive := List.length_pos_iff.2 some
          rw [List.length_dropLast, List.length_append] at length
          omega
      · cases seen
    rw [complete, empty, List.filter_nil]

end Tree

namespace Directory

variable {d d' : Directory} {stamp : Nat} {ls : List (List Char)} {failing : Option WriteStep}
  {way : Way}

/-! ## Making the directory -/

theorem make_grows (d : Directory) :
    Tree.Grows (Tree.Along d.start d.steps) d.tree d.make.2.tree := by
  unfold make
  split
  · exact .refl
  · split
    · exact .refl
    · exact Tree.ensureAll_grows d.tree d.start d.steps

theorem prepared_grows (d : Directory) (failing : Option WriteStep) :
    Tree.Grows (Tree.Along d.start d.steps) d.tree (d.prepared failing) := by
  unfold prepared
  split
  · exact (Tree.ensureEach_grows d.tree d.start [] _).mono fun _ =>
      Tree.Along.mono ((List.take_sublist _ _).trans (Tree.above_sublist d.steps))
  · exact d.make_grows

theorem look_ok : d.look = .ok way ↔ Path.fits d.path = true ∧ d.tree.follow d.start d.steps = .ok way := by
  unfold look
  split
  · rename_i fits
    simp [fits]
  · rename_i fits
    simp [fits]

theorem prepared_of_look (found : d.look = .ok way) (failing : Option WriteStep) :
    d.prepared failing = d.tree := by
  obtain ⟨-, found⟩ := look_ok.1 found
  unfold prepared
  split
  · exact Tree.ensureEach_take_of_follow found _
  · unfold make
    split
    · rfl
    · split
      · rfl
      · exact Tree.ensureAll_of_follow found

/-! ## The newest file -/

theorem latest_congr (look : d.look = .ok way) (look' : d'.look = .ok way)
    (node : d'.tree.node? way = d.tree.node? way)
    (complete : d'.tree.complete way = d.tree.complete way) : d'.latest = d.latest := by
  have names : d'.names.filter isComplete = d.names.filter isComplete := by
    rw [Directory.names, Directory.names, look, look']
    exact complete
  have newest : d'.newest = d.newest := by rw [Directory.newest, names, Directory.newest]
  simp only [latest, look, look', node, newest]

theorem latest_of_fresh (look : d.look = .ok way) (node : d.tree.node? way = some .directory)
    (complete : d.tree.complete way = []) : d.latest = .ok none := by
  have names : d.names.filter isComplete = [] := by
    rw [Directory.names, look]
    exact complete
  simp only [latest, look, node, newest, names, List.foldl_nil]

theorem later_cases (a b : String) : later a b = a ∨ later a b = b := by
  unfold later
  split
  · exact .inr rfl
  · exact .inl rfl

theorem newest_mem {names : List String} {best : Option String} {name : String}
    (found : names.foldl (fun best name => some (best.elim name (later · name))) best = some name) :
    name ∈ names ∨ best = some name := by
  induction names generalizing best with
  | nil => exact .inr found
  | cons first names ih =>
    rcases ih found with mem | same
    · exact .inl (List.mem_cons_of_mem _ mem)
    · cases best with
      | none =>
        obtain rfl : first = name := Option.some.inj same
        exact .inl (List.mem_cons_self ..)
      | some old =>
        have same : later old first = name := Option.some.inj same
        rcases later_cases old first with e | e
        · exact .inr (by rw [← same, e])
        · exact .inl (by rw [← same, e]; exact List.mem_cons_self ..)

theorem latest_complete {name : String} (chosen : d.latest = .ok (some name)) :
    name ∈ d.names ∧ isComplete name = true := by
  have newest : d.newest = some name := by
    unfold latest at chosen
    split at chosen
    · cases chosen
    · split at chosen
      · exact Except.ok.inj chosen
      · cases chosen
      · cases chosen
  rcases newest_mem newest with mem | none
  · exact List.mem_filter.1 mem
  · cases none

/-! ## Failures -/

theorem failed_cases {e : FileFault} (failed : d.write stamp ls failing = (.error e, d')) :
    ∃ tree : Tree, d' = { d with tree } ∧ (tree = d.prepared failing ∨
      ∃ here n, Site d (d.prepared failing) here n ∧
        Tree.Besides (here ++ [unfinishedName n]) (d.prepared failing) tree) := by
  rcases write_cases d stamp ls failing with
    ⟨e, h⟩ | ⟨here, n, site, ⟨e, h⟩ | ⟨-, e, content, h⟩ | h⟩ <;> rw [h] at failed <;> cases failed
  · exact ⟨_, rfl, .inl rfl⟩
  · exact ⟨_, rfl, .inr ⟨here, n, site, Tree.besides_remove _ here n⟩⟩
  · exact ⟨_, rfl, .inr ⟨here, n, site, Tree.besides_put _ here n _⟩⟩

theorem Site.leads {tree tree' : Tree} {here : Way} {n : Nat} (site : Site d tree here n)
    (keeps : Tree.Keeps tree tree') :
    tree'.node? here = some .directory ∧ tree'.follow d.start d.steps = .ok here := by
  obtain ⟨node, along⟩ := Tree.follow_append keeps site.entered []
  rw [List.append_nil, Tree.follow, keeps _ node] at along
  exact ⟨keeps _ node, along⟩

/-- Whatever a failed write leaves, the newest complete file is the one it was, unless a path that
goes up comes to lead elsewhere. -/
theorem latest_of_failed {e : FileFault} (sound : d.tree.Sound)
    (failed : d.write stamp ls failing = (.error e, d'))
    (path : (∃ way, d.look = .ok way) ∨ ".." ∉ d.steps) : d'.latest = d.latest := by
  have grown := d.prepared_grows failing
  obtain ⟨tree, rfl, outcome⟩ := failed_cases failed
  cases found : d.look with
  | ok way =>
    -- The path led somewhere, so nothing was made and it leads there still.
    obtain ⟨fits, along⟩ := look_ok.1 found
    rw [prepared_of_look found failing] at outcome
    rcases outcome with rfl | ⟨here, n, site, besides⟩
    · rfl
    · obtain ⟨node, before⟩ := site.leads fun _ h => h
      obtain ⟨node', after⟩ := site.leads (besides.keeps site.place)
      have same : way = here := Except.ok.inj (along.symm.trans before)
      subst same
      exact latest_congr found (look_ok.2 ⟨fits, after⟩) (node'.trans node.symm)
        (besides.complete way)
  | error fault =>
    -- It led nowhere: there was no newest file, and a directory it leads to by now is an empty one.
    have before : d.latest = .ok none := by rw [latest, found]
    have down : ".." ∉ d.steps := path.resolve_left fun ⟨way, there⟩ => by
      rw [found] at there
      cases there
    rw [before]
    cases found' : look { d with tree } with
    | error fault' => rw [latest, found']
    | ok way =>
      obtain ⟨fits, along⟩ := look_ok.1 found'
      have missing : d.tree.follow d.start d.steps = .error fault := by
        rwa [look, if_pos fits] at found
      rcases outcome with rfl | ⟨here, n, site, besides⟩
      · obtain ⟨node, none⟩ := Tree.fresh sound grown down missing along
        exact latest_of_fresh found' node none
      · obtain ⟨-, before⟩ := site.leads fun _ h => h
        obtain ⟨node, after⟩ := site.leads (besides.keeps site.place)
        have same : way = here := Except.ok.inj (along.symm.trans after)
        subst same
        obtain ⟨-, none⟩ := Tree.fresh sound grown down missing before
        exact latest_of_fresh found' node ((besides.complete way).trans none)

theorem complete_of_failed {e : FileFault} (failed : d.write stamp ls failing = (.error e, d'))
    {name : String} (complete : isComplete name = true) (way : Way) (content : Bytes) :
    d'.tree.node? (way ++ [name]) = some (.file content) ↔
      d.tree.node? (way ++ [name]) = some (.file content) := by
  have same := (d.prepared_grows failing).file_iff (way ++ [name]) content
  obtain ⟨tree, rfl, rfl | ⟨here, n, -, besides⟩⟩ := failed_cases failed
  · exact same
  · rwa [besides.node _ (complete_ne_unfinished complete n)]

/-- Unless it failed to give the new file its name, a failed write leaves no file that was not there,
and none with a content it did not have. -/
theorem file_of_failed {e : FileFault} (sound : d.tree.Sound)
    (failed : d.write stamp ls failing = (.error e, d')) (early : failing ≠ some .rename)
    {content : Bytes} (there : d'.tree.node? way = some (.file content)) :
    d.tree.node? way = some (.file content) := by
  have grown := d.prepared_grows failing
  rw [← grown.file_iff]
  rcases write_cases d stamp ls failing with
    ⟨e, h⟩ | ⟨here, n, site, ⟨e, h⟩ | ⟨last, -⟩ | h⟩
  · rw [h] at failed
    cases failed
    exact there
  · rw [h] at failed
    cases failed
    by_cases same : way = here ++ [unfinishedName n]
    · subst same
      have gone := Tree.node?_remove_self (grown.sound sound) (isUp_unfinished here n)
      rw [gone] at there
      cases there
    · rwa [Tree.node?_remove_ne _ same] at there
  · exact absurd last early
  · rw [h] at failed
    cases failed

/-! ## Success -/

theorem complete_of_written {name : String} (written : d.write stamp ls failing = (.ok name, d')) :
    ∃ here, d'.look = .ok here ∧ isComplete name = true ∧ d.tree.node? (here ++ [name]) = none ∧
      ∀ way other content, isComplete other = true →
        (d'.tree.node? (way ++ [other]) = some (.file content) ↔
          (way ++ [other] = here ++ [name] ∧ content = lineBytes ls) ∨
            d.tree.node? (way ++ [other]) = some (.file content)) := by
  have grown := d.prepared_grows failing
  rcases write_cases d stamp ls failing with
    ⟨e, h⟩ | ⟨here, n, site, ⟨e, h⟩ | ⟨-, e, content, h⟩ | h⟩ <;> rw [h] at written <;> cases written
  have free : d.tree.node? (here ++ [completeName n]) = none := by
    rcases grown.node?_cases (here ++ [completeName n]) with same | ⟨free, -⟩
    · rw [← same, site.free]
    · exact free
  have fits := fits_path (plain_of_head (unfinishedName_head n)).1 site.fits
  refine ⟨here, look_ok.2 ⟨fits, (site.leads (site.keeps _)).2⟩, isComplete_completeName n, free,
    fun way other content complete => ?_⟩
  rw [node?_finished _ _ (complete_ne_unfinished complete n), bytesOfLines_eq]
  by_cases same : way ++ [other] = here ++ [completeName n]
  · rw [if_pos same, same, free]
    simp [eq_comm]
  · rw [if_neg same, grown.file_iff]
    simp [same]

/-! ## Sound directories -/

theorem write_sound (sound : d.tree.Sound) : (d.write stamp ls failing).2.tree.Sound := by
  have made := (d.prepared_grows failing).sound sound
  rcases write_cases d stamp ls failing with
    ⟨e, h⟩ | ⟨here, n, site, ⟨e, h⟩ | ⟨-, e, content, h⟩ | h⟩ <;> rw [h]
  · exact made
  · exact made.remove site.place
  · obtain ⟨node, -⟩ := site.leads fun _ h => h
    exact made.put (isUp_unfinished here n) (by rwa [List.dropLast_concat]) _ site.place
  · obtain ⟨node, -⟩ := site.leads ((Tree.besides_remove _ here n).keeps site.place)
    refine (made.remove site.place).put (isUp_complete here n) (by rwa [List.dropLast_concat]) _ ?_
    rw [(Tree.besides_remove _ here n).node _ (complete_ne_unfinished (isComplete_completeName n) n),
      site.free]
    exact nofun

/-- Directories as they come about: nothing is there at first, files are put, and checkpoints are
written, whatever fails. -/
inductive Reached : Directory → Prop
  | empty (base path : String) : Reached (Directory.below base path)
  | file {d d' : Directory} {name : String} {content : Bytes} (before : Reached d)
      (done : d.put name content = .ok d') : Reached d'
  | fileAtBase {d d' : Directory} {path : String} {content : Bytes} (before : Reached d)
      (done : d.putAtBase path content = .ok d') : Reached d'
  | checkpoint {d : Directory} (before : Reached d) (stamp : Nat) (ls : List (List Char))
      (failing : Option WriteStep) : Reached (d.write stamp ls failing).2

theorem writeFile_sound {start : Way} {steps : List String} {content : Bytes}
    (sound : d.tree.Sound)
    (done : (d.tree.writeFile start steps content).map (fun tree => { d with tree }) = .ok d') :
    d'.tree.Sound := by
  cases written : d.tree.writeFile start steps content with
  | error e =>
    rw [written] at done
    cases done
  | ok tree =>
    rw [written] at done
    cases done
    exact sound.writeFile written

theorem Reached.sound (reached : Reached d) : d.tree.Sound := by
  induction reached with
  | empty base path => exact Tree.sound_empty
  | @file d d' name content before done ih =>
    unfold Directory.put at done
    rcases make_cases d with ⟨e, failed⟩ | ⟨here, entered, -⟩
    · rw [failed] at done
      cases done
    · rw [entered] at done
      exact writeFile_sound (d := { d with tree := d.make.2.tree }) (d.make_grows.sound ih) done
  | fileAtBase before done ih => exact writeFile_sound ih done
  | checkpoint before stamp ls failing ih => exact write_sound ih

/-! ## What a restart sees -/

/-- Whichever step of writing a checkpoint fails, the complete files, wherever they are, are the ones
there were, with their contents; before the last step no file is left that was not there; and the
newest complete file is the one it was, if the path led somewhere before or does not go up. A write
that succeeds adds one complete file where nothing was. An unfinished file is never chosen. -/
theorem failed_write_unseen (sound : d.tree.Sound) (stamp : Nat) (ls : List (List Char))
    (failing : Option WriteStep) :
    (∀ e d', d.write stamp ls failing = (.error e, d') →
      (∀ way name content, isComplete name = true →
        (d'.tree.node? (way ++ [name]) = some (.file content) ↔
          d.tree.node? (way ++ [name]) = some (.file content))) ∧
      (failing ≠ some .rename → ∀ way content, d'.tree.node? way = some (.file content) →
        d.tree.node? way = some (.file content)) ∧
      ((∃ way, d.look = .ok way) ∨ ".." ∉ d.steps → d'.latest = d.latest)) ∧
    (∀ name d', d.write stamp ls failing = (.ok name, d') →
      ∃ here, d'.look = .ok here ∧ isComplete name = true ∧ d.tree.node? (here ++ [name]) = none ∧
        ∀ way other content, isComplete other = true →
          (d'.tree.node? (way ++ [other]) = some (.file content) ↔
            (way ++ [other] = here ++ [name] ∧ content = lineBytes ls) ∨
              d.tree.node? (way ++ [other]) = some (.file content))) ∧
    ∀ name, d.latest = .ok (some name) → name ∈ d.names ∧ isComplete name = true ∧
      dropSuffix? ".in-progress".toList name.toList = none := by
  refine ⟨fun e d' failed => ⟨fun way name content complete => complete_of_failed failed complete way
    content, fun early way content there => file_of_failed sound failed early there,
    latest_of_failed sound failed⟩, fun name d' written => complete_of_written written,
    fun name chosen => ?_⟩
  obtain ⟨mem, complete⟩ := latest_complete chosen
  refine ⟨mem, complete, ?_⟩
  cases ending : dropSuffix? ".in-progress".toList name.toList with
  | none => rfl
  | some front =>
    rw [not_complete (by rw [ending]; rfl)] at complete
    cases complete

/-- One complete file, and an unfinished one with a later name. -/
def storedDirectory : Directory where
  path := "state"
  steps := ["state"]
  tree := ⟨[(["state"], .directory), (["state", "checkpoint-5.db"], .file [1]),
    (["state", "checkpoint-9.in-progress"], .file [2])]⟩

/-- The second of two lines cannot be written. -/
theorem storedDirectory_unseen :
    storedDirectory.tree.Sound ∧ storedDirectory.latest = .ok (some "checkpoint-5.db") ∧
    (storedDirectory.write 1 [['a'], ['b']] (some (.write 1))).1 = .error (.other "write") ∧
    (storedDirectory.write 1 [['a'], ['b']] (some (.write 1))).2.latest =
      .ok (some "checkpoint-5.db") ∧
    (∀ way content,
      (storedDirectory.write 1 [['a'], ['b']] (some (.write 1))).2.tree.node? way =
        some (.file content) → storedDirectory.tree.node? way = some (.file content)) ∧
    isComplete "checkpoint-5.db" = true := by
  have sound : storedDirectory.tree.Sound := ⟨by decide, by decide, by decide⟩
  have latest : storedDirectory.latest = .ok (some "checkpoint-5.db") := by decide +kernel
  have fails : (storedDirectory.write 1 [['a'], ['b']] (some (.write 1))).1 =
      .error (.other "write") := by decide +kernel
  have unseen := failed_write_unseen sound 1 [['a'], ['b']] (some (.write 1))
  obtain ⟨-, files, newest⟩ := unseen.1 _ _ (Prod.ext fails rfl)
  have same := newest (.inl ⟨["state"], by decide +kernel⟩)
  exact ⟨sound, latest, fails, same.trans latest, files (by decide),
    (unseen.2.2 _ latest).2.1⟩

def crookedDirectory : Directory where
  path := "a/../f"
  steps := ["a", "..", "f"]
  tree := ⟨[(["f"], .file [])]⟩

/-- The write makes the first directory and fails; from then on the path leads to the file. -/
theorem crookedDirectory_seen :
    crookedDirectory.tree.Sound ∧ crookedDirectory.latest = .ok none ∧
    (crookedDirectory.write 1 [] none).1 = .error .alreadyThere ∧
    (crookedDirectory.write 1 [] none).2.latest = .error .notDirectory :=
  ⟨⟨by decide, by decide, by decide⟩, by decide, by decide, by decide⟩

end Directory
end Checkpoint
end MooCore
