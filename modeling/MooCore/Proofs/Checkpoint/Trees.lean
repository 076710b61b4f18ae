import MooCore.Proofs.Named
import MooCore.Checkpoint.Directory
/-!
# Ways through a tree

In a sound tree whatever is there stands in a directory. Making the directories of a path adds
directories where nothing was, also if it fails on the way; it adds nothing if the path led somewhere
before, and nothing below the path unless the path goes up.
-/

set_option autoImplicit false
namespace MooCore

namespace Checkpoint

/-! ## Ways -/

namespace Path

theorem cut_plain {cs : List Char} (plain : '/' ∉ cs) : cut cs = [cs] := by
  induction cs with
  | nil => rfl
  | cons c cs ih =>
    simp only [List.mem_cons, not_or] at plain
    unfold cut
    split
    · rename_i e
      cases e
    · rename_i e
      exact absurd (List.cons.inj e).1.symm plain.1
    · rename_i c' cs' _ e
      obtain ⟨rfl, rfl⟩ := List.cons.inj e
      rw [ih plain.2]

theorem isUp_named (here : Way) {name : String} (root : name ≠ "/") (up : name ≠ "..") :
    isUp (here ++ [name]) = false := by
  have below : here ++ [name] ≠ Path.root := by
    intro e
    cases here with
    | nil => exact root (List.cons.inj e).1
    | cons step here => exact absurd (congrArg List.length e) (by simp [Path.root])
  simp [isUp, below, up]

theorem move_named (here : Way) {name : String} (stay : isStay name = false) (up : name ≠ "..") :
    move here name = here ++ [name] := by
  simp [move, stay, up]

theorem isUp_append {way : Way} {name : String} (low : isUp way = false) :
    isUp (way ++ [name]) = false := by
  simp only [isUp, Bool.or_eq_false_iff, decide_eq_false_iff_not] at low ⊢
  refine ⟨fun e => ?_, ?_⟩
  · have empty : way = [] := by
      have length := congrArg List.length e
      simp only [List.length_append, root, List.length_cons, List.length_nil] at length
      exact List.length_eq_zero_iff.1 (by omega)
    rw [empty] at low
    exact Bool.noConfusion low.2
  · rw [List.all_append, low.2, Bool.false_and]

theorem dropLast_ne {way : Way} (low : isUp way = false) : way.dropLast ≠ way := by
  intro e
  have empty : way = [] := by
    have length := congrArg List.length e
    rw [List.length_dropLast] at length
    exact List.length_eq_zero_iff.1 (by omega)
  rw [empty] at low
  exact Bool.noConfusion low

end Path

namespace Tree

variable {t t' : Tree} {here way other : Way} {steps : List String}

theorem node?_put (t : Tree) (low : Path.isUp way = false) (n : Node) (other : Way) :
    (t.put way n).node? other = if other = way then some n else t.node? other := by
  simp only [node?, put, Named.get?_set]
  by_cases h : other = way
  · simp [h, low]
  · simp [h]

theorem node?_remove_ne (t : Tree) (ne : other ≠ way) :
    (t.remove way).node? other = t.node? other := by
  simp only [node?, remove, Named.get?_erase_ne _ ne]

theorem remove_put (t : Tree) (way : Way) (n : Node) : (t.put way n).remove way = t.remove way :=
  congrArg Tree.mk (Named.erase_set t.nodes way n)

/-- Every directory stays. -/
def Keeps (t t' : Tree) : Prop := ∀ way, t.node? way = some .directory →
  t'.node? way = some .directory

/-- Steps that enter a directory lead there in every tree that has these directories, and whatever
comes behind them is followed from there. -/
theorem follow_append {start : Way} {steps : List String} (keeps : Keeps t t')
    (entered : t.enter start steps = .ok here) (more : List String) :
    t.node? here = some .directory ∧ t'.follow start (steps ++ more) = t'.follow here more := by
  unfold enter at entered
  -- Every step before the last was taken from a directory, and that is still one in `t'`.
  induction steps generalizing start with
  | nil =>
    simp only [List.nil_append, follow] at entered ⊢
    split at entered
    · cases entered
    · cases entered
    · rename_i node
      have stays : Path.move start "" = start := by simp [Path.move, Path.isStay]
      rw [stays, node] at entered
      obtain rfl : start = here := by simpa using entered
      exact ⟨node, rfl⟩
  | cons step steps ih =>
    simp only [List.cons_append, follow] at entered ⊢
    split at entered
    · cases entered
    · cases entered
    · rename_i node
      rw [keeps _ node]
      exact ih entered

theorem follow_further {start : Way} {steps : List String} (keeps : Keeps t t')
    (entered : t.enter start steps = .ok here) (name : String) :
    t'.follow start (steps ++ [name]) = t'.follow (Path.move here name) [] := by
  obtain ⟨node, along⟩ := follow_append keeps entered [name]
  simp only [along, follow, keeps _ node]

theorem low_of_none (free : t.node? way = none) : Path.isUp way = false := by
  cases low : Path.isUp way with
  | false => rfl
  | true =>
    rw [node?, if_pos low] at free
    cases free

theorem mem_keys_of_node? {n : Node} (low : Path.isUp way = false) (there : t.node? way = some n) :
    way ∈ t.nodes.map Prod.fst := by
  rw [node?, low, if_neg Bool.false_ne_true] at there
  exact List.mem_map_of_mem (Named.mem_of_get? there)

/-! ## Sound trees -/

/-- Nothing is there twice, nothing takes the place of what is there from the start, and whatever is
there stands in a directory. -/
structure Sound (t : Tree) : Prop where
  distinct : (t.nodes.map Prod.fst).Nodup
  low : ∀ way ∈ t.nodes.map Prod.fst, Path.isUp way = false
  parent : ∀ way ∈ t.nodes.map Prod.fst, t.node? way.dropLast = some .directory

theorem sound_empty : Sound {} := ⟨List.nodup_nil, by simp, by simp⟩

theorem Sound.above {n : Node} (sound : t.Sound) (low : Path.isUp way = false)
    (there : t.node? way = some n) : t.node? way.dropLast = some .directory :=
  sound.parent way (mem_keys_of_node? low there)

theorem Sound.put (sound : t.Sound) (low : Path.isUp way = false)
    (parent : t.node? way.dropLast = some .directory) (n : Node)
    (place : t.node? way ≠ some .directory) : (t.put way n).Sound := by
  refine ⟨Named.set_distinct sound.distinct way n, ?_, ?_⟩
  · intro key mem
    rcases Named.set_keys.1 mem with mem | rfl
    · exact sound.low key mem
    · exact low
  · intro key mem
    rw [node?_put t low]
    rcases Named.set_keys.1 mem with mem | rfl
    · have above := sound.parent key mem
      rw [if_neg, above]
      intro e
      exact place (e ▸ above)
    · rw [if_neg (Path.dropLast_ne low), parent]

theorem Sound.remove (sound : t.Sound) (place : t.node? way ≠ some .directory) :
    (t.remove way).Sound := by
  have fewer : ∀ key ∈ (t.remove way).nodes.map Prod.fst, key ∈ t.nodes.map Prod.fst :=
    fun key mem => (List.eraseP_sublist.map Prod.fst).subset mem
  refine ⟨Named.erase_distinct sound.distinct way, fun key mem => sound.low key (fewer key mem), ?_⟩
  intro key mem
  have above := sound.parent key (fewer key mem)
  rw [node?_remove_ne, above]
  intro e
  exact place (e ▸ above)

theorem node?_remove_self (sound : t.Sound) (low : Path.isUp way = false) :
    (t.remove way).node? way = none := by
  rw [node?, low, if_neg Bool.false_ne_true]
  exact Named.get?_erase_self sound.distinct

theorem Sound.none_below (sound : t.Sound) (free : t.node? here = none) (names : List String) :
    t.node? (here ++ names) = none := by
  induction names generalizing here with
  | nil => rwa [List.append_nil]
  | cons name names ih =>
    rw [List.append_cons]
    refine ih ?_
    cases there : t.node? (here ++ [name]) with
    | none => rfl
    | some n =>
      have above := sound.above (Path.isUp_append (low_of_none free)) there
      rw [List.dropLast_concat, free] at above
      cases above

/-- A file is written into a directory, where no directory is. -/
theorem Sound.writeFile {content : Bytes} (sound : t.Sound)
    (written : t.writeFile here steps content = .ok t') : t'.Sound := by
  unfold Tree.writeFile site at written
  cases entered : t.enter here steps.dropLast with
  | error e => simp [entered] at written
  | ok parent =>
    obtain ⟨node, -⟩ := follow_append (fun _ h => h) entered []
    simp only [entered] at written
    generalize steps.getLast?.getD "" = name at written
    by_cases plain : Path.isStay name = true ∨ name = ".."
    · simp [plain] at written
    · rw [if_neg plain] at written
      cases fault : nameFault? name with
      | some e => simp [fault] at written
      | none =>
        simp only [fault] at written
        have place : t.node? (parent ++ [name]) ≠ some .directory := by
          intro directory
          rw [directory] at written
          cases written
        have low : Path.isUp (parent ++ [name]) = false := by
          cases up : Path.isUp (parent ++ [name]) with
          | false => rfl
          | true => exact absurd (by rw [node?, if_pos up]) place
        have put : t' = t.put (parent ++ [name]) (.file content) := by
          split at written
          · cases written
          · exact (Except.ok.inj written).symm
          · exact (Except.ok.inj written).symm
        rw [put]
        exact sound.put low (by rwa [List.dropLast_concat]) _ place

/-! ## Growing -/

/-- Directories were made, on certain ways only, where nothing was. -/
inductive Grows (P : Way → Prop) (t : Tree) : Tree → Prop
  | refl : Grows P t t
  | more {t' : Tree} {way : Way} (before : Grows P t t') (allowed : P way)
      (free : t'.node? way = none) (parent : t'.node? way.dropLast = some .directory) :
      Grows P t (t'.put way .directory)

namespace Grows

variable {P Q : Way → Prop} {t'' : Tree}

theorem mono (h : Grows P t t') (weaker : ∀ way, P way → Q way) : Grows Q t t' := by
  induction h with
  | refl => exact .refl
  | more _ allowed free parent ih => exact .more ih (weaker _ allowed) free parent

theorem trans (first : Grows P t t') (second : Grows P t' t'') : Grows P t t'' := by
  induction second with
  | refl => exact first
  | more _ allowed free parent ih => exact .more ih allowed free parent

theorem sound (h : Grows P t t') (sound : t.Sound) : t'.Sound := by
  induction h with
  | refl => exact sound
  | more _ _ free parent ih =>
    exact ih.put (low_of_none free) parent .directory (by rw [free]; exact nofun)

theorem node?_cases (h : Grows P t t') (way : Way) :
    t'.node? way = t.node? way ∨ t.node? way = none ∧ t'.node? way = some .directory := by
  induction h with
  | refl => exact .inl rfl
  | @more t' new _ _ free _ ih =>
    rw [node?_put t' (low_of_none free)]
    by_cases e : way = new
    · subst e
      rw [if_pos rfl]
      rcases ih with same | ⟨-, there⟩
      · exact .inr ⟨same ▸ free, rfl⟩
      · rw [free] at there
        cases there
    · rwa [if_neg e]

theorem file_iff (h : Grows P t t') (way : Way) (content : Bytes) :
    t'.node? way = some (.file content) ↔ t.node? way = some (.file content) := by
  rcases h.node?_cases way with same | ⟨free, there⟩
  · rw [same]
  · rw [free, there]
    simp

theorem mem_cases (h : Grows P t t') {key : Way} (mem : key ∈ t'.nodes.map Prod.fst) :
    key ∈ t.nodes.map Prod.fst ∨ P key := by
  induction h with
  | refl => exact .inl mem
  | more _ allowed _ _ ih =>
    rcases Named.set_keys.1 mem with mem | rfl
    · exact ih mem
    · exact .inr allowed

end Grows

/-! ## Paths that do not go up -/

def moving (steps : List String) : List String := steps.filter (!Path.isStay ·)

theorem moving_append (steps more : List String) : moving (steps ++ more) = moving steps ++ moving more :=
  List.filter_append ..

theorem moving_of_stay {step : String} (stay : Path.isStay step = true) (steps : List String) :
    moving (step :: steps) = moving steps :=
  List.filter_cons_of_neg (by simp [stay])

theorem moving_cons {step : String} (stay : Path.isStay step = false) (steps : List String) :
    moving (step :: steps) = step :: moving steps :=
  List.filter_cons_of_pos (by simp [stay])

theorem follow_down (down : ".." ∉ steps) (found : t.follow here steps = .ok way) :
    way = here ++ moving steps := by
  induction steps generalizing here with
  | nil =>
    rw [follow] at found
    split at found
    · cases found
      exact (List.append_nil _).symm
    · cases found
  | cons step steps ih =>
    simp only [List.mem_cons, not_or] at down
    simp only [follow] at found
    split at found
    · cases found
    · cases found
    · rw [ih down.2 found]
      cases stay : Path.isStay step with
      | true => rw [moving_of_stay stay, Path.move, if_pos stay]
      | false => rw [moving_cons stay, Path.move_named _ stay (Ne.symm down.1),
          List.append_assoc, List.singleton_append]

theorem enter_down (down : ".." ∉ steps) (entered : t.enter here steps = .ok way) :
    way = here ++ moving steps := by
  have along := follow_down (by simpa using down) entered
  have blank : moving [""] = [] := rfl
  rwa [moving_append, blank, List.append_nil] at along

def Along (here : Way) (steps : List String) (way : Way) : Prop :=
  ".." ∉ steps → way.length ≤ here.length + (moving steps).length

theorem Along.mono {some_ all : List String} (sub : some_.Sublist all) (h : Along here some_ way) :
    Along here all way := by
  intro down
  have few := h fun mem => down (sub.subset mem)
  have shorter := (sub.filter (!Path.isStay ·)).length_le
  exact Nat.le_trans few (Nat.add_le_add_left shorter _)

/-! ## Following -/

theorem isSome_of_follow (found : t.follow here steps = .ok way) : (t.node? here).isSome := by
  cases steps with
  | nil =>
    rw [follow] at found
    split at found
    · assumption
    · cases found
  | cons step steps =>
    rw [follow] at found
    cases node : t.node? here with
    | none =>
      rw [node] at found
      cases found
    | some n => rfl

theorem isSome_of_found (found : t.follow here steps = .ok way) : (t.node? way).isSome := by
  induction steps generalizing here with
  | nil =>
    rw [follow] at found
    split at found
    · cases found
      assumption
    · cases found
  | cons step steps ih =>
    simp only [follow] at found
    split at found
    · cases found
    · cases found
    · exact ih found

/-- Before its last step, and before any other, a path that leads somewhere has entered a
directory. -/
theorem enter_of_follow {before more : List String} {step : String}
    (found : t.follow here (before ++ step :: more) = .ok way) :
    ∃ parent, t.enter here before = .ok parent ∧ t.node? parent = some .directory ∧
      t.follow (Path.move parent step) more = .ok way := by
  induction before generalizing here with
  | nil =>
    simp only [List.nil_append, follow] at found
    split at found
    · cases found
    · cases found
    · rename_i node
      refine ⟨here, ?_, node, found⟩
      simp [enter, follow, node, Path.move, Path.isStay]
  | cons first before ih =>
    simp only [List.cons_append, follow] at found
    split at found
    · cases found
    · cases found
    · rename_i node
      obtain ⟨parent, entered, there⟩ := ih found
      refine ⟨parent, ?_, there⟩
      rw [enter, List.cons_append, follow, node]
      exact entered

theorem follow_of_append {before more : List String}
    (found : t.follow here (before ++ more) = .ok way) : ∃ mid, t.follow here before = .ok mid := by
  cases more with
  | nil => exact ⟨way, by rwa [List.append_nil] at found⟩
  | cons step more =>
    obtain ⟨parent, entered, node, -⟩ := enter_of_follow found
    obtain ⟨-, along⟩ := follow_append (fun _ h => h) entered []
    refine ⟨parent, ?_⟩
    rw [List.append_nil] at along
    rw [along, follow, node]
    rfl

theorem follow_moving (found : t.follow here steps = .ok way) :
    t.follow here (moving steps) = .ok way := by
  induction steps generalizing here with
  | nil => exact found
  | cons step steps ih =>
    simp only [follow] at found
    split at found
    · cases found
    · cases found
    · rename_i node
      cases stay : Path.isStay step with
      | true =>
        rw [moving_of_stay stay]
        refine ih ?_
        rwa [Path.move, if_pos stay] at found
      | false =>
        rw [moving_cons stay, follow, node]
        exact ih found

/-! ## Making directories -/

theorem exists_trimmed (steps : List String) :
    ∃ more, steps = (steps.reverse.dropWhile (· = "")).reverse ++ more ∧ ∀ step ∈ more, step = "" := by
  refine ⟨(steps.reverse.takeWhile (· = "")).reverse, ?_, fun step mem => ?_⟩
  · rw [← List.reverse_append, List.takeWhile_append_dropWhile, List.reverse_reverse]
  · simpa using List.mem_takeWhile_imp (List.mem_reverse.1 mem)

/-- What it takes for a directory to be made. -/
theorem makeDirectory_ok (made : t.makeDirectory here steps = .ok t') :
    ∃ before name more parent, steps = before ++ name :: more ∧ (∀ step ∈ more, step = "") ∧
      t.enter here before = .ok parent ∧ t.node? parent = some .directory ∧
      Path.isStay name = false ∧ t.node? (parent ++ [name]) = none ∧
      t' = t.put (parent ++ [name]) .directory := by
  obtain ⟨more, whole, blank⟩ := exists_trimmed steps
  unfold makeDirectory site at made
  generalize (steps.reverse.dropWhile (· = "")).reverse = trimmed at whole made
  rcases List.eq_nil_or_concat trimmed with rfl | ⟨before, name, rfl⟩
  · simp only [List.dropLast_nil, List.getLast?_nil, Option.getD_none] at made
    cases entered : t.enter here [] with
    | error e => simp [entered] at made
    | ok parent => simp [entered, Path.isStay] at made
  · simp only [List.concat_eq_append, List.dropLast_concat, List.getLast?_concat,
      Option.getD_some] at made
    cases entered : t.enter here before with
    | error e => simp [entered] at made
    | ok parent =>
      obtain ⟨node, -⟩ := follow_append (fun _ h => h) entered []
      by_cases plain : Path.isStay name = true ∨ name = ".."
      · simp [entered, plain] at made
      · simp only [entered, if_neg plain] at made
        cases fault : nameFault? name with
        | some e => simp [fault] at made
        | none =>
          simp only [fault] at made
          split at made
          · cases made
          · rename_i free
            cases made
            refine ⟨before, name, more, parent, ?_, blank, entered, node, ?_, by simpa using free, rfl⟩
            · rw [whole, List.concat_eq_append, List.append_assoc, List.singleton_append]
            · simpa using fun stay => plain (.inl stay)

/-- Where a path leads somewhere no directory can be made, and not because something is missing. -/
theorem makeDirectory_of_follow (found : t.follow here steps = .ok way) :
    ∃ e, t.makeDirectory here steps = .error e ∧ e ≠ .notFound := by
  obtain ⟨more, whole, blank⟩ := exists_trimmed steps
  unfold makeDirectory site
  generalize (steps.reverse.dropWhile (· = "")).reverse = trimmed at whole ⊢
  rcases List.eq_nil_or_concat trimmed with rfl | ⟨before, name, rfl⟩
  · have there := isSome_of_follow found
    simp only [List.dropLast_nil, List.getLast?_nil, Option.getD_none, enter, List.nil_append, follow]
    cases node : t.node? here with
    | none =>
      rw [node] at there
      cases there
    | some n =>
      cases n with
      | file content => exact ⟨_, rfl, nofun⟩
      | directory => simp [Path.move, Path.isStay, node]
  · rw [whole, List.concat_eq_append, List.append_assoc, List.singleton_append] at found
    obtain ⟨parent, entered, node, along⟩ := enter_of_follow found
    simp only [List.concat_eq_append, List.dropLast_concat, List.getLast?_concat, Option.getD_some,
      entered]
    by_cases plain : Path.isStay name = true ∨ name = ".."
    · simp [plain]
    · simp only [if_neg plain]
      cases fault : nameFault? name with
      | some e =>
        refine ⟨e, rfl, ?_⟩
        rintro rfl
        unfold nameFault? at fault
        split at fault
        · cases fault
        · split at fault <;> cases fault
      | none =>
        have there := isSome_of_follow along
        rw [not_or] at plain
        rw [Path.move_named parent (by simpa using plain.1) plain.2] at there
        simp only [there, if_true]
        exact ⟨_, rfl, nofun⟩

theorem ensure_cases (t : Tree) (here : Way) (steps : List String) :
    t.ensure here steps = .ok t ∨ (∃ t', t.ensure here steps = .ok t' ∧
      t.makeDirectory here steps = .ok t') ∨
    ∃ e, t.ensure here steps = .error e ∧ t.makeDirectory here steps = .error e := by
  unfold ensure
  cases made : t.makeDirectory here steps with
  | ok t' => exact .inr (.inl ⟨t', rfl, rfl⟩)
  | error e =>
    cases t.enter here steps with
    | ok _ => exact .inl rfl
    | error _ => exact .inr (.inr ⟨e, rfl, rfl⟩)

theorem makeDirectory_grows (made : t.makeDirectory here steps = .ok t') :
    Grows (Along here steps) t t' := by
  obtain ⟨before, name, more, parent, rfl, blank, entered, node, stay, free, rfl⟩ :=
    makeDirectory_ok made
  refine .more .refl (fun down => ?_) free (by rwa [List.dropLast_concat])
  have down_before : ".." ∉ before := fun mem => down (List.mem_append_left _ mem)
  rw [enter_down down_before entered, moving_append, moving_cons stay]
  simp only [List.length_append, List.length_cons, List.length_nil]
  omega

theorem ensure_grows (ensured : t.ensure here steps = .ok t') : Grows (Along here steps) t t' := by
  rcases ensure_cases t here steps with same | ⟨t₁, made, new⟩ | ⟨e, failed, -⟩
  · rw [same] at ensured
    cases ensured
    exact .refl
  · rw [made] at ensured
    cases ensured
    exact makeDirectory_grows new
  · rw [failed] at ensured
    cases ensured

theorem ensureEach_grows (t : Tree) (here : Way) (done todo : List String) :
    Grows (Along here (done ++ todo)) t (t.ensureEach here done todo).2 := by
  induction todo generalizing t done with
  | nil => exact .refl
  | cons step todo ih =>
    rw [ensureEach]
    cases ensured : t.ensure here (done ++ [step]) with
    | error e => exact .refl
    | ok t₁ =>
      rw [List.append_cons]
      exact ((ensure_grows ensured).mono fun _ =>
        Along.mono (List.sublist_append_left (done ++ [step]) todo)).trans (ih t₁ (done ++ [step]))

theorem above_sublist (steps : List String) : (above steps).Sublist steps :=
  (List.dropLast_sublist _).trans List.filter_sublist

theorem ensureAll_grows (t : Tree) (here : Way) (steps : List String) :
    Grows (Along here steps) t (t.ensureAll here steps).2 := by
  have each : Grows (Along here steps) t (t.ensureEach here [] (above steps)).2 :=
    (ensureEach_grows t here [] (above steps)).mono fun _ => Along.mono (above_sublist steps)
  unfold ensureAll
  split
  · rename_i ensured
    exact ensure_grows ensured
  · split
    · rename_i eq
      rwa [eq] at each
    · rename_i eq
      rw [eq] at each
      split
      · rename_i ensured
        exact each.trans (ensure_grows ensured)
      · exact each
  · exact .refl

/-! ## Paths that led somewhere -/

theorem ensure_of_follow (found : t.follow here steps = .ok way) :
    t.ensure here steps = .ok t ∨ ∃ e, t.ensure here steps = .error e ∧ e ≠ .notFound := by
  obtain ⟨e, refused, present⟩ := makeDirectory_of_follow found
  rcases ensure_cases t here steps with same | ⟨t₁, -, new⟩ | ⟨e', failed, same⟩
  · exact .inl same
  · rw [refused] at new
    cases new
  · rw [refused] at same
    cases same
    exact .inr ⟨_, failed, present⟩

theorem ensureEach_of_follow {done todo : List String}
    (found : t.follow here (done ++ todo) = .ok way) : (t.ensureEach here done todo).2 = t := by
  induction todo generalizing done with
  | nil => rfl
  | cons step todo ih =>
    rw [List.append_cons] at found
    obtain ⟨mid, first⟩ := follow_of_append found
    rw [ensureEach]
    rcases ensure_of_follow first with same | ⟨e, failed, -⟩
    · rw [same]
      exact ih found
    · rw [failed]

theorem ensureAll_of_follow (found : t.follow here steps = .ok way) :
    (t.ensureAll here steps).2 = t := by
  unfold ensureAll
  rcases ensure_of_follow found with same | ⟨e, failed, present⟩
  · rw [same]
  · rw [failed]
    split
    · rename_i eq
      cases eq
    · rename_i eq
      cases eq
      exact absurd rfl present
    · rfl

theorem ensureEach_take_of_follow (found : t.follow here steps = .ok way) (n : Nat) :
    (t.ensureEach here [] ((above steps).take n)).2 = t := by
  obtain ⟨last, whole⟩ := (List.take_prefix n (above steps)).trans (List.dropLast_prefix _)
  have along := follow_moving found
  rw [moving, ← whole] at along
  obtain ⟨mid, first⟩ := follow_of_append along
  exact ensureEach_of_follow first

/-- A path that does not go up leads nowhere, and once directories are made it leads somewhere: to
where nothing was. -/
theorem free_of_follow {P : Way → Prop} {e : FileFault} (sound : t.Sound) (grown : Grows P t t')
    (down : ".." ∉ steps) (missing : t.follow here steps = .error e)
    (found : t'.follow here steps = .ok way) : t.node? way = none := by
  induction steps generalizing here with
  | nil =>
    rw [follow] at missing found
    split at found
    · cases found
      split at missing
      · cases missing
      · rename_i free
        simpa using free
    · cases found
  | cons step steps ih =>
    have along := follow_down down found
    rw [follow] at missing found
    cases node : t.node? here with
    | none =>
      rw [along]
      exact sound.none_below node _
    | some n =>
      cases n with
      | file content =>
        rw [(grown.file_iff here content).2 node] at found
        cases found
      | directory =>
        have same : t'.node? here = some .directory := by
          rcases grown.node?_cases here with same | ⟨free, -⟩
          · rw [same, node]
          · rw [node] at free
            cases free
        simp only [node] at missing
        simp only [same] at found
        exact ih (fun mem => down (List.mem_cons_of_mem _ mem)) missing found

end Tree
end Checkpoint
end MooCore
