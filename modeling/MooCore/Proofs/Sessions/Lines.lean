import MooCore.Proofs.Sessions.Holds
/-!
# Lines that are handed out

Lines are pushed through handles, at any moment. A call that takes lines reads whether input is
suspended, collects the handles with the registry's lock, and then goes from session to session:
it looks whether the session asked to be disconnected, and only after that takes a line from its
queue. In the end the lines are put in the order of the sessions. Between any two of these steps
lines are pushed, sessions ask to be disconnected, enter and are closed.

What was pushed to a session is what was handed out, what a call under way has in hand, and what
still waits, in this order.
-/

set_option autoImplicit false
namespace MooCore

/-- A call under way: the sessions that had asked to be disconnected when it began or when it looked
at them, the handles it has still to come to once it has collected them, the session it has looked
at, and its lines. -/
structure Taking where
  barred : List SessionId
  ahead : Option (List SessionId) := none
  cleared : Option SessionId := none
  lines : List (SessionId × String) := []

/-- A call that is over: whether input was suspended when it began, who had asked to be disconnected
by then or when it was looked at, and the lines it gave. -/
structure Handout where
  suspended : Bool
  barred : List SessionId
  lines : List (SessionId × String)

/-- A registry of which lines are taken, with all lines that were pushed and all calls. -/
structure Reception extends Hall where
  pushed : List (SessionId × String) := []
  taking : Option Taking := none
  handouts : List Handout := []

namespace Sessions

/-- The lines that wait. -/
def queued (r : Sessions) (id : SessionId) : List String :=
  ((r.handle? id).map Session.input).getD []

/-- Whether a session has asked to be disconnected. -/
def bars (r : Sessions) (id : SessionId) : Bool := (r.handle? id).any Session.disconnecting

end Sessions

def Session.dropLine (s : Session) : Session := { s with input := s.input.tail }

namespace Reception

inductive Turn where
  | begin
  | collect (order : List SessionId)
  | look
  | pop
  | finish
  | hall (turn : Hall.Turn)

/-- The lines of a call in the order in which they are given. -/
def inOrder (lines : List (SessionId × String)) : List (SessionId × String) :=
  lines.mergeSort fun a b => a.1 ≤ b.1

/-- A call begins. If input is suspended it is over at once. -/
def begin (r : Reception) : Reception :=
  let barred := (r.sessions.all.map Session.id).filter r.sessions.bars
  if r.sessions.inputSuspended then { r with handouts := r.handouts ++ [⟨true, barred, []⟩] }
  else { r with taking := some { barred } }

/-- The handles are collected, in whatever order the registry gives them. -/
def collect (r : Reception) (t : Taking) (order : List SessionId) : Reception :=
  if t.ahead = none ∧ r.closing.isNone ∧ order.Perm (r.sessions.registered.map Session.id) then
    { r with taking := some { t with ahead := some order } }
  else r

/-- The next session is looked at. -/
def look (r : Reception) (t : Taking) : Reception :=
  match t.ahead, t.cleared with
  | some (id :: rest), none =>
    let taking :=
      if r.sessions.bars id then { t with ahead := some rest, barred := t.barred ++ [id] }
      else { t with ahead := some rest, cleared := some id }
    { r with taking := some taking }
  | _, _ => r

/-- A line is taken from the session that was looked at, if one waits. -/
def pop (r : Reception) (t : Taking) : Reception :=
  match t.cleared with
  | some id =>
    { r with
      sessions := r.sessions.adjust id Session.dropLine
      taking := some { t with
        cleared := none
        lines := t.lines ++ (r.sessions.queued id).head?.toList.map fun line => (id, line) } }
  | none => r

/-- The lines are given in the order of the sessions. -/
def finish (r : Reception) (t : Taking) : Reception :=
  match t.ahead, t.cleared with
  | some [], none =>
    { r with taking := none, handouts := r.handouts ++ [⟨false, t.barred, inOrder t.lines⟩] }
  | _, _ => r

def meanwhile (r : Reception) : Hall.Turn → Reception
  | .touch _ .takeLine => r
  | .touch id (.pushInput now line) =>
    { r with
      toHall := r.toHall.take (.touch id (.pushInput now line))
      pushed := r.pushed ++ if (r.sessions.handle? id).isSome then [(id, line)] else [] }
  | turn => { r with toHall := r.toHall.take turn }

/-- One turn. What cannot be done yet changes nothing, and is taken again later. -/
def take (r : Reception) : Turn → Reception
  | .begin => r.taking.elim r.begin fun _ => r
  | .collect order => r.taking.elim r (r.collect · order)
  | .look => r.taking.elim r r.look
  | .pop => r.taking.elim r r.pop
  | .finish => r.taking.elim r r.finish
  | .hall turn => r.meanwhile turn

def run (r : Reception) (turns : List Turn) : Reception := turns.foldl take r

/-- A registry that has just been set up. -/
def start (timeout : Nat) : Reception := { toHall := .start timeout }

/-- The lines of one session. -/
def linesOf (id : SessionId) (lines : List (SessionId × String)) : List String :=
  lines.filterMap fun entry => if entry.1 = id then some entry.2 else none

/-- The lines that were handed out, call after call. -/
def handed (r : Reception) : List (SessionId × String) := r.handouts.flatMap Handout.lines

/-- The lines that the call under way has taken. -/
def inHand (r : Reception) : List (SessionId × String) := r.taking.elim [] Taking.lines

theorem linesOf_append (id : SessionId) (xs ys : List (SessionId × String)) :
    linesOf id (xs ++ ys) = linesOf id xs ++ linesOf id ys := List.filterMap_append

theorem linesOf_single (id session : SessionId) (line : String) :
    linesOf id [(session, line)] = if session = id then [line] else [] := by
  unfold linesOf
  split <;> simp_all

theorem linesOf_perm {xs ys : List (SessionId × String)} (perm : xs.Perm ys)
    (once : (xs.map Prod.fst).Nodup) (id : SessionId) : linesOf id xs = linesOf id ys := by
  have same : (linesOf id xs).Perm (linesOf id ys) := perm.filterMap _
  have one : (linesOf id xs).length ≤ 1 := by
    have count : (linesOf id xs).length = (xs.map Prod.fst).count id := by
      clear same perm once
      induction xs with
      | nil => rfl
      | cons x xs ih =>
        rw [show x :: xs = [(x.1, x.2)] ++ xs from rfl, linesOf_append, linesOf_single,
          List.length_append, ih]
        by_cases its : x.1 = id <;> simp [its, Nat.add_comm]
    rw [count]
    exact List.nodup_iff_count_le_one.1 once id
  cases first : linesOf id xs with
  | nil =>
    rw [first] at same
    exact same.nil_eq
  | cons line rest =>
    rw [first, List.length_cons] at one
    obtain rfl : rest = [] := List.length_eq_zero_iff.1 (by omega)
    rw [first] at same
    exact (List.singleton_perm.1 same).symm ▸ rfl

end Reception

/-! ## What does not concern input -/

namespace Sessions

/-- No line is pushed or taken, and who asked to be disconnected has asked for good. -/
structure Quietly (r r' : Sessions) : Prop where
  queued : ∀ id, r'.queued id = r.queued id
  bars : ∀ id, r.bars id = true → r'.bars id = true

variable {r r' r'' : Sessions}

theorem Quietly.refl (r : Sessions) : Quietly r r := ⟨fun _ => rfl, fun _ bars => bars⟩

theorem Quietly.trans (first : Quietly r r') (second : Quietly r' r'') : Quietly r r'' where
  queued := fun id => (second.queued id).trans (first.queued id)
  bars := fun id bars => second.bars id (first.bars id bars)

theorem queued_adjust (r : Sessions) (session : SessionId) {f : Session → Session}
    (same : ∀ x, (f x).id = x.id) (id : SessionId) :
    (r.adjust session f).queued id =
      if id = session then ((r.handle? id).map fun x => (f x).input).getD [] else r.queued id := by
  rw [queued, r.handle?_adjust_id session id same, Option.map_map]
  by_cases here : id = session <;> simp [here, queued, Function.comp_def]

theorem bars_adjust (r : Sessions) (session : SessionId) {f : Session → Session}
    (same : ∀ x, (f x).id = x.id)
    (stands : ∀ x, x.disconnecting = true → (f x).disconnecting = true) (id : SessionId)
    (bars : r.bars id = true) : (r.adjust session f).bars id = true := by
  unfold Sessions.bars at bars ⊢
  rw [r.handle?_adjust_id session id same]
  cases found : r.handle? id with
  | none =>
    rw [found] at bars
    cases bars
  | some x =>
    rw [found, Option.any_some] at bars
    rw [Option.map_some, Option.any_some]
    split
    · exact stands x bars
    · exact bars

theorem Quietly.adjust {session : SessionId} {f : Session → Session}
    (keeps : ∀ x, (f x).id = x.id ∧ (f x).input = x.input ∧
      (x.disconnecting = true → (f x).disconnecting = true)) :
    Quietly r (r.adjust session f) where
  queued := fun id => by
    rw [queued_adjust r session fun x => (keeps x).1]
    simp only [fun x => (keeps x).2.1]
    exact ite_self _
  bars := bars_adjust r session (fun x => (keeps x).1) fun x => (keeps x).2.2

theorem Quietly.enter (r : Sessions) (id : SessionId) (now : Instant) (peer : String) :
    Quietly r { r with all := r.all ++ [.opened id now peer] } where
  queued := fun i => by
    simp only [Sessions.queued, handle?, List.find?_append]
    cases r.all.find? (·.id = i) with
    | some x => rfl
    | none =>
      by_cases here : id = i <;> simp [Session.opened, here]
  bars := fun i bars => by
    simp only [Sessions.bars, handle?, List.find?_append] at bars ⊢
    cases found : r.all.find? (·.id = i) with
    | some x => rwa [found] at bars
    | none =>
      rw [found] at bars
      cases bars

end Sessions

namespace Hall

theorem touch_quietly (r : Sessions) (id : SessionId) {t : Session.Touch}
    (unpushed : ∀ now line, t ≠ .pushInput now line) (untaken : t ≠ .takeLine) :
    r.Quietly (r.adjust id (·.touch t)) := by
  refine .adjust fun x => ⟨touch_id t x, ?_, fun bars => ?_⟩
  all_goals
    cases t with
    | login | requestDisconnect => first | rfl | exact bars
    | pushInput now line => exact absurd rfl (unpushed now line)
    | takeLine => exact absurd rfl untaken
    | send line =>
      rw [Session.touch_send]
      split <;> first | rfl | exact bars

theorem take_quietly (h : Hall) (turn : Turn)
    (unpushed : ∀ id now line, turn ≠ .touch id (.pushInput now line))
    (untaken : ∀ id, turn ≠ .touch id .takeLine) : h.sessions.Quietly (h.take turn).sessions := by
  cases turn with
  | number => exact .refl _
  | suspendInput on => exact ⟨fun _ => rfl, fun _ bars => bars⟩
  | enter id now peer =>
    rw [take]
    split
    · exact .enter _ id now peer
    · exact .refl _
  | acquire id =>
    rw [take]
    split
    · rename_i may
      unfold Sessions.guard Sessions.change
      split
      · exact .adjust fun _ => ⟨rfl, rfl, fun wants => wants⟩
      · exact .refl _
    · exact .refl _
  | release place =>
    rw [take]
    split
    · exact .adjust fun _ => ⟨rfl, rfl, fun wants => wants⟩
    · exact .refl _
  | close ids =>
    rw [take]
    split <;> exact .refl _
  | proceed =>
    rw [take]
    split
    · rename_i c closing
      unfold Hall.proceed
      split
      · split
        · exact .refl _
        · exact .adjust fun _ => ⟨rfl, rfl, fun wants => wants⟩
      · split
        · exact .adjust fun _ => ⟨rfl, rfl, fun wants => wants⟩
        · exact .adjust fun _ => ⟨rfl, rfl, fun wants => wants⟩
      · exact .adjust fun _ => ⟨rfl, rfl, fun wants => wants⟩
      · exact .adjust fun _ => ⟨rfl, rfl, fun wants => wants⟩
    · exact .refl _
  | touch id t =>
    exact touch_quietly _ id (fun now line same => unpushed id now line (same ▸ rfl))
      fun same => untaken id (same ▸ rfl)

end Hall

/-! ## What holds all the time -/

/-- A call under way comes to every session once, and it has neither cleared nor taken from those
that had asked to be disconnected. -/
structure Taking.Sound (t : Taking) (r : Sessions) : Prop where
  once : (t.lines.map Prod.fst ++ t.cleared.toList ++ t.ahead.getD []).Nodup
  barred : ∀ id ∈ t.barred, r.bars id = true ∧ id ∉ t.lines.map Prod.fst ∧ t.cleared ≠ some id
  empty : t.ahead = none → t.lines = [] ∧ t.cleared = none

/-- A call gives one line of a session at most, in the order of the sessions, none while input is
suspended and none of sessions that had asked to be disconnected. -/
structure Handout.Fair (c : Handout) : Prop where
  increasing : (c.lines.map Prod.fst).Pairwise (· < ·)
  suspended : c.suspended = true → c.lines = []
  barred : ∀ id ∈ c.barred, id ∉ c.lines.map Prod.fst

namespace Reception

structure Sound (r : Reception) : Prop where
  hall : r.toHall.Sound
  books : ∀ id, linesOf id r.pushed =
    linesOf id r.handed ++ linesOf id r.inHand ++ r.sessions.queued id
  visits : ∀ t, r.taking = some t → t.Sound r.sessions
  fair : ∀ c ∈ r.handouts, c.Fair

variable {r : Reception} {t : Taking}

theorem inOrder_perm (lines : List (SessionId × String)) : (inOrder lines).Perm lines :=
  List.mergeSort_perm _ _

theorem inOrder_increasing {lines : List (SessionId × String)} (once : (lines.map Prod.fst).Nodup) :
    ((inOrder lines).map Prod.fst).Pairwise (· < ·) := by
  have sorted : (inOrder lines).Pairwise fun a b => (decide (a.1 ≤ b.1)) = true :=
    List.pairwise_mergeSort
      (fun a b c ab bc => by simpa using Nat.le_trans (of_decide_eq_true ab) (of_decide_eq_true bc))
      (fun a b => by simpa using Nat.le_total a.1 b.1) lines
  have apart : ((inOrder lines).map Prod.fst).Nodup :=
    ((inOrder_perm lines).map Prod.fst).nodup_iff.2 once
  rw [List.pairwise_map]
  exact (sorted.and (List.pairwise_map.1 apart)).imp fun {a b} both =>
    Nat.lt_of_le_of_ne (of_decide_eq_true both.1) both.2

theorem Sound.quiet (sound : r.Sound) {h : Hall} (hall : h.Sound)
    (quietly : r.sessions.Quietly h.sessions) : Sound { r with toHall := h } where
  hall := hall
  books := fun id => by
    rw [show ({ r with toHall := h } : Reception).sessions.queued id = r.sessions.queued id from
      quietly.queued id]
    exact sound.books id
  visits := fun t under =>
    have visits := sound.visits t under
    ⟨visits.once, fun id mem => ⟨quietly.bars id (visits.barred id mem).1,
      (visits.barred id mem).2⟩, visits.empty⟩
  fair := sound.fair

theorem Sound.push (sound : r.Sound) (id : SessionId) (now : Instant) (line : String) :
    (r.meanwhile (.touch id (.pushInput now line))).Sound where
  hall := sound.hall.touch id (.pushInput now line)
  books := fun i => by
    have queued : (r.meanwhile (.touch id (.pushInput now line))).sessions.queued i =
        r.sessions.queued i ++
          linesOf i (if (r.sessions.handle? id).isSome then [(id, line)] else []) := by
      have changed := r.sessions.queued_adjust id
        (Hall.touch_id (.pushInput now line)) i
      refine changed.trans ?_
      by_cases here : i = id
      · subst here
        rw [if_pos rfl, Sessions.queued]
        cases r.sessions.handle? i <;> simp [Session.touch, linesOf]
      · rw [if_neg here]
        split <;> simp [linesOf, Ne.symm here]
    rw [queued]
    change linesOf i (r.pushed ++ _) = _
    rw [linesOf_append, sound.books i, List.append_assoc]
    rfl
  visits := fun t under =>
    have visits := sound.visits t under
    ⟨visits.once, fun i mem => ⟨Sessions.bars_adjust _ id
      (Hall.touch_id (.pushInput now line)) (fun _ bars => bars) i
      (visits.barred i mem).1, (visits.barred i mem).2⟩, visits.empty⟩
  fair := sound.fair

theorem Sound.meanwhile (sound : r.Sound) (turn : Hall.Turn) : (r.meanwhile turn).Sound := by
  unfold Reception.meanwhile
  split
  · exact sound
  · exact sound.push _ _ _
  · rename_i untaken unpushed
    exact sound.quiet (sound.hall.take turn) (r.toHall.take_quietly turn
      (fun id now line same => unpushed id now line same) fun id same => untaken id same)

theorem inHand_eq {o : Option Taking} (under : r.taking = o) :
    r.inHand = o.elim [] Taking.lines := by rw [inHand, under]

theorem handed_concat (r : Reception) (c : Handout) :
    (r.handouts ++ [c]).flatMap Handout.lines = r.handed ++ c.lines := by
  simp [handed]

theorem Sound.begin (sound : r.Sound) (free : r.taking = none) : r.begin.Sound := by
  have books := sound.books
  rw [inHand_eq free] at books
  unfold Reception.begin
  dsimp only
  split
  · refine ⟨sound.hall, fun id => ?_, sound.visits, fun c mem => ?_⟩
    · change _ = linesOf id ((r.handouts ++ [_]).flatMap Handout.lines) ++
        linesOf id r.inHand ++ _
      rw [handed_concat, inHand_eq free, List.append_nil]
      exact books id
    · rcases List.mem_append.1 mem with old | new
      · exact sound.fair c old
      · rw [List.mem_singleton.1 new]
        exact ⟨.nil, fun _ => rfl, fun _ _ => List.not_mem_nil⟩
  · refine ⟨sound.hall, books, fun t under => ?_, sound.fair⟩
    obtain rfl := Option.some.inj under
    refine ⟨.nil, fun id mem => ?_, fun _ => ⟨rfl, rfl⟩⟩
    exact ⟨(List.mem_filter.1 mem).2, List.not_mem_nil, nofun⟩

theorem Sound.going (sound : r.Sound) (under : r.taking = some t) {t' : Taking}
    (lines : t'.lines = t.lines) (visits : t'.Sound r.sessions) :
    Sound { r with taking := some t' } where
  hall := sound.hall
  books := fun id => by
    have books := sound.books id
    rw [inHand_eq under] at books
    rw [inHand_eq rfl, Option.elim_some, lines]
    exact books
  visits := fun t under => Option.some.inj under ▸ visits
  fair := sound.fair

theorem Sound.collect (sound : r.Sound) (under : r.taking = some t) (order : List SessionId) :
    (r.collect t order).Sound := by
  have visits := sound.visits t under
  unfold Reception.collect
  split
  · rename_i may
    obtain ⟨first, -, perm⟩ := may
    obtain ⟨none_taken, none_cleared⟩ := visits.empty first
    refine sound.going under rfl ⟨?_, visits.barred, nofun⟩
    have ids : (r.sessions.registered.map Session.id).Nodup :=
      sound.hall.ids.sublist (List.filter_sublist.map _)
    simpa [none_taken, none_cleared] using perm.nodup_iff.2 ids
  · exact sound

theorem Sound.look (sound : r.Sound) (under : r.taking = some t) : (r.look t).Sound := by
  have visits := sound.visits t under
  have once := visits.once
  unfold Reception.look
  split
  · rename_i id rest ahead cleared
    rw [ahead, cleared, Option.toList_none, List.append_nil, Option.getD_some] at once
    split
    · rename_i bars
      have fresh : id ∉ t.lines.map Prod.fst := fun taken =>
        (List.nodup_append.1 once).2.2 id taken id (List.mem_cons_self ..) rfl
      refine sound.going under rfl ⟨?_, fun i mem => ?_, nofun⟩
      · rw [cleared, Option.toList_none, List.append_nil]
        exact once.sublist (List.Sublist.append_left (List.sublist_cons_self id rest) _)
      · rcases List.mem_append.1 mem with old | new
        · exact visits.barred i old
        · obtain rfl := List.mem_singleton.1 new
          exact ⟨bars, fresh, cleared ▸ nofun⟩
    · rename_i free
      refine sound.going under rfl ⟨by simpa using once, fun i mem => ?_, nofun⟩
      obtain ⟨bars, untaken, -⟩ := visits.barred i mem
      exact ⟨bars, untaken, fun same => free (Option.some.inj same ▸ bars)⟩
  · exact sound

theorem dropLine_queued (s : Sessions) (id i : SessionId) :
    s.queued i = linesOf i ((s.queued id).head?.toList.map fun line => (id, line)) ++
      (s.adjust id Session.dropLine).queued i := by
  rw [s.queued_adjust id (f := Session.dropLine) fun _ => rfl]
  by_cases here : i = id
  · subst here
    rw [if_pos rfl, Sessions.queued]
    cases s.handle? i with
    | none => rfl
    | some x =>
      cases waiting : x.input <;> simp [Session.dropLine, waiting, linesOf]
  · rw [if_neg here]
    cases (s.queued id).head? <;> simp [linesOf, Ne.symm here]

theorem Sound.pop (sound : r.Sound) (under : r.taking = some t) : (r.pop t).Sound := by
  have visits := sound.visits t under
  have once := visits.once
  unfold Reception.pop
  split
  · rename_i id cleared
    rw [cleared] at once
    have one : (((r.sessions.queued id).head?.toList.map fun line => (id, line)).map
        Prod.fst).Sublist [id] := by
      cases (r.sessions.queued id).head? <;> simp
    refine ⟨?_, fun i => ?_, fun t' under' => ?_, sound.fair⟩
    · exact sound.hall.adjust id (f := Session.dropLine) (fun _ => rfl) rfl rfl rfl
        (fun _ hi => .inl hi)
        (fun _ _ _ keeps => ⟨keeps.counted, keeps.whole, keeps.once, keeps.present, keeps.parted,
          keeps.open', keeps.listed⟩)
        (fun _ _ _ keeps => keeps.of_same rfl rfl Iff.rfl) sound.hall.seen
    · have books := sound.books i
      rw [inHand_eq under, Option.elim_some] at books
      change linesOf i r.pushed = linesOf i r.handed ++ linesOf i (t.lines ++ _) ++
        (r.sessions.adjust id Session.dropLine).queued i
      rw [books, linesOf_append, List.append_assoc, List.append_assoc, List.append_assoc,
        ← dropLine_queued r.sessions id i]
    · obtain rfl := Option.some.inj under'
      refine ⟨?_, fun i mem => ?_, fun before => ?_⟩
      · rw [List.map_append, Option.toList_none, List.append_nil]
        exact once.sublist ((one.append_left _).append (List.Sublist.refl _))
      · obtain ⟨bars, untaken, unlooked⟩ := visits.barred i mem
        refine ⟨Sessions.bars_adjust _ id (f := Session.dropLine) (fun _ => rfl)
          (fun _ stands => stands) i bars, ?_, nofun⟩
        rw [List.map_append, List.mem_append, not_or]
        refine ⟨untaken, fun taken => unlooked ?_⟩
        rw [cleared, List.mem_singleton.1 (one.subset taken)]
      · rw [(visits.empty before).2] at cleared
        cases cleared
  · exact sound

theorem Sound.finish (sound : r.Sound) (under : r.taking = some t) : (r.finish t).Sound := by
  have visits := sound.visits t under
  have once := visits.once
  unfold Reception.finish
  split
  · rename_i ahead cleared
    rw [ahead, cleared] at once
    have apart : (t.lines.map Prod.fst).Nodup := by simpa using once
    refine ⟨sound.hall, fun id => ?_, nofun, fun c mem => ?_⟩
    · have books := sound.books id
      rw [inHand_eq under, Option.elim_some] at books
      have same := linesOf_perm (inOrder_perm t.lines).symm apart id
      change linesOf id r.pushed =
        linesOf id ((r.handouts ++ [_]).flatMap Handout.lines) ++ [] ++ r.sessions.queued id
      rw [books, handed_concat, linesOf_append, same, List.append_nil]
    · rcases List.mem_append.1 mem with old | new
      · exact sound.fair c old
      · rw [List.mem_singleton.1 new]
        refine ⟨inOrder_increasing apart, nofun, fun id barred taken => ?_⟩
        exact (visits.barred id barred).2.1 (((inOrder_perm t.lines).map Prod.fst).subset taken)
  · exact sound

theorem Sound.take (sound : r.Sound) (turn : Turn) : (r.take turn).Sound := by
  cases under : r.taking with
  | none =>
    unfold Reception.take
    rw [under]
    cases turn with
    | begin => exact sound.begin under
    | hall turn => exact sound.meanwhile turn
    | collect | look | pop | finish => exact sound
  | some t =>
    unfold Reception.take
    rw [under]
    cases turn with
    | begin => exact sound
    | collect order => exact sound.collect under order
    | look => exact sound.look under
    | pop => exact sound.pop under
    | finish => exact sound.finish under
    | hall turn => exact sound.meanwhile turn

theorem start_sound (timeout : Nat) : (start timeout).Sound where
  hall := Hall.start_sound timeout
  books := fun _ => rfl
  visits := nofun
  fair := nofun

theorem run_sound (sound : r.Sound) (turns : List Turn) : (r.run turns).Sound := by
  induction turns generalizing r with
  | nil => exact sound
  | cons turn turns ih => exact ih (sound.take turn)

theorem Sound.handed_prefix (sound : r.Sound) (id : SessionId) :
    linesOf id r.handed <+: linesOf id r.pushed := by
  rw [sound.books id, List.append_assoc]
  exact List.prefix_append _ _

theorem Sound.registered_books (sound : r.Sound) {x : Session}
    (mem : x ∈ r.sessions.registered) :
    linesOf x.id r.pushed = linesOf x.id r.handed ++ linesOf x.id r.inHand ++ x.input := by
  have found := Hall.handle?_of_mem sound.hall.ids (List.mem_of_mem_filter mem)
  rw [sound.books x.id, Sessions.queued, found]
  rfl

end Reception
end MooCore
