import MooCore.Proofs.Sessions.Lines
/-!
# Calls that take lines

A call that takes lines goes from session to session while other threads go on. If nobody interferes
it gives the lines, and leaves the sessions, as one that is done in a single stroke.
-/

set_option autoImplicit false
namespace MooCore

/-! ## In a single stroke -/

namespace Sessions

def lineOf? (r : Sessions) (id : SessionId) : Option (SessionId × String) :=
  if r.bars id then none else (r.queued id).head?.map fun line => (id, line)

variable {r : Sessions} {order : List SessionId}

theorem foldl_adjust (r : Sessions) {f : Session → Session} (same : ∀ x, (f x).id = x.id)
    (once : order.Nodup) :
    order.foldl (fun r id => r.adjust id f) r =
      { r with all := r.all.map fun x => if x.id ∈ order then f x else x } := by
  induction order generalizing r with
  | nil => simp
  | cons id order ih =>
    obtain ⟨apart, once⟩ := List.nodup_cons.1 once
    rw [List.foldl_cons, ih _ once]
    simp only [Sessions.adjust, List.map_map]
    refine congrArg (fun all => { r with all }) (List.map_congr_left fun x _ => ?_)
    by_cases here : x.id = id
    · simp [here, same, apart]
    · simp [here]

theorem lineOf?_adjust (r : Sessions) (id i : SessionId) {f : Session → Session}
    (same : ∀ x, (f x).id = x.id) (other : i ≠ id) : (r.adjust id f).lineOf? i = r.lineOf? i := by
  unfold lineOf? queued bars
  simp [r.handle?_adjust_id id i same, other]

theorem adjust_takeLine (r : Sessions) (distinct : (r.all.map Session.id).Nodup) (id : SessionId) :
    r.adjust id (·.touch .takeLine) = if r.bars id then r else r.adjust id Session.dropLine := by
  have asked (x : Session) (mem : x ∈ r.all) (here : x.id = id) :
      r.bars id = x.disconnecting := by
    rw [bars, ← here, Hall.handle?_of_mem distinct mem, Option.any_some]
  split
  · rename_i bars
    refine (congrArg (fun all => { r with all }) ?_).trans rfl
    refine (List.map_congr_left fun x mem => ?_).trans (List.map_id' _)
    split
    · rename_i here
      exact if_pos ((asked x mem here).symm.trans bars)
    · rfl
  · rename_i bars
    refine congrArg (fun all => { r with all }) (List.map_congr_left fun x mem => ?_)
    split
    · rename_i here
      exact if_neg fun wants => bars ((asked x mem here).trans wants)
    · rfl

theorem filterMap_lineOf? (distinct : (r.all.map Session.id).Nodup)
    (perm : order.Perm (r.registered.map Session.id)) :
    (order.filterMap r.lineOf?).Perm (r.all.filterMap nextLine?) := by
  refine (perm.filterMap _).trans (.of_eq ?_)
  rw [List.filterMap_map, registered, List.filterMap_filter]
  refine List.filterMap_congr fun x mem => ?_
  have found := Hall.handle?_of_mem distinct mem
  cases there : x.registered <;> cases wants : x.disconnecting <;>
    simp [nextLine?, lineOf?, bars, queued, found, there, wants]

theorem lineOf?_fst {id : SessionId} {entry : SessionId × String}
    (given : r.lineOf? id = some entry) : entry.1 = id := by
  unfold lineOf? at given
  split at given
  · cases given
  · obtain ⟨_, _, rfl⟩ := Option.map_eq_some_iff.1 given
    rfl

theorem lineOf?_once (once : order.Nodup) : ((order.filterMap r.lineOf?).map Prod.fst).Nodup := by
  rw [List.map_filterMap]
  refine once.filterMap fun id i session first second => ?_
  obtain ⟨_, given, rfl⟩ := Option.map_eq_some_iff.1 first
  obtain ⟨_, given', same⟩ := Option.map_eq_some_iff.1 second
  rw [← lineOf?_fst given, ← lineOf?_fst given', same]

theorem map_takeLine (distinct : (r.all.map Session.id).Nodup)
    (perm : order.Perm (r.registered.map Session.id)) :
    (r.all.map fun x => if x.id ∈ order then x.touch .takeLine else x) = r.all.map withoutLine := by
  refine List.map_congr_left fun x mem => ?_
  have known : x.id ∈ order ↔ x.registered = true := by
    rw [perm.mem_iff, List.mem_map]
    constructor
    · rintro ⟨y, hy, same⟩
      obtain ⟨mem', there⟩ := List.mem_filter.1 hy
      exact List.inj_on_of_nodup_map distinct mem' mem same ▸ there
    · exact fun there => ⟨x, List.mem_filter.2 ⟨mem, there⟩, rfl⟩
  simp only [known, withoutLine]

end Sessions

namespace Reception

variable {r : Reception} {t : Taking} {order : List SessionId}

def call (order : List SessionId) : List Turn :=
  .begin :: .collect order :: (order.flatMap fun _ => [.look, .pop]) ++ [.finish]

theorem run_visit {id : SessionId} {rest : List SessionId}
    (distinct : (r.sessions.all.map Session.id).Nodup) (under : r.taking = some t)
    (ahead : t.ahead = some (id :: rest)) (cleared : t.cleared = none) :
    ∃ barred, r.run [.look, .pop] =
      { r with
        sessions := r.sessions.adjust id (·.touch .takeLine)
        taking := some { t with
          barred
          ahead := some rest
          lines := t.lines ++ (r.sessions.lineOf? id).toList } } := by
  rw [r.sessions.adjust_takeLine distinct, Sessions.lineOf?]
  cases bars : r.sessions.bars id with
  | true =>
    refine ⟨t.barred ++ [id], ?_⟩
    simp [run, take, under, look, ahead, cleared, bars, pop]
  | false =>
    refine ⟨t.barred, ?_⟩
    cases waiting : r.sessions.queued id <;>
      simp [run, take, under, look, ahead, cleared, bars, pop, waiting]

theorem run_append (r : Reception) (turns turns' : List Turn) :
    r.run (turns ++ turns') = (r.run turns).run turns' := List.foldl_append

/-- All sessions are come to. -/
theorem run_visits (distinct : (r.sessions.all.map Session.id).Nodup) (under : r.taking = some t)
    (ahead : t.ahead = some order) (cleared : t.cleared = none) (once : order.Nodup) :
    ∃ barred, r.run (order.flatMap fun _ => [.look, .pop]) =
      { r with
        sessions := order.foldl (fun s id => s.adjust id (·.touch .takeLine)) r.sessions
        taking := some { t with
          barred
          ahead := some []
          lines := t.lines ++ order.filterMap r.sessions.lineOf? } } := by
  induction order generalizing r t with
  | nil =>
    refine ⟨t.barred, ?_⟩
    simp only [List.flatMap_nil, List.filterMap_nil, List.append_nil, List.foldl_nil, ← ahead]
    exact congrArg (fun taking => { r with taking }) under
  | cons id order ih =>
    obtain ⟨apart, once⟩ := List.nodup_cons.1 once
    have ids := Hall.adjust_ids r.sessions id (f := (·.touch .takeLine))
      (Hall.touch_id .takeLine)
    have others : order.filterMap (r.sessions.adjust id (·.touch .takeLine)).lineOf? =
        order.filterMap r.sessions.lineOf? := List.filterMap_congr fun i mem =>
      r.sessions.lineOf?_adjust id i (Hall.touch_id .takeLine)
        fun same => apart (same ▸ mem)
    obtain ⟨barred, visited⟩ := run_visit distinct under ahead cleared
    obtain ⟨barred', later⟩ := ih
      (r := { r with
        sessions := r.sessions.adjust id (·.touch .takeLine)
        taking := some { t with
          barred
          ahead := some order
          lines := t.lines ++ (r.sessions.lineOf? id).toList } })
      (ids ▸ distinct) rfl rfl cleared once
    refine ⟨barred', ?_⟩
    rw [List.flatMap_cons, run_append, visited, later, others]
    cases given : r.sessions.lineOf? id <;> simp [given]

theorem inOrder_eq {xs ys : List (SessionId × String)} (perm : xs.Perm ys)
    (once : (xs.map Prod.fst).Nodup) : inOrder xs = inOrder ys := by
  have first := List.pairwise_map.1 (inOrder_increasing once)
  have second := List.pairwise_map.1
    (inOrder_increasing ((perm.map Prod.fst).nodup_iff.1 once))
  exact List.Perm.eq_of_pairwise
    (fun a b _ _ less more => absurd (Nat.lt_trans less more) (Nat.lt_irrefl _)) first second
    ((inOrder_perm xs).trans (perm.trans (inOrder_perm ys).symm))

def Turn.goesOn : Turn → Bool
  | .collect _ | .look | .pop | .finish => true
  | .begin | .hall _ => false

theorem run_free (free : r.taking = none) {turns : List Turn}
    (going : ∀ turn ∈ turns, turn.goesOn = true) : r.run turns = r := by
  induction turns with
  | nil => rfl
  | cons turn turns ih =>
    have idle : r.take turn = r := by
      have goes := going turn (List.mem_cons_self ..)
      cases turn with
      | begin | hall _ => cases goes
      | collect _ | look | pop | finish => rw [take, free, Option.elim_none]
    rw [run, List.foldl_cons, idle]
    exact ih fun turn mem => going turn (List.mem_cons_of_mem _ mem)

theorem run_suspended (free : r.taking = none) (suspended : r.sessions.inputSuspended = true) :
    r.run (call order) = r.begin := by
  have began : r.take .begin = r.begin := by rw [take, free, Option.elim_none]
  have still_free : r.begin.taking = none := by
    rw [begin, if_pos suspended]
    exact free
  rw [run, call, List.cons_append, List.cons_append, List.foldl_cons, began]
  refine run_free still_free fun turn mem => ?_
  simp only [List.mem_cons, List.mem_append, List.mem_flatMap, List.not_mem_nil, or_false] at mem
  rcases mem with rfl | ⟨_, _, rfl | rfl⟩ | rfl <;> rfl

theorem run_unsuspended (distinct : (r.sessions.all.map Session.id).Nodup) (free : r.taking = none)
    (still : r.closing = none) (perm : order.Perm (r.sessions.registered.map Session.id))
    (goes : r.sessions.inputSuspended = false) (once : order.Nodup) :
    ∃ barred, r.run (call order) =
      { r with
        sessions := order.foldl (fun s id => s.adjust id (·.touch .takeLine)) r.sessions
        handouts := r.handouts ++
          [⟨false, barred, inOrder (order.filterMap r.sessions.lineOf?)⟩] } := by
  let t : Taking := { barred := (r.sessions.all.map Session.id).filter r.sessions.bars }
  have began : r.take .begin = { r with taking := some t } := by
    simp only [take, free, Option.elim_none, begin, goes]
    rfl
  have collected : ({ r with taking := some t } : Reception).take (.collect order) =
      { r with taking := some { t with ahead := some order } } :=
    if_pos ⟨rfl, by rw [still]; rfl, perm⟩
  obtain ⟨barred, visited⟩ :=
    run_visits (r := { r with taking := some { t with ahead := some order } })
      distinct rfl rfl rfl once
  refine ⟨barred, ?_⟩
  rw [call, List.cons_append, List.cons_append, run, List.foldl_cons, began, List.foldl_cons,
    collected, ← run, run_append, visited]
  simp [run, take, finish, free, t]

/-- A call that nobody interferes with gives the lines, and leaves the sessions, as one that is done
in a single stroke. -/
theorem run_call (sound : r.Sound) (free : r.taking = none) (still : r.closing = none)
    (perm : order.Perm (r.sessions.registered.map Session.id)) :
    (r.run (call order)).sessions = r.sessions.takeInput.2 ∧
      ∃ barred, (r.run (call order)).handouts = r.handouts ++
        [⟨r.sessions.inputSuspended, barred, inOrder r.sessions.takeInput.1⟩] := by
  have distinct := sound.hall.ids
  cases suspended : r.sessions.inputSuspended with
  | true =>
    have taken : r.sessions.takeInput = ([], r.sessions) := if_pos suspended
    rw [run_suspended free suspended, begin, if_pos suspended, taken]
    exact ⟨rfl, _, by rw [inOrder, List.mergeSort_nil]⟩
  | false =>
    have taken : r.sessions.takeInput = (r.sessions.all.filterMap Sessions.nextLine?,
        { r.sessions with all := r.sessions.all.map Sessions.withoutLine }) :=
      if_neg (by simp [suspended])
    have once : order.Nodup :=
      perm.nodup_iff.2 (distinct.sublist (List.filter_sublist.map _))
    obtain ⟨barred, ran⟩ := run_unsuspended distinct free still perm suspended once
    have lines := Sessions.filterMap_lineOf? distinct perm
    rw [ran, r.sessions.foldl_adjust (Hall.touch_id .takeLine) once,
      Sessions.map_takeLine distinct perm, inOrder_eq lines (Sessions.lineOf?_once once), taken]
    exact ⟨rfl, barred, rfl⟩

end Reception
end MooCore
