import MooCore.Proofs.Sessions.Guards
/-!
# Who holds a session

Between two operations on the registry the holds that are alive are known, and the count of a
session is the number of its holds. Whatever is done to the registry, no hold is lost and none comes
from nowhere; a session that nobody holds is closed when its turn comes.
-/

set_option autoImplicit false
namespace MooCore
namespace Sessions

variable {r r' : Sessions} {holds holds' : List SessionId} {id i : SessionId} {s : Session}

/-- The registry with nothing under way and the holds that are alive. -/
def hall (r : Sessions) (holds : List SessionId) : Hall :=
  { sessions := r, next := r.all.length + 1, guards := holds }

/-- These are the holds on the sessions. -/
def HeldBy (r : Sessions) (holds : List SessionId) : Prop := (r.hall holds).Sound

/-- What is done to the sessions without taking or ending a hold. -/
inductive Visit where
  | enter (now : Instant) (peer : String)
  | touch (id : SessionId) (t : Session.Touch)
  | takeInput
  | suspendInput (on : Bool)
  | tryClose (id : SessionId)
  | sweep (now : Instant)
  | closeAll

def Visit.carryOut (r : Sessions) : Visit → Sessions
  | enter now peer => (r.openSession now peer).2
  | touch id t => r.adjust id (·.touch t)
  | takeInput => r.takeInput.2
  | suspendInput on => (r.setInputSuspended on).2
  | tryClose id => (r.tryClose id).2
  | sweep now => (r.sweep now).2
  | closeAll => r.closeAll.2

namespace HeldBy
open Hall

theorem of_hall {h : Hall} (sound : h.Sound) (free : h.closing = none) (arrived : h.coming = [])
    (next : h.next = h.sessions.all.length + 1) : h.sessions.HeldBy h.guards := by
  obtain ⟨distinct, numbered, known, keeps, -⟩ := sound
  rw [arrived] at distinct numbered
  rw [next] at numbered
  refine ⟨distinct, numbered, known, fun s hs => ?_, nofun⟩
  have unheld := ownHold_free free s.id
  exact (keeps s hs).of_same rfl unheld.symm (iff_of_false nofun (not_parting free s.id))

theorem activity (held : r.HeldBy holds) (mem : s ∈ r.all) : s.activity = holds.count s.id :=
  (Sound.settled held ⟨rfl, rfl⟩ mem).1

theorem perm (held : r.HeldBy holds) (same : holds.Perm holds') : r.HeldBy holds' where
  distinct := held.distinct
  numbered := held.numbered
  known := fun id mem => held.known id (same.mem_iff.2 mem)
  keeps := fun s hs => (held.keeps s hs).of_same (same.count_eq s.id).symm rfl Iff.rfl
  seen := nofun

theorem touchAll (held : r.HeldBy holds) {f : Session → Session}
    (touches : ∀ s, f s = s ∨ ∃ t, f s = s.touch t) (all : r'.all = r.all.map f) :
    r'.HeldBy holds := by
  have ids : r'.all.map Session.id = r.all.map Session.id := by
    rw [all, List.map_map]
    refine List.map_congr_left fun s _ => ?_
    rcases touches s with same | ⟨t, touched⟩
    · exact congrArg Session.id same
    · exact (congrArg Session.id touched).trans (touch_keeps s t).1
  have known : (r'.hall holds).sessions.all.map Session.id = r.all.map Session.id := ids
  refine ⟨?_, ?_, ?_, fun s hs => ?_, nofun⟩
  · rw [known]
    exact held.distinct
  · have next : (r'.hall holds).next = (r.hall holds).next := by
      simp only [hall, all, List.length_map]
    rw [known, next]
    exact held.numbered
  · rw [known]
    exact held.known
  · have mem : s ∈ r.all.map f := all ▸ hs
    obtain ⟨old, there, rfl⟩ := List.mem_map.1 mem
    have keeps : (r'.hall holds).Keeps old := (held.keeps old there).of_same rfl rfl Iff.rfl
    rcases touches old with same | ⟨t, touched⟩
    · rw [same]
      exact keeps
    · rw [touched]
      exact keeps.touch t

theorem same (held : r.HeldBy holds) (all : r'.all = r.all) : r'.HeldBy holds :=
  held.touchAll (f := fun s => s) (fun _ => Or.inl rfl) (by rw [all, List.map_id'])

theorem adjust (held : r.HeldBy holds) (id : SessionId) (t : Session.Touch) :
    (r.adjust id (·.touch t)).HeldBy holds :=
  held.touchAll (f := fun s => if s.id = id then s.touch t else s)
    (fun s => by split <;> [exact Or.inr ⟨t, rfl⟩; exact Or.inl rfl]) rfl

theorem touch (held : r.HeldBy holds) (id : SessionId) (t : Session.Touch) :
    (r.touch id t).2.HeldBy holds := by
  rw [Sessions.touch, change]
  split
  · exact held.adjust id t
  · exact held

theorem send (held : r.HeldBy holds) (id : SessionId) (line : String) :
    (r.send id line).2.HeldBy holds := by
  rw [send_eq]
  split
  · exact held.adjust id (.send line)
  · exact held

theorem broadcast (held : r.HeldBy holds) (line : String) : (r.broadcast line).HeldBy holds := by
  have all (ss : List Session) : ∀ r : Sessions, r.HeldBy holds →
      (ss.foldl (fun r s => (r.send s.id line).2) r).HeldBy holds := by
    induction ss with
    | nil => exact fun _ held => held
    | cons s ss ih => exact fun r held => ih _ (held.send s.id line)
  exact all r.registered r held

theorem takeInput (held : r.HeldBy holds) : r.takeInput.2.HeldBy holds := by
  unfold Sessions.takeInput
  split
  · exact held
  · refine held.touchAll (fun s => ?_) rfl
    rw [withoutLine]
    split
    · exact Or.inr ⟨.takeLine, rfl⟩
    · exact Or.inl rfl

theorem enter (held : r.HeldBy holds) (now : Instant) (peer : String) :
    (r.openSession now peer).2.HeldBy holds := by
  let numbered : Hall := (r.hall holds).take .number
  have there : r.all.length + 1 ∈ numbered.coming := List.mem_singleton_self _
  have entered : numbered.take (.enter (r.all.length + 1) now peer) =
      { numbered with
        sessions := (r.openSession now peer).2
        coming := numbered.coming.erase (r.all.length + 1) } := if_pos ⟨rfl, there⟩
  have sound := Sound.enter (Sound.number held) (r.all.length + 1) now peer
  change (numbered.take _).Sound at sound
  rw [entered] at sound
  refine of_hall sound rfl ?_ ?_
  · exact List.erase_cons_head ..
  · change r.all.length + 1 + 1 = (r.all ++ [_]).length + 1
    rw [List.length_append, List.length_singleton]

/-! ## Holds -/

theorem guard (held : r.HeldBy holds) (id : SessionId) :
    if (r.guard id).1 then (r.guard id).2.HeldBy (id :: holds) else (r.guard id).2 = r := by
  by_cases there : (r.get? id).isSome
  · have granted : r.guard id = (true, r.adjust id Session.hold) := if_pos there
    have taken : (r.hall holds).take (.acquire id) =
        { r.hall holds with sessions := (r.guard id).2, guards := holds ++ [id] } :=
      if_pos ⟨rfl, congrArg Prod.fst granted⟩
    have sound := Sound.acquire held id
    rw [taken] at sound
    have rested : (r.guard id).2.HeldBy (holds ++ [id]) :=
      of_hall sound rfl rfl (by rw [granted]; exact congrArg (· + 1) (List.length_map ..).symm)
    rw [if_pos (congrArg Prod.fst granted)]
    exact rested.perm (List.perm_append_singleton ..)
  · have refused : r.guard id = (false, r) := if_neg there
    rw [refused]
    rfl

theorem unguard (held : r.HeldBy (id :: holds)) : (r.unguard id).HeldBy holds :=
  of_hall (Sound.release held 0) rfl rfl (congrArg (· + 1) (List.length_map ..).symm)

/-! ## Closing -/

theorem closeEach (held : r.HeldBy holds) (ids : List SessionId) :
    (closeEach r ids).2.HeldBy holds := by
  have length (r : Sessions) (id : SessionId) : (r.tryClose id).2.all.length = r.all.length := by
    unfold Sessions.tryClose
    split
    · rfl
    · dsimp only
      split <;> simp only [Sessions.unguard, Sessions.adjust, List.length_map]
  have lengths (ids : List SessionId) : ∀ r : Sessions,
      (Hall.closeEach r ids).2.all.length = r.all.length := by
    induction ids with
    | nil => exact fun _ => rfl
    | cons id ids ih => exact fun r => (ih _).trans (length r id)
  obtain ⟨n, closed⟩ := run_close (h := r.hall holds) rfl ids
  have sound := run_sound held (.close ids :: List.replicate n .proceed)
  rw [closed] at sound
  exact of_hall sound rfl rfl (congrArg (· + 1) (lengths ids r).symm)

theorem tryClose (held : r.HeldBy holds) (id : SessionId) : (r.tryClose id).2.HeldBy holds :=
  held.closeEach [id]

theorem sweep (held : r.HeldBy holds) (now : Instant) : (r.sweep now).2.HeldBy holds := by
  rw [(closing_operations r 0 now).2.1]
  exact held.closeEach _

theorem closeAll (held : r.HeldBy holds) : r.closeAll.2.HeldBy holds := by
  rw [(closing_operations r 0 0).2.2]
  exact held.closeEach _

theorem visit (held : r.HeldBy holds) (v : Visit) : (v.carryOut r).HeldBy holds := by
  cases v with
  | enter now peer => exact held.enter now peer
  | touch id t => exact held.adjust id t
  | takeInput => exact held.takeInput
  | suspendInput on => exact held.same rfl
  | tryClose id => exact held.tryClose id
  | sweep now => exact held.sweep now
  | closeAll => exact held.closeAll

end HeldBy

/-! ## Closing what nobody holds -/

theorem handle?_adjust (r : Sessions) (i id : SessionId) {f : Session → Session}
    (same : ∀ s, (f s).id = s.id) :
    (r.adjust i f).handle? id = (r.handle? id).map fun s => if s.id = i then f s else s := by
  have ids (s : Session) : (if s.id = i then f s else s).id = s.id := by
    split
    · exact same s
    · rfl
  simp only [handle?, adjust, List.find?_map, Function.comp_def, ids]

theorem handle?_adjust_id (r : Sessions) (session id : SessionId) {f : Session → Session}
    (same : ∀ x, (f x).id = x.id) :
    (r.adjust session f).handle? id =
      (r.handle? id).map fun x => if id = session then f x else x := by
  rw [handle?_adjust r session id same]
  refine Option.map_congr fun x found => ?_
  have here : x.id = id := by simpa using List.find?_some found
  rw [here]

theorem get?_adjust_other (r : Sessions) {f : Session → Session} (same : ∀ s, (f s).id = s.id)
    (other : id ≠ i) : (r.adjust i f).get? id = r.get? id := by
  rw [get?, handle?_adjust r i id same, get?]
  congr 1
  cases found : r.handle? id with
  | none => rfl
  | some s =>
    have here : s.id = id := by simpa using List.find?_some found
    rw [Option.map_some, if_neg (here ▸ other)]

theorem tryClose_other (r : Sessions) (other : id ≠ i) : (r.tryClose i).2.get? id = r.get? id := by
  have hold (r : Sessions) := r.get?_adjust_other (f := Session.hold) (fun _ => rfl) other
  have shut (r : Sessions) := r.get?_adjust_other (f := Session.shut) (fun _ => rfl) other
  have letGo (r : Sessions) : (r.unguard i).get? id = r.get? id :=
    r.get?_adjust_other (f := Session.letGo) (fun _ => rfl) other
  have leave (r : Sessions) := r.get?_adjust_other (f := Session.leave) (fun _ => rfl) other
  unfold tryClose
  split
  · rfl
  · dsimp only
    split
    · exact (letGo _).trans (hold r)
    · exact (leave _).trans ((letGo _).trans ((shut _).trans (hold r)))

theorem tryClose_gone (r : Sessions) (i : SessionId) (gone : r.get? id = none) :
    (r.tryClose i).2.get? id = none := by
  by_cases same : id = i
  · subst same
    have nobody : r.tryClose id = (.notFound, r) := by simp only [tryClose, gone]
    rw [nobody]
    exact gone
  · exact (r.tryClose_other same).trans gone

theorem closeEach_gone (ids : List SessionId) (r : Sessions) (gone : r.get? id = none) :
    (Hall.closeEach r ids).2.get? id = none := by
  induction ids generalizing r with
  | nil => exact gone
  | cons i ids ih => exact ih _ (r.tryClose_gone i gone)

namespace HeldBy

theorem tryClose_free (held : r.HeldBy holds) (free : id ∉ holds) (there : (r.get? id).isSome) :
    (r.tryClose id).1 = .closed ∧ (r.tryClose id).2.get? id = none := by
  obtain ⟨s, found⟩ := Option.isSome_iff_exists.1 there
  have handle := (Option.filter_eq_some_iff.1 found).1
  have here : s.id = id := by simpa using List.find?_some handle
  have unheld : s.activity = 0 := by
    rw [held.activity (List.mem_of_find?_eq_some handle), here]
    exact List.count_eq_zero.2 free
  have alone : ¬ 1 < s.hold.activity := by
    change ¬ 1 < s.activity + 1
    omega
  simp only [Sessions.tryClose, found, if_neg alone, true_and]
  rw [get?, handle?_adjust _ _ _ (f := Session.leave) fun _ => rfl]
  refine Option.filter_eq_none_iff.2 fun s' left => ?_
  obtain ⟨s'', found'', rfl⟩ := Option.map_eq_some_iff.1 left
  have its : s''.id = id := by simpa using List.find?_some found''
  rw [if_pos its]
  exact Bool.false_ne_true

theorem closeEach_free (held : r.HeldBy holds) (free : id ∉ holds) {ids : List SessionId}
    (mem : id ∈ ids) (there : (r.get? id).isSome) :
    (id, .closed) ∈ (Hall.closeEach r ids).1 ∧ (Hall.closeEach r ids).2.get? id = none := by
  induction ids generalizing r with
  | nil => cases mem
  | cons i ids ih =>
    by_cases same : id = i
    · subst same
      obtain ⟨closed, gone⟩ := held.tryClose_free free there
      exact ⟨closed ▸ List.mem_cons_self .., closeEach_gone ids _ gone⟩
    · have later := (List.mem_cons.1 mem).resolve_left same
      obtain ⟨listed, gone⟩ := ih (held.tryClose i) later (by rwa [r.tryClose_other same])
      exact ⟨List.mem_cons_of_mem _ listed, gone⟩

theorem sweep_free (held : r.HeldBy holds) (now : Instant) (mem : s ∈ r.registered)
    (wants : s.disconnecting = true) (free : s.id ∉ holds) :
    s.id ∈ (r.sweep now).1.map Prod.fst ∧ (r.sweep now).2.get? s.id = none ∧
      ∀ s' ∈ (r.sweep now).2.all, s'.id = s.id → s'.transport.closings = 1 := by
  obtain ⟨mem, registered⟩ := List.mem_filter.1 mem
  have due : s.id ∈ r.registered.filterMap fun s => (r.dueFor? now s).map fun _ => s.id :=
    List.mem_filterMap.2 ⟨s, List.mem_filter.2 ⟨mem, registered⟩, by rw [dueFor?, if_pos wants]; rfl⟩
  have there : (r.get? s.id).isSome := by
    have found : r.get? s.id = _ := Hall.get?_of_mem (Hall.Sound.ids held) mem
    rw [found, if_pos registered]
    rfl
  obtain ⟨closed, gone⟩ := held.closeEach_free free due there
  have swept := (Hall.closing_operations r 0 now).2.1
  have listed := (Hall.tryCloseAll_eq .closed r
    (r.registered.filterMap fun s => (r.dueFor? now s).map fun why => (s.id, why))).2
  rw [← swept] at gone
  refine ⟨?_, gone, fun s' mem' same => ?_⟩
  · rw [Sessions.sweep, listed, List.map_filterMap]
    simp only [Option.map_map, Function.comp_def]
    exact List.mem_map.2 ⟨_, List.mem_filter.2 ⟨closed, decide_eq_true rfl⟩, rfl⟩
  · exact (Hall.Sound.settled (held.sweep now) ⟨rfl, rfl⟩ mem').2.1 (same ▸ gone)

end HeldBy
end Sessions
end MooCore
