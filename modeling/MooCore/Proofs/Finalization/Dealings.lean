import MooCore.Proofs.Finalization.Once
import MooCore.Proofs.Heap.Dealings
/-!
# Passes are moves

A pass marks the entries, gives every finalizer a reference, takes out what is done with and unpins
it; a queue that is read back is made, claimed and pushed, value by value. Both are runs of moves,
and with the operations of owners so is every course of work.
-/

set_option autoImplicit false
namespace MooCore

/-! ## A ledger from here on -/

namespace Workspace
open Heap

variable {s : SinkId} {h : Heap} {own pin : List Value}

theorem apart_of_mentions {es : List Entry} (le : ∀ c, mentions c (es.map Entry.value) ≤ 1) :
    es.Pairwise fun e e' => ∀ c, e'.value.cell? = some c → e.value.cell? ≠ some c := by
  induction es with
  | nil => exact .nil
  | cons e es ih =>
    refine .cons (fun e' he' c hc' hc => ?_) (ih fun c => ?_)
    · have one := le c
      rw [List.map_cons, mentions_cons, if_pos hc] at one
      have pos := mentions_pos (List.mem_map_of_mem he') hc'
      omega
    · have one := le c
      rw [List.map_cons, mentions_cons] at one
      omega

/-- The entries of a queue, whatever happened before, are a ledger from here on: those that were
started count as read back. -/
theorem Ledger.of_entries (b : Balanced h own pin)
    (kinds : ∀ e ∈ h.entries s, e.value.isFinalizable = true) :
    Ledger s (readBack (h.entries s)) h [] [] := by
  have one (c : CellId) : mentions c ((h.entries s).map Entry.value) ≤ 1 := by
    have le := mentions_entries_le (s := s) b c
    rw [mentions_append] at le
    omega
  have apart : (readBack (h.entries s)).Pairwise fun x y =>
      ∀ c, y.value.cell? = some c → x.value.cell? ≠ some c :=
    List.pairwise_map.2 ((apart_of_mentions one).filter _)
  have entry {x : Happening} (hx : x ∈ readBack (h.entries s)) :
      ∃ e ∈ h.entries s, e.finalized = true ∧ x = .restored e.value := by
    obtain ⟨e, he, rfl⟩ := List.mem_map.1 hx
    exact ⟨e, (List.mem_filter.1 he).1, (List.mem_filter.1 he).2, rfl⟩
  refine ⟨?_, ?_, kinds, ?_, ?_, nofun, .nil, nofun⟩
  · intro before x after split
    obtain ⟨e, -, -, rfl⟩ := entry (x := x) (by simp [split])
    rw [split, List.pairwise_append] at apart
    exact fun y hy c hc => apart.2.2 y hy _ (List.mem_cons_self ..) c hc
  · intro x hx c hc
    obtain ⟨e, he, -, rfl⟩ := entry hx
    exact claimed_of_pinned b (List.mem_append_right _ (mem_queued_of_entry he)) hc
  · intro e he unstarted x hx c hc hc'
    obtain ⟨e', he', started, rfl⟩ := entry hx
    obtain rfl := entry_unique b he he' hc hc'
    rw [started] at unstarted
    cases unstarted
  · intro e he started
    refine Or.inr ⟨Or.inr (List.mem_map.2 ⟨e, List.mem_filter.2 ⟨he, started⟩, rfl⟩), ?_⟩
    intro x hx c hc
    obtain ⟨e', -, -, rfl⟩ := entry hx
    rfl

end Workspace

/-! ## Passes -/

namespace Estate
open Heap
variable {h : Heap} {s : SinkId}

theorem takes_leads (own pin going : List Value) (done : Entry → Bool) (before es : List Entry)
    (there : h.queue? s = some (before ++ es)) :
    Leads ⟨h, own, pin, going⟩ ⟨h.putQueue s (before ++ es.filter fun e => !done e), own,
      (es.filter done).map Entry.value ++ pin, going⟩ := by
  induction es generalizing h before pin with
  | nil => exact (Step.mark h own pin going s _ _ there rfl).leads
  | cons e es ih =>
    by_cases taken : done e = true
    · have queue : (h.putQueue s (before ++ es)).queue? s = some (before ++ es) := by
        rw [queue?_putQueue there, if_pos rfl]
      have rest := ih (e.value :: pin) before queue
      have same : (h.putQueue s (before ++ es)).putQueue s (before ++ es.filter fun e => !done e) =
          h.putQueue s (before ++ es.filter fun e => !done e) := by
        simp [putQueue]
      rw [same] at rest
      have all := ((Step.take h own pin going s before es e there).leads.trans rest).trans
        (regroup_leads _ (.refl _) List.perm_middle)
      simpa [taken] using all
    · have rest := ih pin (before ++ [e]) (by simpa using there)
      simpa [taken] using rest

end Estate

namespace Workspace
open Heap Estate

def Pass.estate (p : Pass) (done : List Value) : Estate :=
  p.workspace.estate (p.kept.map Prod.snd) done

variable {s : SinkId} {past : List Happening} {w : Workspace} {p : Pass}
  {origin own pin fresh done : List Value} {v : Value} {dispatch : Dispatcher}
  {farewell : Farewell}

def Pass.estateWith (p : Pass) (v : Value) (done : List Value) : Estate :=
  p.workspace.estate (v :: p.kept.map Prod.snd) done

theorem fail_estate (p : Pass) (v : Value) (f : Option FinalizerFailure) :
    (p.fail v f).estate done = p.estate done := by
  cases f <;> rfl

theorem fail_estateWith (p : Pass) (u v : Value) (f : Option FinalizerFailure) :
    (p.fail v f).estateWith u done = p.estateWith u done := by
  cases f <;> rfl

theorem opened_leads {es : List Entry} (there : w.heap.queue? s = some es) :
    Leads (w.estate [] []) ((Pass.opened s w).estate []) := by
  refine (Step.mark w.heap _ _ [] s es _ there ?_).leads
  rw [entries_eq there]
  simp [Function.comp_def]

theorem surrender_leads (p : Pass) (v : Value) (failure : Option FinalizerFailure)
    (keep : Option String) :
    Leads (p.estateWith v done) (((p.fail v failure).surrender v keep).estate done) := by
  rw [← fail_estateWith p v v failure]
  cases keep with
  | none =>
    exact (regroup_leads _ List.perm_middle (.refl _)).trans (Estate.release_leads _ _ v)
  | some name =>
    refine regroup_leads _ (List.Perm.append_left _ ?_) (.refl _)
    simp [Pass.surrender, (List.perm_append_singleton v _).symm]

theorem finalize_leads (under : Pass.Underway s past origin p [] (v :: fresh) []) :
    Leads (p.estate []) ((p.finalize dispatch v).estate []) := by
  let w := { p.workspace with heap := p.workspace.heap.share v }
  have called := under.call { p.stats with finalized := p.stats.finalized + 1 }
  have queued : v ∈ p.workspace.heap.queued :=
    mem_queued_of_entry (under.ledger.marked v (List.mem_cons_self ..)).2
  have seen : v ∈ ((p.workspace.owned ++ p.kept.map Prod.snd) ++ p.workspace.heap.inside) ++
      ((p.workspace.pinned ++ []) ++ p.workspace.heap.queued) :=
    List.mem_append_right _ (List.mem_append_right _ queued)
  simp only [Pass.finalize]
  split
  · rename_i name _
    have stored : Sound s (w.store name v) (p.kept.map Prod.snd) [] ∧
        Later (Held []) w.heap (w.store name v).heap := store_sound
      (called.sound.balanced.perm List.perm_middle.symm (.refl _)) called.sound.queue
      called.sound.alive name
    rw [fail_estate]
    exact (shared_leads seen name).trans (run_leads stored.1.fair _)
  · -- The reference is the pass's own until the finalizer has ended.
    have shared : Leads (p.estate []) (w.estate (v :: p.kept.map Prod.snd) []) :=
      (Step.share _ _ _ [] v seen).leads.trans (regroup_leads _ List.perm_middle.symm (.refl _))
    refine Leads.trans ?_ (surrender_leads _ v _ _)
    exact shared.trans (run_leads called.sound.fair (dispatch w v).ops)

theorem finalizeAll_leads (leave : ∀ w v, ∀ op ∈ (dispatch w v).ops, op.LeavesQueue)
    (under : Pass.Underway s past origin p [] fresh []) :
    Leads (p.estate []) ((fresh.foldl (Pass.finalize dispatch) p).estate []) := by
  induction fresh generalizing p with
  | nil => exact .refl _
  | cons v fresh ih => exact (finalize_leads under).trans (ih (under.finalize leave))

theorem turned_leads (under : Pass.Underway s past origin p [] [] []) :
    Leads (p.estate []) ((p.turned s).estate (p.workspace.heap.endPass s).1) := by
  obtain ⟨es, there⟩ := under.sound.alive
  have taken := takes_leads (p.workspace.owned ++ p.kept.map Prod.snd) (p.workspace.pinned ++ [])
    [] p.workspace.heap.isDone [] es there
  refine taken.trans ?_
  rw [Pass.turned, endPass, entries_eq there]
  refine regroup_leads _ (.refl _) ?_
  rw [List.append_nil]
  exact List.perm_append_comm

theorem destroy_leads (under : Pass.Underway s past origin p [] [] (v :: done)) :
    Leads (p.estate (v :: done)) ((p.destroy farewell v).estate done) :=
  (run_leads under.sound.fair (farewell p.workspace v)).trans
    ((regroup_leads _ (.refl _) List.perm_middle).trans (Estate.dropPin_leads _ _ v))

theorem destroyAll_leads (leave : ∀ w v, ∀ op ∈ farewell w v, op.LeavesQueue)
    (under : Pass.Underway s past origin p [] [] done) :
    Leads (p.estate done) ((done.foldl (Pass.destroy farewell) p).estate []) := by
  induction done generalizing p with
  | nil => exact .refl _
  | cons v done ih => exact (destroy_leads under).trans (ih (under.destroy leave))

theorem storeAll_leads (w : Workspace) (kept : List (String × Value)) :
    Leads (w.estate (kept.map Prod.snd) []) ((w.storeAll kept).estate [] []) := by
  induction kept generalizing w with
  | nil => exact .refl _
  | cons nv kept ih =>
    have stored := (regroup_leads w.heap List.perm_middle (.refl (w.pinned ++ []))).trans
      (store_leads w nv.2 (kept.map Prod.snd) [] nv.1)
    exact stored.trans (ih _)

theorem Fair.ledger (sound : Sound s w [] []) (right : (w.estate [] []).Sound) :
    Ledger s (readBack (w.heap.entries s)) w.heap [] [] :=
  Ledger.of_entries sound.balanced fun e he =>
    right.kinds e.value (List.mem_append_right _ (mem_queued_of_entry he))

theorem drain_leads (fair : Fair w [] []) (leave : (Deed.drain dispatch farewell).LeavesQueue) :
    Leads (w.estate [] []) ((w.drain dispatch farewell).workspace.estate [] []) := fun right => by
  cases queue : w.queue with
  | none =>
    simp only [drain, queue]
    exact ⟨[], .nil _⟩
  | some s =>
    have sound := fair.sound queue
    obtain ⟨es, there⟩ := sound.alive
    have opened := Pass.Underway.opened sound (Fair.ledger sound right)
    have finalized := opened.finalizeAll leave.1
    have to_the_turn := ((opened_leads there).trans (finalizeAll_leads leave.1 opened)).trans
      (turned_leads finalized)
    rw [drain_eq queue]
    exact (to_the_turn.trans (destroyAll_leads leave.2 finalized.turned)).trans
      (storeAll_leads _ _) right

end Workspace

/-! ## Queues read back -/

namespace Intake
open Heap Estate

variable {own pin : List Value} {s : SinkId}

theorem readPinned_leads (i : Intake) (own pin : List Value) (sink : Option SinkId) :
    match i.readPinned sink with
    | (.ok v, i') => Leads ⟨i.heap, own, pin, []⟩ ⟨i'.heap, own, v :: pin, []⟩
    | (.error _, i') => Leads ⟨i.heap, own, pin, []⟩ ⟨i'.heap, own, pin, []⟩ := by
  have value := readValue_crafts (crafts_leads pin []) i own sink
  unfold readPinned
  cases read : i.readValue sink with
  | mk result mid =>
    rw [read] at value
    cases result with
    | error e => exact value
    | ok v =>
      cases granted : mid.heap.claim v with
      | error e =>
        simp only [granted]
        exact value.trans (release_leads _ own v)
      | ok heap =>
        simp only [granted]
        have claimed := Step.claim mid.heap heap (v :: own) pin [] v (by simp) granted
        exact (value.trans claimed.leads).trans (release_leads _ own v)

theorem restoreEntries_leads {i : Intake} (b : Balanced i.heap own pin)
    (alive : ∃ es, i.heap.queue? s = some es) (n : Nat) :
    Leads ⟨i.heap, own, pin, []⟩ ⟨(i.restoreEntries s n).2.heap, own, pin, []⟩ := by
  induction n generalizing i with
  | zero => exact .refl _
  | succ n ih =>
    unfold restoreEntries
    have same := i.readFlag_heap
    cases flag : i.readFlag with
    | mk result j =>
      rw [flag] at same
      change j.heap = i.heap at same
      rw [← same] at b alive ⊢
      cases result with
      | error e => exact .refl _
      | ok finalized =>
        have spec := @readPinned_spec (fun _ => False) _ _ _ b (some s)
        have pinned := readPinned_leads j own pin (some s)
        simp only
        cases read : j.readPinned (some s) with
        | mk result k =>
          rw [read] at spec pinned
          cases result with
          | error e => exact pinned
          | ok v =>
            obtain ⟨claimed, later, -⟩ := spec
            obtain ⟨es, there⟩ := Workspace.alive_of_later later alive
            have pushed := (Step.push k.heap own pin [] s es ⟨v, finalized⟩ there).leads
            have queue : (k.heap.pushEntry s ⟨v, finalized⟩).queue? s =
                some (es ++ [⟨v, finalized⟩]) := by
              rw [pushEntry, entries_eq there, queue?_putQueue there, if_pos rfl]
            exact (pinned.trans pushed).trans
              (ih (i := { k with heap := k.heap.pushEntry s ⟨v, finalized⟩ })
                (pushEntry_balanced claimed there) ⟨_, queue⟩)

end Intake

namespace Workspace
open Heap Estate

variable {w : Workspace} {d : Deed}

theorem restore_leads (fair : Fair w [] []) (source : Text.Source) :
    Leads (w.estate [] []) ((w.restore source).2.2.estate [] []) := by
  cases queue : w.queue with
  | none =>
    simp only [restore, queue]
    exact .refl _
  | some s =>
    simp only [restore, queue, Intake.restore, Intake.read]
    cases line : Reader.readLine source with
    | mk result rest =>
      cases result with
      | error e => exact .refl _
      | ok header =>
        simp only
        cases Intake.countBefore? pendingSuffix header with
        | none => exact .refl _
        | some n =>
          have read := Intake.restoreEntries_leads (i := { source := rest, heap := w.heap })
            fair.balanced (fair.present s queue) n
          simp only
          cases restored : Intake.restoreEntries s { source := rest, heap := w.heap } n with
          | mk result i =>
            rw [restored] at read
            cases result with
            | error e => exact read
            | ok u => exact read

/-- Deeds in whose passes finalizers and farewells leave the queue alone. -/
def Deed.Orderly : Deed → Prop
  | .act _ => True
  | d => d.LeavesQueue

theorem deed_leads (fair : Fair w [] []) (orderly : d.Orderly) :
    Leads (w.estate [] []) ((d.carryOut w).2.estate [] []) := by
  cases d with
  | act op => exact apply_leads fair op
  | drain dispatch farewell => exact drain_leads fair orderly
  | restore source => exact restore_leads fair source

theorem deed_fair (fair : Fair w [] []) (right : (w.estate [] []).Sound) (orderly : d.Orderly) :
    Fair (d.carryOut w).2 [] [] := by
  cases queue : w.queue with
  | none =>
    cases d with
    | act op => exact operation_fair fair op
    | drain dispatch farewell =>
      simp only [Deed.carryOut, drain, queue]
      exact fair
    | restore source =>
      simp only [Deed.carryOut, restore, queue]
      exact fair
  | some s =>
    have rest : Resting s _ w := ⟨fair.sound queue, Fair.ledger (fair.sound queue) right⟩
    cases d with
    | act op => exact operation_fair fair op
    | drain dispatch farewell =>
      have leaves : (Deed.drain dispatch farewell).LeavesQueue := orderly
      exact (rest.carryOut_one leaves).1.sound.fair
    | restore source =>
      have leaves : (Deed.restore source).LeavesQueue := trivial
      exact (rest.carryOut_one leaves).1.sound.fair

theorem deeds_lead (fair : Fair w [] []) (ds : List Deed) (orderly : ∀ d ∈ ds, d.Orderly) :
    Leads (w.estate [] []) ((carryOut w ds).2.estate [] []) := fun right => by
  induction ds generalizing w with
  | nil => exact ⟨[], .nil _⟩
  | cons d ds ih =>
    obtain ⟨now, run⟩ := deed_leads fair (orderly d (by simp)) right
    obtain ⟨more, further⟩ := ih (deed_fair fair right (orderly d (by simp)))
      (fun d hd => orderly d (List.mem_cons_of_mem _ hd)) (run.sound right)
    exact ⟨now ++ more, run.trans further⟩

/-- Every course of work, from an empty workspace, is a run of moves at whose end nothing is on its
way. -/
theorem deeds_are_moves (deeds : List Deed) (orderly : ∀ d ∈ deeds, d.Orderly) :
    let w := (carryOut start deeds).2
    ∃ seen, Runs {} seen ⟨w.heap, w.owned, w.pinned, []⟩ := by
  intro w
  have opened : Leads {} (start.estate [] []) := (Step.openQueue {} [] [] []).leads
  have run := opened.trans (deeds_lead start_sound.fair deeds orderly)
  rw [estate, List.append_nil, List.append_nil] at run
  exact run Estate.start_sound

end Workspace
end MooCore
