import Mathlib.Data.List.Nodup
import MooCore.Proofs.Checkpoint.Desk
/-!
# Everybody who waits is answered once

Who asks for an answer gets one, from the first checkpoint that begins afterwards, unless those who
wait are given up before it is answered for, or the answers for a later one are given first. Until
then they are on the list, and a checkpoint that has to answer them is under way or on its way.
-/

set_option autoImplicit false
namespace MooCore.Checkpoint

/-- How somebody stands: no checkpoint has begun since they asked, or this is the first that has.
The answers for it are theirs, or those for a later one that are given before. -/
inductive Standing where
  | unknown
  | asking
  | promised (run : Nat)
  | told (verdict : Verdict)

namespace Standing

def next (ticket : Ticket) : Standing → Happening → Standing
  | .unknown, .enlisted other => if other = ticket then .asking else .unknown
  | .asking, .began run => .promised run
  | .asking, .gaveUp fault => .told (.error fault)
  | .promised run, .answered other verdict => if run ≤ other then .told verdict else .promised run
  | .promised _, .gaveUp fault => .told (.error fault)
  | standing, _ => standing

def verdict? : Standing → Option Verdict
  | told verdict => some verdict
  | _ => none

def due (run : Nat) : Standing → Bool
  | promised first => first ≤ run
  | _ => false

theorem due_iff {standing : Standing} {run : Nat} :
    standing.due run = true ↔ ∃ first ≤ run, standing = .promised first := by
  cases standing <;> simp [due]

theorem next_eq_unknown {standing : Standing} {ticket : Ticket} {e : Happening}
    (other : ∀ t, e ≠ .enlisted t) : standing.next ticket e = .unknown ↔ standing = .unknown := by
  cases standing <;> cases e <;> simp_all [next]
  split <;> simp

end Standing

namespace Coordinator

/-- The checkpoints that run: one or none. -/
def underWay (c : Coordinator) : Nat :=
  match c.phase with
  | .running _ => 1
  | .idle | .requested _ => 0

def endings (c : Coordinator) : Nat := c.runs - c.underWay

theorem endings_le (c : Coordinator) : c.endings ≤ c.runs := Nat.sub_le _ _

/-- Whether a checkpoint is on its way that has not begun. -/
def coming (c : Coordinator) : Bool :=
  match c.phase with
  | .idle => false
  | .requested _ => true
  | .running _ => c.followUp.isSome

/-- Nothing begins or ends and nobody comes or goes. -/
structure Keeps (c c' : Coordinator) : Prop where
  runs : c'.runs = c.runs
  underWay : c'.underWay = c.underWay
  waiting : c'.waiting = c.waiting
  coming : c.coming = true → c'.coming = true

variable {c c' : Coordinator} {reason : Reason} {now : Instant}

theorem Keeps.endings (k : Keeps c c') : c'.endings = c.endings := by
  rw [Coordinator.endings, k.runs, k.underWay, Coordinator.endings]

theorem request_keeps (c : Coordinator) (reason : Reason) : Keeps c (c.request reason).2 := by
  unfold request
  split <;> constructor <;> simp_all [underWay, coming]

theorem request_coming (c : Coordinator) (reason : Reason) :
    (c.request reason).2.coming = true := by
  unfold request
  split <;> simp_all [coming]

theorem takeTimer_keeps (c : Coordinator) (now : Instant) : Keeps c (c.takeTimer now) := by
  unfold takeTimer
  split
  · rename_i due
    have idle : c.phase = .idle := (of_decide_eq_true due).1
    constructor <;> simp [underWay, coming, idle]
  · exact ⟨rfl, rfl, rfl, id⟩

theorem begin_some (begun : c.begin = (some reason, c')) :
    c.underWay = 0 ∧ c'.runs = c.runs + 1 ∧ c'.underWay = 1 ∧ c'.waiting = c.waiting := by
  unfold begin at begun
  split at begun
  · rename_i requested
    obtain ⟨-, rfl⟩ := Prod.mk.inj begun
    simp [underWay, requested]
  · simp at begun
  · simp at begun

theorem begin_none (idle : c.begin = (none, c')) : c' = c := by
  unfold begin at idle
  split at idle <;> simp_all

/-- What a poll says once it has dealt with the signal. -/
def announces (c : Coordinator) (now : Instant) : Option Reason := (c.takeTimer now).begin.1

theorem announces_of_coming (coming : c.coming = true) (free : c.underWay = 0) (now : Instant) :
    (c.announces now).isSome = true := by
  cases phase : c.phase with
  | idle => simp [Coordinator.coming, phase] at coming
  | requested reason => simp [announces, takeTimer, isDue, begin, phase]
  | running reason => simp [underWay, phase] at free

theorem settle_none (idle : c.settle now = (none, c')) : c' = c := by
  unfold settle at idle
  split at idle <;> simp_all

theorem settle_some (settled : c.settle now = (some reason, c')) :
    c.underWay = 1 ∧ c'.runs = c.runs ∧ c'.underWay = 0 ∧ c'.waiting = c.waiting ∧
      c'.coming = c.coming := by
  unfold settle at settled
  split at settled
  · rename_i running
    obtain ⟨-, rfl⟩ := Prod.mk.inj settled
    cases again : c.followUp <;> simp [underWay, coming, running, again]
  · simp at settled
  · simp at settled

def listing (c : Coordinator) (waiting : List Waiting) : Coordinator := { c with waiting }

@[simp] theorem listing_runs {ws : List Waiting} : (c.listing ws).runs = c.runs := rfl

@[simp] theorem listing_underWay {ws : List Waiting} : (c.listing ws).underWay = c.underWay := rfl

@[simp] theorem listing_endings {ws : List Waiting} : (c.listing ws).endings = c.endings := rfl

@[simp] theorem listing_waiting {ws : List Waiting} : (c.listing ws).waiting = ws := rfl

@[simp] theorem listing_coming {ws : List Waiting} : (c.listing ws).coming = c.coming := rfl

end Coordinator

namespace Desk

def newcomer (d : Desk) : Waiting := { target := d.coordinator.runs + 1, ticket := d.tickets }

/-- What one section may do. -/
inductive Effect (d : Desk) : Desk → Prop where
  | keeps (c : Coordinator) (heeding : Nat) (k : Coordinator.Keeps d.coordinator c) :
      Effect d { d with coordinator := c, heeding }
  | enlists (c : Coordinator)
      (k : Coordinator.Keeps (d.coordinator.listing (d.coordinator.waiting ++ [d.newcomer])) c)
      (coming : c.coming = true) :
      Effect d
        { d with
          coordinator := c
          tickets := d.tickets + 1
          log := d.log ++ [.enlisted d.tickets] }
  | begins (c : Coordinator) (free : d.coordinator.underWay = 0)
      (runs : c.runs = d.coordinator.runs + 1) (underWay : c.underWay = 1)
      (waiting : c.waiting = d.coordinator.waiting) :
      Effect d { d with coordinator := c, log := d.log ++ [.began c.runs] }
  | ends (c : Coordinator) (verdict : Verdict) (ran : d.coordinator.underWay = 1)
      (runs : c.runs = d.coordinator.runs) (underWay : c.underWay = 0)
      (waiting : c.waiting = d.coordinator.waiting) (coming : c.coming = d.coordinator.coming) :
      Effect d
        { d with
          coordinator := c
          endings := d.endings ++ [(c.runs, verdict)]
          log := d.log ++ [.ended c.runs verdict] }
  | answers (run : Nat) (verdict : Verdict) (endings : List (Nat × Verdict))
      (picked : d.endings.Perm ((run, verdict) :: endings)) :
      Effect d
        { d with
          coordinator :=
            d.coordinator.listing (d.coordinator.waiting.filter fun w => !(w.target ≤ run))
          endings
          log := d.log ++ [.answered run verdict]
          told := d.told ++
            (d.coordinator.waiting.filter (·.target ≤ run)).map fun w => (w.ticket, verdict) }
  | givesUp (fault : TaskFault) :
      Effect d
        { d with
          coordinator := d.coordinator.listing []
          log := d.log ++ [.gaveUp fault]
          told := d.told ++ d.coordinator.waiting.map fun w => (w.ticket, .error fault) }

theorem perm_eraseP {endings : List (Nat × Verdict)} {x : Nat × Verdict} {run : Nat}
    (found : endings.find? (·.1 = run) = some x) :
    endings.Perm (x :: endings.eraseP (·.1 = x.1)) := by
  obtain ⟨its, before, after, split, others⟩ := List.find?_eq_some_iff_append.1 found
  have same : x.1 = run := by simpa using its
  have apart : ∀ y ∈ before, ¬ (decide (y.1 = x.1)) = true := by
    intro y mem
    simpa [same] using others y mem
  rw [split, List.eraseP_append_right _ apart, List.eraseP_cons_of_pos (by simp)]
  exact List.perm_middle

theorem take_effect (d : Desk) (turn : Turn) : Effect d (d.take turn) := by
  have nothing : Effect d d := .keeps d.coordinator d.heeding ⟨rfl, rfl, rfl, id⟩
  cases turn with
  | ask reason => exact .keeps _ _ (Coordinator.request_keeps _ reason)
  | enlist reason =>
    exact .enlists _ (Coordinator.request_keeps _ reason) (Coordinator.request_coming _ reason)
  | signal => exact .keeps d.coordinator.signal _ ⟨rfl, rfl, rfl, id⟩
  | heed =>
    rw [take]
    split
    · exact .keeps { d.coordinator with signalled := false } _ ⟨rfl, rfl, rfl, id⟩
    · exact nothing
  | relay =>
    rw [take]
    split
    · exact nothing
    · exact .keeps _ _ (Coordinator.request_keeps _ .signal)
  | begin now =>
    have due := Coordinator.takeTimer_keeps d.coordinator now
    rw [take]
    split
    · rename_i c idle
      exact .keeps c d.heeding (Coordinator.begin_none idle ▸ due)
    · rename_i reason c begun
      obtain ⟨free, runs, underWay, waiting⟩ := Coordinator.begin_some begun
      exact .begins c (due.underWay ▸ free) (due.runs ▸ runs) underWay (due.waiting ▸ waiting)
  | settle now verdict =>
    rw [take]
    split
    · rename_i c idle
      exact .keeps c d.heeding (Coordinator.settle_none idle ▸ ⟨rfl, rfl, rfl, id⟩)
    · rename_i reason c settled
      obtain ⟨ran, runs, underWay, waiting, coming⟩ := Coordinator.settle_some settled
      exact .ends c verdict ran runs underWay waiting coming
  | answer run =>
    rw [take]
    split
    · exact nothing
    · rename_i run verdict found
      exact .answers run verdict _ (perm_eraseP found)
  | giveUp fault => exact .givesUp fault

variable {d d' : Desk} {ticket : Ticket} {e : Happening} {run : Nat} {verdict : Verdict}

/-! ## How many checkpoints -/

/-- Checkpoints begin and end in the order of their numbers, and each that has ended is answered for
once, with what it was ended with. -/
structure Numbered (d : Desk) : Prop where
  begun : d.log.filterMap Happening.begun? = List.range' 1 d.coordinator.runs
  ended : (d.log.filterMap Happening.ended?).map Prod.fst = List.range' 1 d.coordinator.endings
  answered : (d.log.filterMap Happening.ended?).Perm
    (d.log.filterMap Happening.answered? ++ d.endings)
  within : d.coordinator.underWay ≤ d.coordinator.runs

theorem Numbered.effect (numbered : d.Numbered) (step : Effect d d') : d'.Numbered := by
  obtain ⟨begun, ended, answered, within⟩ := numbered
  cases step with
  | keeps c heeding k =>
    exact ⟨k.runs ▸ begun, k.endings ▸ ended, answered, by simpa only [k.runs, k.underWay]⟩
  | enlists c k =>
    constructor <;> simpa [List.filterMap_cons, Happening.begun?, Happening.ended?,
      Happening.answered?, k.runs, k.underWay, k.endings]
  | begins c free runs underWay waiting =>
    have endings : c.endings = d.coordinator.endings := by
      simp only [Coordinator.endings, runs, underWay, free, Nat.sub_zero, Nat.add_sub_cancel]
    constructor
    · simp [Happening.begun?, begun, runs, List.range'_concat, Nat.add_comm]
    · simpa [List.filterMap_cons, Happening.ended?, endings] using ended
    · simpa [List.filterMap_cons, Happening.ended?, Happening.answered?] using answered
    · simp only [runs, underWay, Nat.le_add_left]
  | ends c verdict ran runs underWay waiting coming =>
    have before : d.coordinator.runs = d.coordinator.endings + 1 := by
      rw [Coordinator.endings]
      omega
    have endings : c.endings = d.coordinator.endings + 1 := by
      rw [← before, Coordinator.endings, underWay, runs, Nat.sub_zero]
    constructor
    · simpa [List.filterMap_cons, Happening.begun?, runs] using begun
    · rw [endings, List.range'_concat, ← ended, runs, before]
      simp [Happening.ended?, Nat.add_comm]
    · simpa [List.filterMap_cons, Happening.ended?, Happening.answered?] using
        answered.append_right [(c.runs, verdict)]
    · simp only [underWay, Nat.zero_le]
  | answers run verdict endings picked =>
    refine ⟨?_, ?_, ?_, within⟩
    · simpa [List.filterMap_cons, Happening.begun?] using begun
    · simpa [List.filterMap_cons, Happening.ended?] using ended
    · simpa [List.filterMap_cons, Happening.ended?, Happening.answered?] using
        answered.trans (picked.append_left _)
  | givesUp fault =>
    refine ⟨?_, ?_, ?_, within⟩
    · simpa [List.filterMap_cons, Happening.begun?] using begun
    · simpa [List.filterMap_cons, Happening.ended?] using ended
    · simpa [List.filterMap_cons, Happening.ended?, Happening.answered?] using answered

theorem Numbered.le_endings (numbered : d.Numbered) {x : Nat × Verdict} (pending : x ∈ d.endings) :
    x.1 ≤ d.coordinator.endings := by
  have ended := List.mem_map_of_mem (f := Prod.fst)
    (numbered.answered.symm.subset (List.mem_append_right _ pending))
  rw [numbered.ended, List.mem_range'_1] at ended
  omega

/-! ## Who waits -/

/-- Those who wait are owed an answer by a checkpoint that is not yet answered for, and if it has
not begun it is on its way. -/
structure Owed (d : Desk) : Prop where
  unserved : ∀ w ∈ d.coordinator.waiting, d.coordinator.endings < w.target ∨
    w.target ∈ d.endings.map Prod.fst
  near : ∀ w ∈ d.coordinator.waiting, w.target ≤ d.coordinator.runs + 1
  coming : ∀ w ∈ d.coordinator.waiting, w.target = d.coordinator.runs + 1 →
    d.coordinator.coming = true
  distinct : (d.coordinator.waiting.map Waiting.ticket).Nodup
  given : ∀ w ∈ d.coordinator.waiting, w.ticket < d.tickets

theorem Owed.effect (owed : d.Owed) (numbered : d.Numbered) (step : Effect d d') : d'.Owed := by
  obtain ⟨unserved, near, coming, distinct, given⟩ := owed
  cases step with
  | keeps c heeding k =>
    constructor <;> simp only [k.waiting, k.endings, k.runs]
    · exact unserved
    · exact near
    · exact fun w mem next => k.coming (coming w mem next)
    · exact distinct
    · exact given
  | enlists c k sure =>
    have apart : d.tickets ∉ d.coordinator.waiting.map Waiting.ticket := by
      intro mem
      obtain ⟨w, mem, same⟩ := List.mem_map.1 mem
      exact Nat.ne_of_lt (given w mem) same
    have bound := d.coordinator.endings_le
    constructor <;> simp only [k.waiting, k.endings, k.runs, Coordinator.listing_waiting,
      Coordinator.listing_endings, Coordinator.listing_runs, newcomer, List.mem_append,
      List.mem_singleton, or_imp, forall_and, forall_eq]
    · exact ⟨unserved, Or.inl (by omega)⟩
    · exact ⟨near, Nat.le_refl _⟩
    · exact ⟨fun _ _ _ => sure, fun _ => sure⟩
    · rw [List.map_append, List.nodup_append]
      exact ⟨distinct, by simp, by simpa using apart⟩
    · exact ⟨fun w mem => Nat.lt_succ_of_lt (given w mem), Nat.lt_succ_self _⟩
  | begins c free runs underWay waiting =>
    have endings : c.endings = d.coordinator.endings := by
      simp only [Coordinator.endings, runs, underWay, free, Nat.sub_zero, Nat.add_sub_cancel]
    constructor <;> simp only [waiting, runs, endings]
    · exact unserved
    · exact fun w mem => Nat.le_succ_of_le (near w mem)
    · intro w mem next
      have := near w mem
      omega
    · exact distinct
    · exact given
  | ends c verdict ran runs underWay waiting same =>
    have within := numbered.within
    have last : d.coordinator.runs = d.coordinator.endings + 1 := by
      rw [Coordinator.endings]
      omega
    have endings : c.endings = d.coordinator.endings + 1 := by
      rw [← last, Coordinator.endings, underWay, runs, Nat.sub_zero]
    constructor <;> simp only [waiting, runs, same, endings]
    · intro w mem
      rw [List.map_append, List.mem_append]
      rcases unserved w mem with later | pending
      · rcases Nat.lt_or_eq_of_le (Nat.succ_le_of_lt later) with further | here
        · exact Or.inl further
        · exact Or.inr (Or.inr (by simp [last, ← here]))
      · exact Or.inr (Or.inl pending)
    · exact near
    · exact coming
    · exact distinct
    · exact given
  | answers run verdict endings picked =>
    constructor <;> simp only [Coordinator.listing_waiting, Coordinator.listing_endings,
      Coordinator.listing_runs, Coordinator.listing_coming, List.mem_filter, Bool.not_eq_true',
      decide_eq_false_iff_not, and_imp]
    · intro w mem later
      refine (unserved w mem).imp_right fun pending => ?_
      have other : w.target ≠ run := by omega
      simpa [other] using (picked.map Prod.fst).subset pending
    · exact fun w mem _ => near w mem
    · exact fun w mem _ => coming w mem
    · exact distinct.sublist ((List.filter_sublist).map _)
    · exact fun w mem _ => given w mem
  | givesUp fault => constructor <;> simp

/-! ## Who is told what -/

def standing (d : Desk) (ticket : Ticket) : Standing :=
  d.log.foldl (Standing.next ticket) .unknown

def answersTo (d : Desk) (ticket : Ticket) : List Verdict :=
  (d.told.filter (·.1 = ticket)).map Prod.snd

/-- On the list are those who stand to be answered, and who does no longer has been told once. -/
structure Answered (d : Desk) : Prop where
  listed : ∀ w, w ∈ d.coordinator.waiting ↔ d.standing w.ticket = .promised w.target ∨
    d.standing w.ticket = .asking ∧ w.target = d.coordinator.runs + 1
  known : ∀ ticket, d.standing ticket = .unknown ↔ d.tickets ≤ ticket
  told : ∀ ticket, d.answersTo ticket = (d.standing ticket).verdict?.toList

theorem standing_append (more : d'.log = d.log ++ [e]) :
    d'.standing ticket = (d.standing ticket).next ticket e := by
  rw [standing, more, List.foldl_append, standing, List.foldl_cons, List.foldl_nil]

theorem answersTo_append {ws : List Waiting} (distinct : (ws.map Waiting.ticket).Nodup)
    (more : d'.told = d.told ++ ws.map fun w => (w.ticket, verdict)) :
    d'.answersTo ticket =
      d.answersTo ticket ++ if ticket ∈ ws.map Waiting.ticket then [verdict] else [] := by
  have once : ((ws.map fun w => (w.ticket, verdict)).filter (·.1 = ticket)).map Prod.snd =
      if ticket ∈ ws.map Waiting.ticket then [verdict] else [] := by
    clear more
    induction ws with
    | nil => rfl
    | cons w ws ih =>
      obtain ⟨apart, distinct⟩ := List.nodup_cons.1 distinct
      have ih := ih distinct
      by_cases here : w.ticket = ticket
      · rw [here] at apart
        rw [if_neg apart] at ih
        simpa [here] using ih
      · simpa [here, Ne.symm here] using ih
  rw [answersTo, more, List.filter_append, List.map_append, once, answersTo]

/-- Those who are on the list for a checkpoint or an earlier one are just those for whom its answers
are. -/
theorem Answered.served (answered : d.Answered) {run : Nat} (ended : run ≤ d.coordinator.endings)
    (ticket : Ticket) :
    ticket ∈ (d.coordinator.waiting.filter (·.target ≤ run)).map Waiting.ticket ↔
      (d.standing ticket).due run = true := by
  have bound := d.coordinator.endings_le
  rw [Standing.due_iff]
  constructor
  · intro mem
    obtain ⟨w, due, rfl⟩ := List.mem_map.1 mem
    obtain ⟨waits, early⟩ := List.mem_filter.1 due
    have early : w.target ≤ run := of_decide_eq_true early
    rcases (answered.listed w).1 waits with promised | ⟨-, target⟩
    · exact ⟨w.target, early, promised⟩
    · omega
  · rintro ⟨first, early, promised⟩
    have mem : { target := first, ticket } ∈ d.coordinator.waiting :=
      (answered.listed { target := first, ticket }).2 (Or.inl promised)
    exact List.mem_map.2 ⟨_, List.mem_filter.2 ⟨mem, decide_eq_true early⟩, rfl⟩

theorem Answered.on_list (answered : d.Answered) (ticket : Ticket) :
    ticket ∈ d.coordinator.waiting.map Waiting.ticket ↔
      d.standing ticket = .asking ∨ ∃ run, d.standing ticket = .promised run := by
  constructor
  · intro mem
    obtain ⟨w, waits, rfl⟩ := List.mem_map.1 mem
    rcases (answered.listed w).1 waits with promised | ⟨asking, -⟩
    · exact Or.inr ⟨_, promised⟩
    · exact Or.inl asking
  · rintro (asking | ⟨run, promised⟩)
    · exact List.mem_map.2 ⟨{ target := d.coordinator.runs + 1, ticket },
        (answered.listed _).2 (Or.inr ⟨asking, rfl⟩), rfl⟩
    · exact List.mem_map.2 ⟨{ target := run, ticket },
        (answered.listed _).2 (Or.inl promised), rfl⟩

theorem Answered.enlist (answered : d.Answered) {c : Coordinator}
    (k : Coordinator.Keeps (d.coordinator.listing (d.coordinator.waiting ++ [d.newcomer])) c) :
    Answered
      { d with
        coordinator := c
        tickets := d.tickets + 1
        log := d.log ++ [.enlisted d.tickets] } := by
  have new : d.standing d.tickets = .unknown := (answered.known _).2 (Nat.le_refl _)
  have standing : ∀ ticket, (d.standing ticket).next ticket (.enlisted d.tickets) =
      if ticket = d.tickets then .asking else d.standing ticket := by
    intro ticket
    split
    · rename_i here
      rw [here, new, Standing.next, if_pos rfl]
    · rename_i other
      cases d.standing ticket <;> simp [Standing.next, Ne.symm other]
  refine ⟨fun w => ?_, fun ticket => ?_, fun ticket => ?_⟩ <;>
    rw [standing_append rfl, standing]
  · simp only [k.waiting, k.runs, Coordinator.listing_waiting, Coordinator.listing_runs,
      List.mem_append, List.mem_singleton, answered.listed]
    obtain ⟨target, ticket⟩ := w
    by_cases here : ticket = d.tickets
    · simp [newcomer, here, new]
    · simp [newcomer, here]
  · by_cases here : ticket = d.tickets
    · simp [here]
    · rw [if_neg here, answered.known]
      exact ⟨fun le => Nat.lt_of_le_of_ne le (Ne.symm here), Nat.le_of_lt⟩
  · refine (answered.told ticket).trans ?_
    by_cases here : ticket = d.tickets
    · rw [if_pos here, here, new]
      rfl
    · rw [if_neg here]

theorem Answered.answer (answered : d.Answered) (owed : d.Owed)
    (ended : run ≤ d.coordinator.endings) (endings : List (Nat × Verdict)) :
    Answered
      { d with
        coordinator :=
          d.coordinator.listing (d.coordinator.waiting.filter fun w => !(w.target ≤ run))
        endings
        log := d.log ++ [.answered run verdict]
        told := d.told ++
          (d.coordinator.waiting.filter (·.target ≤ run)).map fun w => (w.ticket, verdict) } := by
  have bound := d.coordinator.endings_le
  refine ⟨fun w => ?_, fun ticket => ?_, fun ticket => ?_⟩ <;> rw [standing_append rfl]
  · simp only [Coordinator.listing_waiting, Coordinator.listing_runs, List.mem_filter,
      answered.listed, Bool.not_eq_true', decide_eq_false_iff_not]
    cases standing : d.standing w.ticket with
    | promised first =>
      by_cases early : first ≤ run
      · simp [Standing.next, early]
        omega
      · simp [Standing.next, early]
        omega
    | asking =>
      simp [Standing.next]
      omega
    | _ => simp [Standing.next]
  · exact Iff.trans (Standing.next_eq_unknown nofun) (answered.known ticket)
  · rw [answersTo_append (owed.distinct.sublist (List.filter_sublist.map _)) rfl, answered.told]
    have served := answered.served ended ticket
    cases standing : d.standing ticket with
    | promised first =>
      rw [standing] at served
      by_cases early : first ≤ run
      · rw [if_pos (served.2 (decide_eq_true early)), Standing.next, if_pos early]
        rfl
      · rw [if_neg fun due => early (of_decide_eq_true (served.1 due)), Standing.next, if_neg early]
        rfl
    | _ =>
      rw [standing] at served
      rw [if_neg fun due => nomatch served.1 due]
      simp [Standing.next]

theorem Answered.giveUp (answered : d.Answered) (owed : d.Owed) (fault : TaskFault) :
    Answered
      { d with
        coordinator := d.coordinator.listing []
        log := d.log ++ [.gaveUp fault]
        told := d.told ++ d.coordinator.waiting.map fun w => (w.ticket, .error fault) } := by
  refine ⟨fun w => ?_, fun ticket => ?_, fun ticket => ?_⟩ <;> rw [standing_append rfl]
  · simp only [Coordinator.listing_waiting, List.not_mem_nil, false_iff]
    cases d.standing w.ticket <;> simp [Standing.next]
  · exact Iff.trans (Standing.next_eq_unknown nofun) (answered.known ticket)
  · rw [answersTo_append owed.distinct rfl, answered.told]
    have waits := answered.on_list ticket
    cases standing : d.standing ticket <;>
      simp only [standing, reduceCtorEq, false_or, true_or, exists_false] at waits <;>
      simp [Standing.next, Standing.verdict?, waits]

theorem Answered.effect (answered : d.Answered) (owed : d.Owed) (numbered : d.Numbered)
    (step : Effect d d') : d'.Answered := by
  cases step with
  | keeps c heeding k =>
    refine ⟨fun w => ?_, answered.known, answered.told⟩
    simp only [k.waiting, k.runs]
    exact answered.listed w
  | enlists c k => exact answered.enlist k
  | begins c free runs underWay waiting =>
    refine ⟨fun w => ?_, fun ticket => ?_, fun ticket => ?_⟩ <;> rw [standing_append rfl]
    · simp only [waiting, answered.listed]
      cases d.standing w.ticket <;> simp [Standing.next, runs, eq_comm]
    · exact Iff.trans (Standing.next_eq_unknown nofun) (answered.known ticket)
    · refine (answered.told ticket).trans ?_
      cases d.standing ticket <;> rfl
  | ends c verdict ran runs underWay waiting same =>
    have standing : ∀ ticket, (d.standing ticket).next ticket (.ended c.runs verdict) =
        d.standing ticket := by
      intro ticket
      cases d.standing ticket <;> rfl
    refine ⟨fun w => ?_, fun ticket => ?_, fun ticket => ?_⟩ <;>
      rw [standing_append rfl, standing]
    · simp only [waiting, runs]
      exact answered.listed w
    · exact answered.known ticket
    · exact answered.told ticket
  | answers run verdict endings picked =>
    have ended := numbered.le_endings (picked.symm.subset (List.mem_cons_self ..))
    exact answered.answer owed ended endings
  | givesUp fault => exact answered.giveUp owed fault

/-! ## Whole runs -/

structure Sound (d : Desk) : Prop where
  numbered : d.Numbered
  owed : d.Owed
  answered : d.Answered

theorem Sound.effect (sound : d.Sound) (step : Effect d d') : d'.Sound :=
  ⟨sound.numbered.effect step, sound.owed.effect sound.numbered step,
    sound.answered.effect sound.owed sound.numbered step⟩

theorem start_sound (interval : Option Nat) (now : Instant) : (start interval now).Sound := by
  refine ⟨?_, ?_, ?_⟩ <;> constructor <;> simp [start, Coordinator.endings, Coordinator.underWay,
    standing, answersTo, Standing.verdict?]

theorem run_sound (sound : d.Sound) (turns : List Turn) : (d.run turns).Sound := by
  induction turns generalizing d with
  | nil => exact sound
  | cons turn turns ih => exact ih (sound.effect (take_effect d turn))

/-- No checkpoint is missing: as long as somebody waits, while no answers are due, one runs or is
requested. -/
theorem Sound.not_idle (sound : d.Sound) (settled : d.endings = [])
    (waits : d.coordinator.waiting ≠ []) : d.coordinator.phase ≠ .idle := by
  intro idle
  obtain ⟨w, mem⟩ := List.exists_mem_of_ne_nil _ waits
  have endings : d.coordinator.endings = d.coordinator.runs := by
    rw [Coordinator.endings, Coordinator.underWay, idle]
    exact Nat.sub_zero _
  have near := sound.owed.near w mem
  have next : w.target = d.coordinator.runs + 1 := by
    rcases sound.owed.unserved w mem with later | pending
    · omega
    · rw [settled] at pending
      exact absurd pending List.not_mem_nil
  have coming := sound.owed.coming w mem next
  rw [Coordinator.coming, idle] at coming
  cases coming

theorem Sound.coming (sound : d.Sound) (asking : d.standing ticket = .asking) :
    d.coordinator.coming = true := by
  have mem : { target := d.coordinator.runs + 1, ticket } ∈ d.coordinator.waiting :=
    (sound.answered.listed _).2 (Or.inr ⟨asking, rfl⟩)
  exact sound.owed.coming _ mem rfl

theorem Sound.followed (sound : d.Sound) (asking : d.standing ticket = .asking) {reason : Reason}
    (running : d.coordinator.phase = .running reason) : d.coordinator.followUp.isSome = true := by
  have coming := sound.coming asking
  rwa [Coordinator.coming, running] at coming

theorem begin_log {now : Instant} (begins : (d.coordinator.announces now).isSome = true) :
    (d.take (.begin now)).log = d.log ++ [.began (d.coordinator.runs + 1)] := by
  obtain ⟨reason, announces⟩ := Option.isSome_iff_exists.1 begins
  have begun : (d.coordinator.takeTimer now).begin =
      (some reason, (d.coordinator.takeTimer now).begin.2) := Prod.ext announces rfl
  have runs := (Coordinator.begin_some begun).2.1
  rw [(Coordinator.takeTimer_keeps d.coordinator now).runs] at runs
  rw [take, begun, ← runs]

/-! ## Checkpoints that end -/

/-- Who has asked is promised the next checkpoint that begins. A checkpoint that runs is ended with
any verdict; the answers for it are due until they are given, and they are given to those to whom it
or an earlier one was promised. If no earlier one is left to answer for, it was promised to them
all. -/
structure Serves (d : Desk) : Prop where
  begins : ∀ ticket now, d.standing ticket = .asking → d.coordinator.underWay = 0 →
    (d.take (.begin now)).standing ticket = .promised (d.coordinator.runs + 1)
  ends : ∀ reason now verdict, d.coordinator.phase = .running reason →
    (d.take (.settle now verdict)).endings = d.endings ++ [(d.coordinator.runs, verdict)]
  stays : ∀ x ∈ d.endings, ∀ turn, turn ≠ .answer x.1 → x ∈ (d.take turn).endings
  tells : ∀ x ∈ d.endings, ∀ ticket, (d.take (.answer x.1)).answersTo ticket =
    d.answersTo ticket ++ if (d.standing ticket).due x.1 then [x.2] else []
  inTurn : ∀ x ∈ d.endings, (∀ y ∈ d.endings, x.1 ≤ y.1) →
    ∀ ticket, (d.standing ticket).due x.1 = true → d.standing ticket = .promised x.1

theorem Numbered.endings_distinct (numbered : d.Numbered) : (d.endings.map Prod.fst).Nodup := by
  have distinct : ((d.log.filterMap Happening.ended?).map Prod.fst).Nodup := by
    rw [numbered.ended]
    exact List.nodup_range'
  have parted := ((numbered.answered.map Prod.fst).nodup_iff).1 distinct
  rw [List.map_append] at parted
  exact List.Nodup.of_append_right parted

theorem Numbered.find_ending (numbered : d.Numbered) {x : Nat × Verdict} (mem : x ∈ d.endings) :
    d.endings.find? (·.1 = x.1) = some x := by
  cases found : d.endings.find? (·.1 = x.1) with
  | none =>
    have other := List.find?_eq_none.1 found x mem
    simp at other
  | some y =>
    have same : y.1 = x.1 := by simpa using List.find?_some found
    rw [List.inj_on_of_nodup_map numbered.endings_distinct (List.mem_of_find?_eq_some found) mem
      same]

theorem take_pending_endings {x : Nat × Verdict} (mem : x ∈ d.endings) {turn : Turn}
    (other : turn ≠ .answer x.1) : x ∈ (d.take turn).endings := by
  cases turn with
  | ask | enlist | signal | giveUp => exact mem
  | heed | relay | begin =>
    rw [take]
    split <;> exact mem
  | settle =>
    rw [take]
    split
    · exact mem
    · exact List.mem_append_left _ mem
  | answer run =>
    rw [take]
    split
    · exact mem
    · rename_i run' verdict found
      have same : run' = run := by simpa using List.find?_some found
      refine (List.mem_eraseP_of_neg ?_).2 mem
      rw [decide_eq_true_eq, same]
      rintro rfl
      exact other rfl

theorem Sound.serves (sound : d.Sound) : d.Serves := by
  obtain ⟨numbered, owed, answered⟩ := sound
  constructor
  case begins =>
    intro ticket now asking free
    have begins := Coordinator.announces_of_coming
      (Sound.coming ⟨numbered, owed, answered⟩ asking) free now
    rw [standing_append (begin_log begins), asking, Standing.next]
  case ends =>
    intro reason now verdict running
    simp [take, Coordinator.settle, running]
  case stays => exact fun x mem turn other => take_pending_endings mem other
  case tells =>
    intro x mem ticket
    have served := answered.served (numbered.le_endings mem) ticket
    have told : (d.take (.answer x.1)).told = d.told ++
        (d.coordinator.waiting.filter (·.target ≤ x.1)).map fun w => (w.ticket, x.2) := by
      rw [take, numbered.find_ending mem]
      rfl
    rw [answersTo_append (owed.distinct.sublist (List.filter_sublist.map _)) told]
    simp only [served]
  case inTurn =>
    intro x mem first ticket due
    obtain ⟨run, early, promised⟩ := Standing.due_iff.1 due
    -- who is due still waits, so the checkpoint that was promised is among those left to answer for
    have ended := numbered.le_endings mem
    have waits := (answered.listed { target := run, ticket }).2 (Or.inl promised)
    rcases owed.unserved _ waits with later | pending
    · exact absurd later (Nat.not_lt.2 (Nat.le_trans early ended))
    · obtain ⟨y, left, rfl⟩ := List.mem_map.1 pending
      rw [promised, Nat.le_antisymm early (first y left)]

theorem Sound.finish_turns (sound : d.Sound) {reason : Reason}
    (running : d.coordinator.phase = .running reason) (now : Instant) (verdict : Verdict) :
    (d.run [.settle now verdict, .answer d.coordinator.runs]).coordinator =
        (d.coordinator.finish now verdict).2 ∧
      (d.run [.settle now verdict, .answer d.coordinator.runs]).told =
        d.told ++ (d.coordinator.finish now verdict).1.answers := by
  have within := sound.numbered.within
  have before : d.coordinator.endings < d.coordinator.runs := by
    simp only [Coordinator.endings, Coordinator.underWay, running] at within ⊢
    omega
  exact d.finish_turns now verdict fun x mem =>
    Nat.ne_of_lt (Nat.lt_of_le_of_lt (sound.numbered.le_endings mem) before)

/-- Whatever the callers do, and in whatever order: everybody who asked is answered once, by the
first checkpoint that began afterwards and with what it was ended with, unless those who wait were
given up before that, or the answers for a later one came first. Until then they are on the list,
and a checkpoint is there for them. A poll, or the end of a checkpoint, into which nobody else comes
is that of the coordinator. -/
theorem waiters_are_answered_once (interval : Option Nat) (now : Instant) (turns : List Turn) :
    let d := (start interval now).run turns
    d.Numbered ∧ d.Answered ∧ d.Serves ∧
      (d.endings = [] → d.coordinator.waiting ≠ [] → d.coordinator.phase ≠ .idle) ∧
      (∀ ticket reason, d.standing ticket = .asking → d.coordinator.phase = .running reason →
        d.coordinator.followUp.isSome = true) ∧
      (∀ now, d.heeding = 0 →
        (d.run [.heed, .relay, .begin now]).coordinator = (d.coordinator.poll now).2) ∧
      ∀ reason now verdict, d.coordinator.phase = .running reason →
        let finished := d.run [.settle now verdict, .answer d.coordinator.runs]
        finished.coordinator = (d.coordinator.finish now verdict).2 ∧
          finished.told = d.told ++ (d.coordinator.finish now verdict).1.answers := by
  intro d
  have sound : d.Sound := run_sound (start_sound interval now) turns
  exact ⟨sound.numbered, sound.answered, sound.serves, sound.not_idle,
    fun _ _ asking running => sound.followed asking running,
    fun now alone => d.poll_turns now alone,
    fun _ now verdict running => sound.finish_turns running now verdict⟩

/-- Who comes while a checkpoint runs has another one recorded, and is told by that one how it went
although it begins before the answers for the first one are given. -/
theorem latecomer_followed :
    let late := (start none 0).run [.ask .timer, .begin 1, .enlist .explicit]
    let settled := late.run
      [.settle 2 (.error .shuttingDown), .begin 3, .answer 1, .settle 4 (.ok ())]
    late.endings = [] ∧ late.coordinator.waiting ≠ [] ∧ late.coordinator.phase ≠ .idle ∧
      late.coordinator.followUp.isSome = true ∧
      settled.standing 0 = .promised 2 ∧ settled.told = [] ∧
      (settled.take (.answer 2)).answersTo 0 = [.ok ()] := by
  intro late settled
  obtain ⟨-, -, -, some_on_way, followed, -⟩ :=
    waiters_are_answered_once none 0 [.ask .timer, .begin 1, .enlist .explicit]
  obtain ⟨-, -, serves, -⟩ := waiters_are_answered_once none 0
    [.ask .timer, .begin 1, .enlist .explicit, .settle 2 (.error .shuttingDown), .begin 3,
      .answer 1, .settle 4 (.ok ())]
  exact ⟨rfl, by decide, some_on_way rfl (by decide), followed 0 .timer rfl rfl, rfl, rfl,
    serves.tells (2, .ok ()) (List.mem_singleton_self _) 0⟩

/-- Two checkpoints are ended at once, and the answers for the second one come first. Who was
promised the first one is told what the second one was ended with. -/
theorem overtaken_told_later :
    let d := (start none 0).run
      [.enlist .explicit, .begin 1, .settle 2 (.error (.checkpointFailed "disk full")),
        .ask .explicit, .begin 3, .settle 4 (.ok ()), .answer 2, .answer 1]
    d.log =
        [.enlisted 0, .began 1, .ended 1 (.error (.checkpointFailed "disk full")), .began 2,
          .ended 2 (.ok ()), .answered 2 (.ok ()),
          .answered 1 (.error (.checkpointFailed "disk full"))] ∧
      d.told = [(0, .ok ())] := ⟨rfl, rfl⟩

end Desk
end MooCore.Checkpoint
