import MooCore.Proofs.Checkpoint.Waiting
/-!
# No request is lost and none is made up

A request or a signal stays in sight until a checkpoint begins: in the flag, with the poll that has
taken it and has not yet asked, in the latch, or as the follow-up. So the next poll that finds no
checkpoint under way begins one. The other way round, a request that is folded into an earlier one
leaves no trace: the checkpoints that began, with the one in the latch and the one that is to
follow, are as many as the requests that were answered with yes.
-/

set_option autoImplicit false
namespace MooCore.Checkpoint

namespace Coordinator

variable {c c' : Coordinator} {reason : Reason} {now : Instant}

@[simp] theorem request_signalled (c : Coordinator) (reason : Reason) :
    (c.request reason).2.signalled = c.signalled := by
  unfold request
  split <;> rfl

@[simp] theorem takeTimer_signalled (c : Coordinator) (now : Instant) :
    (c.takeTimer now).signalled = c.signalled := by
  unfold takeTimer
  split <;> rfl

@[simp] theorem begin_signalled (c : Coordinator) : c.begin.2.signalled = c.signalled := by
  unfold begin
  split <;> rfl

@[simp] theorem settle_signalled (c : Coordinator) (now : Instant) :
    (c.settle now).2.signalled = c.signalled := by
  unfold settle
  split <;> rfl

theorem underWay_le (c : Coordinator) : c.underWay ≤ 1 := by
  unfold underWay
  split <;> omega

theorem takeSignal_keeps (c : Coordinator) : Keeps c c.takeSignal := by
  unfold takeSignal
  split
  · obtain ⟨runs, underWay, waiting, coming⟩ := request_keeps { c with signalled := false } .signal
    exact ⟨runs, underWay, waiting, coming⟩
  · exact ⟨rfl, rfl, rfl, id⟩

theorem underWay_of_announces (begins : (c.announces now).isSome = true) : c.underWay = 0 := by
  obtain ⟨reason, announces⟩ := Option.isSome_iff_exists.1 begins
  have begun : (c.takeTimer now).begin = (some reason, (c.takeTimer now).begin.2) :=
    Prod.ext announces rfl
  rw [← (takeTimer_keeps c now).underWay]
  exact (begin_some begun).1

theorem underWay_of_poll (begins : (c.poll now).1.isSome = true) : c.underWay = 0 :=
  (takeSignal_keeps c).underWay.symm.trans (underWay_of_announces begins)

/-! ## The books of the latch -/

def latched (c : Coordinator) : Nat :=
  match c.phase with
  | .requested _ => 1
  | .idle | .running _ => 0

def booked (c : Coordinator) : Nat := c.runs + c.latched + c.followUp.toList.length

theorem request_booked (c : Coordinator) (reason : Reason) :
    (c.request reason).2.booked = c.booked + (c.request reason).1.toNat := by
  unfold request
  split
  · rename_i idle
    simp [booked, latched, idle]
    omega
  · rfl
  · rename_i running
    cases again : c.followUp <;> simp [booked, latched, running, again]

theorem request_listing (c : Coordinator) (ws : List Waiting) (reason : Reason) :
    ((c.listing ws).request reason).1 = (c.request reason).1 := by
  cases phase : c.phase <;> simp [request, listing, phase]

theorem takeTimer_booked (c : Coordinator) (now : Instant) :
    (c.takeTimer now).booked = c.booked + (c.isDue now).toNat := by
  unfold takeTimer
  split
  · rename_i due
    have idle : c.phase = .idle := (of_decide_eq_true due).1
    simp [booked, latched, idle, due]
    omega
  · rename_i early
    simp [early]

theorem begin_booked (c : Coordinator) : c.begin.2.booked = c.booked := by
  unfold begin
  split
  · rename_i requested
    simp [booked, latched, requested]
  · rfl
  · rfl

theorem settle_booked (c : Coordinator) (now : Instant) : (c.settle now).2.booked = c.booked := by
  unfold settle
  split
  · rename_i running
    cases again : c.followUp <;> simp [booked, latched, running, again]
  · rfl
  · rfl

end Coordinator

namespace Desk

variable {d d' : Desk} {turn : Turn} {turns before after : List Turn} {now : Instant}

/-! ## What a request leaves behind -/

def Turn.requests : Turn → Bool
  | .ask _ | .enlist _ => true
  | .signal | .heed | .relay | .begin _ | .settle .. | .answer _ | .giveUp _ => false

def Pending (d : Desk) : Prop := 0 < d.heeding ∨ d.coordinator.coming = true

def Owing (d : Desk) : Prop := d.coordinator.signalled = true ∨ d.Pending

theorem Effect.runs_le (step : Effect d d') : d.coordinator.runs ≤ d'.coordinator.runs := by
  cases step with
  | keeps c heeding k => exact Nat.le_of_eq k.runs.symm
  | enlists c k => exact Nat.le_of_eq k.runs.symm
  | begins c free runs => exact runs ▸ Nat.le_succ _
  | ends c verdict ran runs => exact Nat.le_of_eq runs.symm
  | answers | givesUp => exact Nat.le_refl _

theorem Effect.coming (step : Effect d d') (coming : d.coordinator.coming = true)
    (none : d'.coordinator.runs = d.coordinator.runs) : d'.coordinator.coming = true := by
  cases step with
  | keeps c heeding k => exact k.coming coming
  | enlists c k sure => exact sure
  | begins c free runs =>
    have : c.runs = d.coordinator.runs := none
    omega
  | ends c verdict ran runs underWay waiting same => exact same ▸ coming
  | answers | givesUp => exact coming

theorem run_runs_le (d : Desk) (turns : List Turn) :
    d.coordinator.runs ≤ (d.run turns).coordinator.runs := by
  induction turns generalizing d with
  | nil => exact Nat.le_refl _
  | cons turn turns ih => exact Nat.le_trans (take_effect d turn).runs_le (ih (d.take turn))

theorem run_cons_runs (none : (d.run (turn :: turns)).coordinator.runs = d.coordinator.runs) :
    (d.take turn).coordinator.runs = d.coordinator.runs ∧
      ((d.take turn).run turns).coordinator.runs = (d.take turn).coordinator.runs := by
  have first := (take_effect d turn).runs_le
  have rest := run_runs_le (d.take turn) turns
  have whole : ((d.take turn).run turns).coordinator.runs = d.coordinator.runs := none
  omega

theorem Pending.relay (pending : d.Pending) : (d.take .relay).coordinator.coming = true := by
  rw [take]
  split
  · exact pending.resolve_left (by omega)
  · exact Coordinator.request_coming _ .signal

theorem take_coming (coming : d.coordinator.coming = true)
    (none : (d.take turn).coordinator.runs = d.coordinator.runs) :
    (d.take turn).coordinator.coming = true :=
  (take_effect d turn).coming coming none

theorem take_pending (pending : d.Pending)
    (none : (d.take turn).coordinator.runs = d.coordinator.runs) : (d.take turn).Pending := by
  obtain heeding | coming := pending
  · have stays : (d.take turn).heeding = d.heeding → (d.take turn).Pending :=
      fun same => Or.inl (same ▸ heeding)
    cases turn with
    | ask | enlist | signal | giveUp => exact stays rfl
    | heed =>
      rw [take]
      split
      · exact Or.inl (Nat.succ_pos _)
      · exact Or.inl heeding
    | relay => exact Or.inr (Pending.relay (Or.inl heeding))
    | begin => exact stays (by rw [take]; split <;> rfl)
    | settle => exact stays (by rw [take]; split <;> rfl)
    | answer => exact stays (by rw [take]; split <;> rfl)
  · exact Or.inr (take_coming coming none)

theorem take_signalled (signalled : d.coordinator.signalled = true) (other : turn ≠ .heed) :
    (d.take turn).coordinator.signalled = true := by
  cases turn with
  | ask | enlist => simpa [take, Coordinator.requestAnswer] using signalled
  | signal => rfl
  | heed => contradiction
  | relay =>
    rw [take]
    split
    · exact signalled
    · simpa using signalled
  | begin now =>
    have kept := Coordinator.begin_signalled (d.coordinator.takeTimer now)
    rw [take]
    split <;> simp_all
  | settle now =>
    have kept := Coordinator.settle_signalled d.coordinator now
    rw [take]
    split <;> simp_all
  | answer =>
    rw [take]
    split <;> exact signalled
  | giveUp => exact signalled

theorem take_owing (owing : d.Owing)
    (none : (d.take turn).coordinator.runs = d.coordinator.runs) : (d.take turn).Owing := by
  obtain signalled | pending := owing
  · by_cases heed : turn = .heed
    · subst heed
      simp [take, signalled, Owing, Pending]
    · exact Or.inl (take_signalled signalled heed)
  · exact Or.inr (take_pending pending none)

theorem take_requests (d : Desk) (requests : turn.requests = true) :
    (d.take turn).coordinator.coming = true ∧
      (d.take turn).coordinator.runs = d.coordinator.runs := by
  cases turn with
  | ask reason =>
    exact ⟨Coordinator.request_coming _ reason, (Coordinator.request_keeps _ reason).runs⟩
  | enlist reason =>
    exact ⟨Coordinator.request_coming _ reason, (Coordinator.request_keeps _ reason).runs⟩
  | signal | heed | relay | begin | settle | answer | giveUp => cases requests

theorem run_until_begin {P : Desk → Prop}
    (step : ∀ {d turn}, P d → (d.take turn).coordinator.runs = d.coordinator.runs → P (d.take turn))
    (holds : P d) (none : (d.run turns).coordinator.runs = d.coordinator.runs) :
    P (d.run turns) := by
  induction turns generalizing d with
  | nil => exact holds
  | cons turn turns ih =>
    obtain ⟨first, rest⟩ := run_cons_runs none
    exact ih (step holds first) rest

theorem run_signalled (signalled : d.coordinator.signalled = true) (unheeded : .heed ∉ turns) :
    (d.run turns).coordinator.signalled = true := by
  induction turns generalizing d with
  | nil => exact signalled
  | cons turn turns ih =>
    simp only [List.mem_cons, not_or] at unheeded
    exact ih (take_signalled signalled (Ne.symm unheeded.1)) unheeded.2

theorem run_append (d : Desk) (first rest : List Turn) :
    d.run (first ++ rest) = (d.run first).run rest := List.foldl_append

/-! ## A poll in the midst of others -/

/-- A poll that has taken the signal, if there was one, and has asked. Others come in `before`. -/
def handed (d : Desk) (before : List Turn) : Desk :=
  (d.take .heed).run (before ++ if d.coordinator.signalled then [.relay] else [])

def polling (d : Desk) (before after : List Turn) : Desk := (d.handed before).run after

theorem polling_alone (d : Desk) : (d.polling [] []).coordinator = d.coordinator.takeSignal := by
  by_cases signalled : d.coordinator.signalled
  · simp [polling, handed, run, take, signalled, Coordinator.takeSignal]
  · simp [polling, handed, run, take, signalled, Coordinator.takeSignal]

theorem handed_coming (owing : d.coordinator.signalled = true ∨ d.coordinator.coming = true)
    (none : (d.handed before).coordinator.runs = d.coordinator.runs) :
    (d.handed before).coordinator.coming = true := by
  by_cases signalled : d.coordinator.signalled = true
  · have heeded := (take_effect d .heed).runs_le
    have others := run_runs_le (d.take .heed) before
    have relayed := (take_effect ((d.take .heed).run before) .relay).runs_le
    have asked : d.handed before = ((d.take .heed).run before).take .relay := by
      rw [handed, if_pos signalled, run_append]
      rfl
    rw [asked] at none ⊢
    have holds : 0 < (d.take .heed).heeding := by
      rw [take, if_pos signalled]
      exact Nat.succ_pos _
    have pending : ((d.take .heed).run before).Pending :=
      run_until_begin take_pending (Or.inl holds) (by omega)
    exact pending.relay
  · have same : d.take .heed = d := if_neg signalled
    have asked : d.handed before = d.run before := by
      rw [handed, same, if_neg signalled, List.append_nil]
    rw [asked] at none ⊢
    exact run_until_begin (P := (·.coordinator.coming = true)) take_coming
      (owing.resolve_left signalled) none

/-- The last section of a poll begins a checkpoint if there was a signal to take, or a checkpoint on
its way, and none has begun since the poll took the signal. -/
theorem polling_begins (owing : d.coordinator.signalled = true ∨ d.coordinator.coming = true)
    (none : (d.polling before after).coordinator.runs = d.coordinator.runs)
    (free : (d.polling before after).coordinator.underWay = 0) (now : Instant) :
    ((d.polling before after).coordinator.announces now).isSome = true := by
  have heeded := (take_effect d .heed).runs_le
  have asked : (d.take .heed).coordinator.runs ≤ (d.handed before).coordinator.runs :=
    run_runs_le _ _
  have rest : (d.handed before).coordinator.runs ≤ (d.polling before after).coordinator.runs :=
    run_runs_le _ _
  have coming : (d.polling before after).coordinator.coming = true :=
    run_until_begin (P := (·.coordinator.coming = true)) take_coming
      (handed_coming owing (by omega)) (by rw [← polling]; omega)
  exact Coordinator.announces_of_coming coming free now

/-! ## How many requests were answered with yes -/

def arms (d : Desk) : Turn → Bool
  | .ask reason | .enlist reason => (d.coordinator.request reason).1
  | .relay => d.heeding != 0 && (d.coordinator.request .signal).1
  | .begin now => d.coordinator.isDue now
  | .signal | .heed | .settle .. | .answer _ | .giveUp _ => false

def armings (d : Desk) : List Turn → Nat
  | [] => 0
  | turn :: turns => (d.arms turn).toNat + (d.take turn).armings turns

theorem take_booked (d : Desk) (turn : Turn) :
    (d.take turn).coordinator.booked = d.coordinator.booked + (d.arms turn).toNat := by
  cases turn with
  | ask reason => exact Coordinator.request_booked _ reason
  | enlist reason =>
    have booked := Coordinator.request_booked
      (d.coordinator.listing (d.coordinator.waiting ++ [d.newcomer])) reason
    rwa [Coordinator.request_listing] at booked
  | signal => rfl
  | heed =>
    rw [take]
    split <;> rfl
  | relay =>
    cases holds : d.heeding with
    | zero => simp [take, arms, holds]
    | succ others =>
      have booked := Coordinator.request_booked d.coordinator .signal
      simpa [take, arms, holds] using booked
  | begin now =>
    have began : (d.take (.begin now)).coordinator = (d.coordinator.takeTimer now).begin.2 := by
      rw [take]
      split <;> simp [*]
    rw [began, Coordinator.begin_booked]
    exact Coordinator.takeTimer_booked _ now
  | settle now verdict =>
    have kept := Coordinator.settle_booked d.coordinator now
    rw [take]
    split <;> simp_all [arms]
  | answer =>
    rw [take]
    split <;> rfl
  | giveUp => rfl

theorem run_booked (d : Desk) (turns : List Turn) :
    (d.run turns).coordinator.booked = d.coordinator.booked + d.armings turns := by
  induction turns generalizing d with
  | nil => rfl
  | cons turn turns ih =>
    calc (d.run (turn :: turns)).coordinator.booked
        = (d.take turn).coordinator.booked + (d.take turn).armings turns := ih (d.take turn)
      _ = d.coordinator.booked + d.armings (turn :: turns) := by
        rw [take_booked, armings, Nat.add_assoc]

/-! ## Whole runs -/

/-- The next poll begins a checkpoint, unless one is under way when it has done or has begun since
it took the signal. -/
structure Due (d : Desk) : Prop where
  alone (free : d.coordinator.underWay = 0) (now : Instant) :
    (d.coordinator.poll now).1.isSome = true
  among (before after : List Turn) (now : Instant)
    (none : (d.polling before after).coordinator.runs = d.coordinator.runs)
    (free : (d.polling before after).coordinator.underWay = 0) :
    ((d.polling before after).coordinator.announces now).isSome = true ∧
      ((d.polling before after).take (.begin now)).log =
        (d.polling before after).log ++ [.began (d.coordinator.runs + 1)]

theorem due (owing : d.coordinator.signalled = true ∨ d.coordinator.coming = true) : d.Due := by
  constructor
  · intro free now
    have kept := Coordinator.takeSignal_keeps d.coordinator
    have begins : ((d.polling [] []).coordinator.announces now).isSome = true :=
      polling_begins owing (by rw [polling_alone, kept.runs])
        (by rw [polling_alone, kept.underWay, free]) now
    rwa [polling_alone] at begins
  · intro before after now none free
    have begins := polling_begins owing none free now
    exact ⟨begins, none ▸ begin_log begins⟩

/-- What everybody can rely on, whatever the callers do and in whatever order. Until a checkpoint
has begun after a request or a signal, the next poll that finds none under way begins one; a poll
that took the signal has to ask first. A checkpoint begins only while none is under way. The
checkpoints that began, with the one in the latch and the one that is to follow, are as many as the
requests that were answered with yes. -/
theorem requests_served_and_counted (interval : Option Nat) (now : Instant) (turns : List Turn) :
    let d := (start interval now).run turns
    (∀ asked later, asked.requests = true →
      let polled := (d.take asked).run later
      polled.coordinator.runs = d.coordinator.runs → polled.Due) ∧
    (∀ later,
      let polled := (d.take .signal).run later
      polled.coordinator.runs = d.coordinator.runs ∧ polled.heeding = 0 ∨ .heed ∉ later →
        polled.Due) ∧
    (∀ now, (d.coordinator.poll now).1.isSome = true ∨ (d.coordinator.announces now).isSome = true →
      d.coordinator.underWay = 0) ∧
    (d.log.filterMap Happening.begun?).length =
      (d.log.filterMap Happening.ended?).length + d.coordinator.underWay ∧
    d.coordinator.underWay ≤ 1 ∧
    (start interval now).armings turns =
      (d.log.filterMap Happening.begun?).length + d.coordinator.latched +
        d.coordinator.followUp.toList.length := by
  intro d
  have numbered : d.Numbered := (run_sound (start_sound interval now) turns).numbered
  have begun : (d.log.filterMap Happening.begun?).length = d.coordinator.runs := by
    rw [numbered.begun, List.length_range']
  have ended : (d.log.filterMap Happening.ended?).length = d.coordinator.endings := by
    rw [← List.length_map Prod.fst, numbered.ended, List.length_range']
  refine ⟨?requested, ?signalled, ?exclusive, ?ended, d.coordinator.underWay_le, ?booked⟩
  case requested =>
    intro asked later requests polled none
    obtain ⟨coming, same⟩ := take_requests d requests
    have stays := run_until_begin (P := (·.coordinator.coming = true)) take_coming coming
      (none.trans same.symm)
    exact due (Or.inr stays)
  case signalled =>
    intro later polled untaken
    obtain ⟨none, alone⟩ | unheeded := untaken
    · obtain signalled | heeding | coming := run_until_begin take_owing (Or.inl rfl) none
      · exact due (Or.inl signalled)
      · exact absurd alone (Nat.ne_of_gt heeding)
      · exact due (Or.inr coming)
    · exact due (Or.inl (run_signalled rfl unheeded))
  case exclusive =>
    intro now begins
    exact begins.elim Coordinator.underWay_of_poll Coordinator.underWay_of_announces
  case ended =>
    have within := numbered.within
    rw [begun, ended, Coordinator.endings]
    omega
  case booked =>
    rw [begun]
    exact ((run_booked (start interval now) turns).trans (Nat.zero_add _)).symm

/-- A signal that comes while a checkpoint runs is kept for the next one, and the second request of
two counts for nothing. -/
theorem signal_kept_for_next :
    let d := (start none 0).run [.ask .timer, .ask .explicit, .begin 1]
    let polled := (d.take .signal).run [.heed, .relay, .begin 2, .settle 3 (.ok ()), .answer 1]
    (d.coordinator.runs = 1 ∧ polled.coordinator.runs = 1 ∧ polled.heeding = 0) ∧
      polled.coordinator.underWay = 0 ∧ (polled.coordinator.poll 4).1.isSome = true ∧
      (start none 0).armings [.ask .timer, .ask .explicit, .begin 1] = 1 := by
  have fine := requests_served_and_counted none 0 [.ask .timer, .ask .explicit, .begin 1]
  have due := fine.2.1 [.heed, .relay, .begin 2, .settle 3 (.ok ()), .answer 1] (Or.inl ⟨rfl, rfl⟩)
  exact ⟨⟨rfl, rfl, rfl⟩, rfl, due.alone rfl 4, fine.2.2.2.2.2⟩

end Desk
end MooCore.Checkpoint
