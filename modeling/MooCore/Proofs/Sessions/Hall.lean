import MooCore.Proofs.Named
import MooCore.Sessions
/-!
# A registry that many threads use

Opening, holding and closing go through the registry's lock. Holds are ended and sessions are used
through handles without it, so that happens between any two steps of a close. One turn is one step
of one of the threads; what needs the lock waits while a close goes on.
-/

set_option autoImplicit false
namespace MooCore

/-! ## Lines that go out -/

def Session.listens (x : Session) : Bool := x.attached && x.transport.closings == 0

theorem Session.send_eq (x : Session) (line : String) :
    x.send line =
      if x.listens then
        .ok { x with transport := { x.transport with sent := x.transport.sent ++ [line] } }
      else .error .notConnected := by
  unfold send listens Transport.send
  by_cases there : x.attached = true
  · by_cases idle : x.transport.closings = 0 <;> simp [there, idle, Except.map]
  · simp [there]

theorem Session.touch_send (x : Session) (line : String) :
    x.touch (.send line) =
      if x.listens then
        { x with transport := { x.transport with sent := x.transport.sent ++ [line] } }
      else x := by
  rw [touch, send_eq]
  cases x.listens <;> rfl

def Sessions.listens (r : Sessions) (id : SessionId) : Bool := (r.get? id).any Session.listens

theorem Sessions.send_eq (r : Sessions) (id : SessionId) (line : String) :
    r.send id line =
      if r.listens id then (true, r.adjust id (·.touch (.send line))) else (false, r) := by
  unfold send listens sendTo
  cases got : r.get? id with
  | none => rfl
  | some x =>
    obtain ⟨found, -⟩ := Option.filter_eq_some_iff.1 got
    rw [found, Option.any_some]
    dsimp only
    rw [Session.send_eq]
    cases x.listens <;> rfl

/-! ## The machine -/

/-- How far the close of one session has got. -/
inductive ClosingStage where
  | begun
  | held (count : Nat)
  | shut
  | loose
deriving DecidableEq

/-- A close that is under way has the lock: the session it is at, and those that come after. -/
structure Closing where
  stage : ClosingStage
  id : SessionId
  rest : List SessionId

/-- The registry, the numbers given to connections that are not yet in it, the guards that are
alive, the close under way, and how each session fared that was to be closed. -/
structure Hall where
  sessions : Sessions
  next : SessionId := 1
  coming : List SessionId := []
  guards : List SessionId := []
  closing : Option Closing := none
  outcomes : List (SessionId × CloseOutcome) := []

namespace Hall

inductive Turn where
  | number
  | enter (id : SessionId) (now : Instant) (peer : String)
  | acquire (id : SessionId)
  | release (place : Nat)
  | close (ids : List SessionId)
  | proceed
  | touch (id : SessionId) (t : Session.Touch)
  | suspendInput (on : Bool)

def closingOf : List SessionId → Option Closing
  | [] => none
  | id :: rest => some { stage := .begun, id, rest }

/-- One session is done with, and the next one is taken up. -/
def settle (h : Hall) (c : Closing) (outcome : CloseOutcome) : Hall :=
  { h with closing := closingOf c.rest, outcomes := h.outcomes ++ [(c.id, outcome)] }

/-- One step of the close that is under way. -/
def proceed (h : Hall) (c : Closing) : Hall :=
  match c.stage with
  | .begun =>
    match h.sessions.get? c.id with
    | none => h.settle c .notFound
    | some s =>
      { h with
        sessions := h.sessions.adjust c.id Session.hold
        closing := some { c with stage := .held s.hold.activity } }
  | .held count =>
    if 1 < count then
      { h with sessions := h.sessions.unguard c.id }.settle c .deferred
    else
      { h with
        sessions := h.sessions.adjust c.id Session.shut
        closing := some { c with stage := .shut } }
  | .shut =>
    { h with sessions := h.sessions.unguard c.id, closing := some { c with stage := .loose } }
  | .loose => { h with sessions := h.sessions.adjust c.id Session.leave }.settle c .closed

/-- One turn. Without the lock it changes nothing, and is taken again later. -/
def take (h : Hall) : Turn → Hall
  | .number => { h with next := h.next + 1, coming := h.coming ++ [h.next] }
  | .enter id now peer =>
    if h.closing.isNone ∧ id ∈ h.coming then
      { h with
        sessions := { h.sessions with all := h.sessions.all ++ [.opened id now peer] }
        coming := h.coming.erase id }
    else h
  | .acquire id =>
    if h.closing.isNone ∧ (h.sessions.guard id).1 = true then
      { h with sessions := (h.sessions.guard id).2, guards := h.guards ++ [id] }
    else h
  | .release place =>
    match h.guards[place]? with
    | some id => { h with sessions := h.sessions.unguard id, guards := h.guards.eraseIdx place }
    | none => h
  | .close ids => if h.closing.isNone then { h with closing := closingOf ids } else h
  | .proceed =>
    match h.closing with
    | some c => h.proceed c
    | none => h
  | .touch id t => { h with sessions := h.sessions.adjust id (·.touch t) }
  | .suspendInput on => { h with sessions := (h.sessions.setInputSuspended on).2 }

def run (h : Hall) (turns : List Turn) : Hall := turns.foldl take h

/-- A registry that has just been set up. -/
def start (timeout : Nat) : Hall := { sessions := { timeout } }

def Idle (h : Hall) : Prop := h.closing = none ∧ h.coming = []

def ownHold (h : Hall) (id : SessionId) : Nat :=
  match h.closing with
  | some { stage := .held _, id := i, .. } | some { stage := .shut, id := i, .. } =>
    if i = id then 1 else 0
  | _ => 0

def Parting (h : Hall) (id : SessionId) : Prop :=
  ∃ c, h.closing = some c ∧ (c.stage = .shut ∨ c.stage = .loose) ∧ c.id = id

/-- What holds of one session all the time. -/
structure Keeps (h : Hall) (s : Session) : Prop where
  counted : s.activity = h.guards.count s.id + h.ownHold s.id
  whole : s.attached = true ↔ s.transport.closings = 0
  once : s.transport.closings ≤ 1
  present : s.registered = true ↔ s.attached = true ∨ h.Parting s.id
  parted : h.Parting s.id → s.attached = false
  open' : s.id ∈ h.guards → s.attached = true
  listed : 0 < h.ownHold s.id → s.registered = true

structure Sound (h : Hall) : Prop where
  distinct : (h.sessions.all.map Session.id ++ h.coming).Nodup
  numbered : ∀ id ∈ h.sessions.all.map Session.id ++ h.coming, id < h.next
  known : ∀ id ∈ h.guards, id ∈ h.sessions.all.map Session.id
  keeps : ∀ s ∈ h.sessions.all, h.Keeps s
  seen : ∀ c count, h.closing = some c → c.stage = .held count → h.guards.count c.id < count

variable {h h' : Hall} {c : Closing}

/-! ## Changing sessions -/

theorem mem_adjust {r : Sessions} {id : SessionId} {f : Session → Session} {s : Session} :
    s ∈ (r.adjust id f).all ↔ ∃ old ∈ r.all, s = if old.id = id then f old else old := by
  simp only [Sessions.adjust, List.mem_map, eq_comm]

theorem adjust_ids (r : Sessions) (id : SessionId) {f : Session → Session}
    (same : ∀ s, (f s).id = s.id) : (r.adjust id f).all.map Session.id = r.all.map Session.id := by
  rw [Sessions.adjust, List.map_map]
  refine List.map_congr_left fun s _ => ?_
  simp only [Function.comp_apply]
  split
  · exact same s
  · rfl

theorem handle?_of_mem {r : Sessions} (distinct : (r.all.map Session.id).Nodup) {s : Session}
    (mem : s ∈ r.all) : r.handle? s.id = some s := Named.find?_of_nodup distinct mem

theorem get?_of_mem {r : Sessions} (distinct : (r.all.map Session.id).Nodup) {s : Session}
    (mem : s ∈ r.all) : r.get? s.id = if s.registered = true then some s else none := by
  rw [Sessions.get?, handle?_of_mem distinct mem, Option.filter_some]

theorem touch_keeps (s : Session) (t : Session.Touch) :
    (s.touch t).id = s.id ∧ (s.touch t).activity = s.activity ∧
      (s.touch t).attached = s.attached ∧ (s.touch t).registered = s.registered ∧
      (s.touch t).transport.closings = s.transport.closings ∧
      (s.touch t).transport.peer = s.transport.peer := by
  cases t with
  | login | requestDisconnect | pushInput => exact ⟨rfl, rfl, rfl, rfl, rfl, rfl⟩
  | takeLine =>
    rw [Session.touch]
    split <;> exact ⟨rfl, rfl, rfl, rfl, rfl, rfl⟩
  | send line =>
    rw [Session.touch_send]
    split <;> exact ⟨rfl, rfl, rfl, rfl, rfl, rfl⟩

theorem touch_id (t : Session.Touch) (s : Session) : (s.touch t).id = s.id := (touch_keeps s t).1

/-! ## One turn -/

theorem Keeps.of_same {s : Session} (keeps : h.Keeps s)
    (guards : h'.guards.count s.id = h.guards.count s.id) (own : h'.ownHold s.id = h.ownHold s.id)
    (parting : h'.Parting s.id ↔ h.Parting s.id) : h'.Keeps s where
  counted := by rw [guards, own, keeps.counted]
  whole := keeps.whole
  once := keeps.once
  present := keeps.present.trans (or_congr_right parting.symm)
  parted := fun h => keeps.parted (parting.1 h)
  open' := fun mem => keeps.open' (List.count_pos_iff.1 (guards ▸ List.count_pos_iff.2 mem))
  listed := fun held => keeps.listed (own ▸ held)

theorem Sound.adjust (sound : h.Sound) (id : SessionId) {f : Session → Session}
    (same : ∀ s, (f s).id = s.id) (sessions : h'.sessions = h.sessions.adjust id f)
    (coming : h'.coming = h.coming) (next : h'.next = h.next)
    (fewer : ∀ i ∈ h'.guards, i ∈ h.guards ∨ i ∈ h.sessions.all.map Session.id)
    (here : ∀ s ∈ h.sessions.all, s.id = id → h.Keeps s → h'.Keeps (f s))
    (elsewhere : ∀ s ∈ h.sessions.all, s.id ≠ id → h.Keeps s → h'.Keeps s)
    (seen : ∀ c count, h'.closing = some c → c.stage = .held count → h'.guards.count c.id < count) :
    h'.Sound where
  distinct := by
    rw [sessions, adjust_ids _ _ same, coming]
    exact sound.distinct
  numbered := by
    rw [sessions, adjust_ids _ _ same, coming, next]
    exact sound.numbered
  known := fun i hi => by
    rw [sessions, adjust_ids _ _ same]
    exact (fewer i hi).elim (sound.known i) fun mem => mem
  keeps := fun s hs => by
    rw [sessions] at hs
    obtain ⟨old, mem, rfl⟩ := mem_adjust.1 hs
    split
    · rename_i e
      exact here old mem e (sound.keeps old mem)
    · rename_i ne
      exact elsewhere old mem ne (sound.keeps old mem)
  seen := seen

theorem not_parting (free : h.closing = none) (id : SessionId) : ¬ h.Parting id := by
  rintro ⟨c, hc, -⟩
  rw [free] at hc
  cases hc

theorem ownHold_free (free : h.closing = none) (id : SessionId) : h.ownHold id = 0 := by
  rw [ownHold, free]

theorem closingOf_begun {ids : List SessionId} (hc : closingOf ids = some c) : c.stage = .begun := by
  cases ids with
  | nil => cases hc
  | cons id rest =>
    cases hc
    rfl

theorem not_parting_begun (begun : ∀ c, h.closing = some c → c.stage = .begun) (id : SessionId) :
    ¬ h.Parting id := by
  rintro ⟨c, hc, stage, -⟩
  rw [begun c hc] at stage
  rcases stage with stage | stage <;> cases stage

theorem ownHold_begun (begun : ∀ c, h.closing = some c → c.stage = .begun) (id : SessionId) :
    h.ownHold id = 0 := by
  unfold ownHold
  cases closing : h.closing with
  | none => rfl
  | some c =>
    obtain ⟨stage, i, rest⟩ := c
    obtain rfl : stage = .begun := begun _ closing
    rfl

theorem Sound.number (sound : h.Sound) : (h.take .number).Sound where
  distinct := by
    have fresh : h.next ∉ h.sessions.all.map Session.id ++ h.coming := fun mem =>
      Nat.lt_irrefl _ (sound.numbered _ mem)
    change (h.sessions.all.map Session.id ++ (h.coming ++ [h.next])).Nodup
    rw [← List.append_assoc]
    exact List.nodup_append.2 ⟨sound.distinct, List.nodup_singleton _, fun a ha b hb e =>
      fresh (List.mem_singleton.1 hb ▸ e ▸ ha)⟩
  numbered := fun id mem => by
    change id ∈ h.sessions.all.map Session.id ++ (h.coming ++ [h.next]) at mem
    rw [← List.append_assoc] at mem
    rcases List.mem_append.1 mem with old | new
    · exact (sound.numbered id old).trans (Nat.lt_succ_self _)
    · rw [List.mem_singleton.1 new]
      exact Nat.lt_succ_self _
  known := sound.known
  keeps := fun s hs => (sound.keeps s hs).of_same rfl rfl Iff.rfl
  seen := sound.seen

theorem Sound.enter (sound : h.Sound) (id : SessionId) (now : Instant) (peer : String) :
    (h.take (.enter id now peer)).Sound := by
  rw [take]
  split
  · rename_i may
    obtain ⟨free, coming⟩ := may
    rw [Option.isNone_iff_eq_none] at free
    have moved : (h.sessions.all.map Session.id ++ h.coming).Perm
        ((h.sessions.all ++ [Session.opened id now peer]).map Session.id ++ h.coming.erase id) := by
      rw [List.map_append, List.append_assoc]
      exact (List.perm_cons_erase coming).append_left _
    have absent : id ∉ h.sessions.all.map Session.id := fun old =>
      (List.nodup_append.1 sound.distinct).2.2 id old id coming rfl
    refine ⟨moved.nodup_iff.1 sound.distinct, fun i hi => sound.numbered i (moved.mem_iff.2 hi),
      fun i hi => ?_, fun s hs => ?_, fun c count hc => absurd (free.symm.trans hc) nofun⟩
    · change i ∈ (h.sessions.all ++ [Session.opened id now peer]).map Session.id
      rw [List.map_append]
      exact List.mem_append_left _ (sound.known i hi)
    · rcases List.mem_append.1 hs with old | new
      · exact (sound.keeps s old).of_same rfl rfl Iff.rfl
      · obtain rfl := List.mem_singleton.1 new
        have unheld : h.guards.count id = 0 := List.count_eq_zero.2 fun mem =>
          absent (sound.known id mem)
        refine ⟨?_, by simp [Session.opened], Nat.zero_le _, by simp [Session.opened],
          fun parting => absurd parting (not_parting free _), fun _ => rfl, fun _ => rfl⟩
        change 0 = h.guards.count id + h.ownHold id
        rw [unheld, ownHold_free free]
  · exact sound

theorem Sound.ids (sound : h.Sound) : (h.sessions.all.map Session.id).Nodup :=
  (List.nodup_append.1 sound.distinct).1

theorem Sound.acquire (sound : h.Sound) (id : SessionId) : (h.take (.acquire id)).Sound := by
  rw [take]
  split
  · rename_i may
    obtain ⟨free, granted⟩ := may
    rw [Option.isNone_iff_eq_none] at free
    have there : (h.sessions.get? id).isSome = true := by
      by_contra missing
      rw [Sessions.guard, Sessions.change, if_neg missing] at granted
      cases granted
    have sessions : (h.sessions.guard id).2 = h.sessions.adjust id Session.hold := by
      rw [Sessions.guard, Sessions.change, if_pos there]
    have open_ : ∀ s ∈ h.sessions.all, s.id = id → s.attached = true := by
      rintro s mem rfl
      rw [get?_of_mem sound.ids mem] at there
      split at there
      · rename_i registered
        exact ((sound.keeps s mem).present.1 registered).resolve_right (not_parting free _)
      · cases there
    have known : id ∈ h.sessions.all.map Session.id := by
      obtain ⟨s, found⟩ := Option.isSome_iff_exists.1 there
      have found := (Option.filter_eq_some_iff.1 found).1
      have e : s.id = id := by simpa using List.find?_some found
      exact e ▸ List.mem_map_of_mem (List.mem_of_find?_eq_some found)
    rw [sessions]
    refine sound.adjust id (f := Session.hold) (fun _ => rfl) rfl rfl rfl (fun i hi => ?_) ?_ ?_ ?_
    · rcases List.mem_append.1 hi with old | new
      · exact Or.inl old
      · exact Or.inr (List.mem_singleton.1 new ▸ known)
    · rintro s mem rfl keeps
      refine ⟨?_, keeps.whole, keeps.once, keeps.present, keeps.parted, fun _ => open_ s mem rfl,
        keeps.listed⟩
      change s.activity + 1 = (h.guards ++ [s.id]).count s.id + h.ownHold s.id
      rw [List.count_append, List.count_singleton_self, keeps.counted]
      omega
    · intro s mem ne keeps
      refine keeps.of_same ?_ rfl Iff.rfl
      rw [List.count_append, List.count_singleton, if_neg (by simpa using ne.symm), Nat.add_zero]
    · exact fun c count hc => absurd (free.symm.trans hc) nofun
  · exact sound

theorem Sound.release (sound : h.Sound) (place : Nat) : (h.take (.release place)).Sound := by
  rw [take]
  split
  · rename_i id found
    obtain ⟨lt, here⟩ := List.getElem?_eq_some_iff.1 found
    have split : (id :: h.guards.eraseIdx place).Perm h.guards :=
      here ▸ List.getElem_cons_eraseIdx_perm lt
    have fewer : ∀ i, (h.guards.eraseIdx place).count i ≤ h.guards.count i := fun i =>
      (List.eraseIdx_sublist ..).count_le i
    refine sound.adjust id (f := Session.letGo) (fun _ => rfl) rfl rfl rfl
      (fun i hi => Or.inl (List.mem_of_mem_eraseIdx hi)) ?_ ?_ ?_
    · rintro s mem rfl keeps
      refine ⟨?_, keeps.whole, keeps.once, keeps.present, keeps.parted,
        fun mem => keeps.open' (List.mem_of_mem_eraseIdx mem), keeps.listed⟩
      have count := split.count_eq s.id
      rw [List.count_cons_self] at count
      change s.activity - 1 = (h.guards.eraseIdx place).count s.id + h.ownHold s.id
      rw [keeps.counted, ← count]
      omega
    · intro s mem ne keeps
      have count := split.count_eq s.id
      rw [List.count_cons_of_ne (Ne.symm ne)] at count
      exact keeps.of_same count rfl Iff.rfl
    · exact fun c count hc stage => (fewer c.id).trans_lt (sound.seen c count hc stage)
  · exact sound

theorem Keeps.touch {s : Session} (keeps : h.Keeps s) (t : Session.Touch) : h.Keeps (s.touch t) := by
  obtain ⟨id, activity, attached, registered, closings, -⟩ := touch_keeps s t
  constructor
  · rw [activity, id]
    exact keeps.counted
  · rw [attached, closings]
    exact keeps.whole
  · rw [closings]
    exact keeps.once
  · rw [registered, attached, id]
    exact keeps.present
  · rw [attached, id]
    exact keeps.parted
  · rw [attached, id]
    exact keeps.open'
  · rw [registered, id]
    exact keeps.listed

theorem Sound.touch (sound : h.Sound) (id : SessionId) (t : Session.Touch) :
    (h.take (.touch id t)).Sound :=
  sound.adjust id (f := (·.touch t)) (fun s => (touch_keeps s t).1) rfl rfl rfl
    (fun _ hi => Or.inl hi) (fun _ _ _ keeps => (keeps.touch t).of_same rfl rfl Iff.rfl)
    (fun _ _ _ keeps => keeps.of_same rfl rfl Iff.rfl) sound.seen

theorem Sound.suspendInput (sound : h.Sound) (on : Bool) : (h.take (.suspendInput on)).Sound where
  distinct := sound.distinct
  numbered := sound.numbered
  known := sound.known
  keeps := fun s hs => (sound.keeps s hs).of_same rfl rfl Iff.rfl
  seen := sound.seen

theorem Sound.begin (sound : h.Sound) (free : ∀ id, h.ownHold id = 0) (whole : ∀ id, ¬ h.Parting id)
    (ids : List SessionId) (outcomes : List (SessionId × CloseOutcome)) :
    { h with closing := closingOf ids, outcomes : Hall }.Sound where
  distinct := sound.distinct
  numbered := sound.numbered
  known := sound.known
  keeps := fun s hs => by
    have begun : ∀ c, ({ h with closing := closingOf ids, outcomes : Hall }).closing = some c →
        c.stage = .begun := fun _ => closingOf_begun
    refine (sound.keeps s hs).of_same rfl ?_ ?_
    · rw [ownHold_begun begun, free]
    · exact iff_of_false (not_parting_begun begun _) (whole _)
  seen := fun c count hc stage => absurd ((closingOf_begun hc).symm.trans stage) nofun

theorem Sound.close (sound : h.Sound) (ids : List SessionId) : (h.take (.close ids)).Sound := by
  rw [take]
  split
  · rename_i free
    rw [Option.isNone_iff_eq_none] at free
    exact sound.begin (ownHold_free free) (not_parting free) ids h.outcomes
  · exact sound

/-! ## One step of a close -/

variable {id i : SessionId} {rest : List SessionId} {count : Nat}

theorem ownHold_held (closing : h.closing = some { stage := .held count, id, rest }) :
    h.ownHold i = if id = i then 1 else 0 := by rw [ownHold, closing]

theorem ownHold_shut (closing : h.closing = some { stage := .shut, id, rest }) :
    h.ownHold i = if id = i then 1 else 0 := by rw [ownHold, closing]

theorem ownHold_loose (closing : h.closing = some { stage := .loose, id, rest }) :
    h.ownHold i = 0 := by rw [ownHold, closing]

theorem parting_iff {stage : ClosingStage} (closing : h.closing = some { stage, id, rest }) :
    h.Parting i ↔ (stage = .shut ∨ stage = .loose) ∧ id = i := by
  refine ⟨?_, fun part => ⟨_, closing, part⟩⟩
  rintro ⟨c, hc, part⟩
  rw [closing] at hc
  cases hc
  exact part

/-- A registered session is held by the registry. -/
theorem Sound.hold (sound : h.Sound) (closing : h.closing = some { stage := .begun, id, rest })
    {s : Session} (found : h.sessions.get? id = some s) :
    { h with
      sessions := h.sessions.adjust id Session.hold
      closing := some { stage := .held s.hold.activity, id, rest } : Hall }.Sound := by
  have begun : ∀ c, h.closing = some c → c.stage = .begun := fun c hc => by
    rw [closing] at hc
    cases hc
    rfl
  have unparted := not_parting_begun begun
  have part : ∀ i, ¬ ({ h with
      sessions := h.sessions.adjust id Session.hold
      closing := some { stage := .held s.hold.activity, id, rest } : Hall }).Parting i := by
    rintro i ⟨c, hc, stage, -⟩
    cases hc
    rcases stage with stage | stage <;> cases stage
  have known := (Option.filter_eq_some_iff.1 found).1
  have e : s.id = id := by simpa using List.find?_some known
  have mem := List.mem_of_find?_eq_some known
  have registered : ∀ t ∈ h.sessions.all, t.id = id → t.registered = true := by
    rintro t mem rfl
    rw [get?_of_mem sound.ids mem] at found
    split at found
    · assumption
    · cases found
  refine sound.adjust id (f := Session.hold) (fun _ => rfl) rfl rfl rfl (fun i hi => Or.inl hi)
    ?_ ?_ ?_
  · rintro t mem rfl keeps
    refine ⟨?_, keeps.whole, keeps.once,
      keeps.present.trans (or_congr_right (iff_of_false (unparted _) (part _))),
      fun parting => absurd parting (part _), keeps.open', fun _ => registered t mem rfl⟩
    rw [ownHold_held rfl]
    change t.activity + 1 = h.guards.count t.id + if t.id = t.id then 1 else 0
    rw [keeps.counted, ownHold_begun begun, if_pos rfl]
  · intro t mem ne keeps
    refine keeps.of_same rfl ?_ (iff_of_false (part _) (unparted _))
    rw [ownHold_held rfl, if_neg (Ne.symm ne), ownHold_begun begun]
  · intro c count hc stage
    cases hc
    cases stage
    have counted := (sound.keeps s mem).counted
    rw [ownHold_begun begun, e, Nat.add_zero] at counted
    change h.guards.count id < s.activity + 1
    omega

theorem Sound.defer (sound : h.Sound) (closing : h.closing = some { stage := .held count, id, rest })
    (outcomes : List (SessionId × CloseOutcome)) :
    { h with
      sessions := h.sessions.adjust id Session.letGo
      closing := closingOf rest, outcomes : Hall }.Sound := by
  have begun : ∀ c, ({ h with
      sessions := h.sessions.adjust id Session.letGo
      closing := closingOf rest, outcomes : Hall }).closing = some c → c.stage = .begun :=
    fun _ => closingOf_begun
  have unparted : ∀ i, ¬ h.Parting i := fun i part => by
    rcases ((parting_iff closing).1 part).1 with stage | stage <;> cases stage
  have part := not_parting_begun begun
  refine sound.adjust id (f := Session.letGo) (fun _ => rfl) rfl rfl rfl (fun i hi => Or.inl hi)
    ?_ ?_ fun c count hc stage => absurd ((closingOf_begun hc).symm.trans stage) nofun
  · rintro t mem rfl keeps
    refine ⟨?_, keeps.whole, keeps.once,
      keeps.present.trans (or_congr_right (iff_of_false (unparted _) (part _))),
      fun parting => absurd parting (part _), keeps.open', fun held => ?_⟩
    · rw [ownHold_begun begun]
      change t.activity - 1 = h.guards.count t.id + 0
      rw [keeps.counted, ownHold_held closing, if_pos rfl]
      rfl
    · rw [ownHold_begun begun] at held
      exact absurd held (Nat.lt_irrefl 0)
  · intro t mem ne keeps
    refine keeps.of_same rfl ?_ (iff_of_false (part _) (unparted _))
    rw [ownHold_begun begun, ownHold_held closing, if_neg (Ne.symm ne)]

/-- Nobody else holds the session, and its transport is closed. -/
theorem Sound.shut (sound : h.Sound) (closing : h.closing = some { stage := .held count, id, rest })
    (alone : count ≤ 1) :
    { h with
      sessions := h.sessions.adjust id Session.shut
      closing := some { stage := .shut, id, rest } : Hall }.Sound := by
  have unparted : ∀ i, ¬ h.Parting i := fun i part => by
    rcases ((parting_iff closing).1 part).1 with stage | stage <;> cases stage
  have unheld : id ∉ h.guards := by
    have seen : h.guards.count id < count := sound.seen _ count closing rfl
    exact List.count_eq_zero.1 (by omega)
  refine sound.adjust id (f := Session.shut) (fun _ => rfl) rfl rfl rfl (fun i hi => Or.inl hi)
    ?_ ?_ ?_
  · rintro t mem rfl keeps
    have own : 0 < h.ownHold t.id := by simp [ownHold_held closing]
    have registered := keeps.listed own
    have attached := (keeps.present.1 registered).resolve_right (unparted _)
    have closings : t.shut.transport.closings = 1 := by
      simp only [Session.shut, attached, if_true, keeps.whole.1 attached]
    have parting := (parting_iff (h := { h with
      sessions := h.sessions.adjust t.id Session.shut
      closing := some { stage := .shut, id := t.id, rest } }) rfl).2 ⟨Or.inl rfl, rfl⟩
    refine ⟨?_, ?_, closings.le, iff_of_true registered (Or.inr parting), fun _ => rfl,
      fun mem => absurd mem unheld, fun _ => registered⟩
    · change t.activity = _
      rw [keeps.counted, ownHold_held closing, ownHold_shut rfl]
      rfl
    · rw [closings]
      simp [Session.shut]
  · intro t mem ne keeps
    refine keeps.of_same rfl ?_ (iff_of_false ?_ (unparted _))
    · rw [ownHold_shut rfl, ownHold_held closing]
    · exact fun part => ne ((parting_iff rfl).1 part).2.symm
  · intro c count hc stage
    cases hc
    cases stage

theorem Sound.loosen (sound : h.Sound) (closing : h.closing = some { stage := .shut, id, rest }) :
    { h with
      sessions := h.sessions.adjust id Session.letGo
      closing := some { stage := .loose, id, rest } : Hall }.Sound := by
  refine sound.adjust id (f := Session.letGo) (fun _ => rfl) rfl rfl rfl (fun i hi => Or.inl hi)
    ?_ ?_ ?_
  · rintro t mem rfl keeps
    have parting := (parting_iff closing).2 ⟨Or.inl rfl, rfl⟩
    have parting' := (parting_iff (h := { h with
      sessions := h.sessions.adjust t.id Session.letGo
      closing := some { stage := .loose, id := t.id, rest } }) rfl).2 ⟨Or.inr rfl, rfl⟩
    refine ⟨?_, keeps.whole, keeps.once,
      keeps.present.trans (or_congr_right (iff_of_true parting parting')),
      fun _ => keeps.parted parting, keeps.open', fun held => ?_⟩
    · change t.activity - 1 = h.guards.count t.id + 0
      rw [keeps.counted, ownHold_shut closing, if_pos rfl]
      rfl
    · rw [ownHold_loose rfl] at held
      exact absurd held (Nat.lt_irrefl 0)
  · intro t mem ne keeps
    refine keeps.of_same rfl ?_ (iff_of_false ?_ ?_)
    · rw [ownHold_loose rfl, ownHold_shut closing, if_neg (Ne.symm ne)]
    · exact fun part => ne ((parting_iff rfl).1 part).2.symm
    · exact fun part => ne ((parting_iff closing).1 part).2.symm
  · intro c count hc stage
    cases hc
    cases stage

theorem Sound.leave (sound : h.Sound) (closing : h.closing = some { stage := .loose, id, rest })
    (outcomes : List (SessionId × CloseOutcome)) :
    { h with
      sessions := h.sessions.adjust id Session.leave
      closing := closingOf rest, outcomes : Hall }.Sound := by
  have begun : ∀ c, ({ h with
      sessions := h.sessions.adjust id Session.leave
      closing := closingOf rest, outcomes : Hall }).closing = some c → c.stage = .begun :=
    fun _ => closingOf_begun
  have part := not_parting_begun begun
  refine sound.adjust id (f := Session.leave) (fun _ => rfl) rfl rfl rfl (fun i hi => Or.inl hi)
    ?_ ?_ fun c count hc stage => absurd ((closingOf_begun hc).symm.trans stage) nofun
  · rintro t mem rfl keeps
    have detached := keeps.parted ((parting_iff closing).2 ⟨Or.inr rfl, rfl⟩)
    refine ⟨?_, keeps.whole, keeps.once, ?_, fun parting => absurd parting (part _), keeps.open',
      fun held => ?_⟩
    · rw [ownHold_begun begun]
      change t.activity = h.guards.count t.id + 0
      rw [keeps.counted, ownHold_loose closing]
    · refine iff_of_false nofun ?_
      rintro (attached | parting)
      · exact Bool.false_ne_true (detached.symm.trans attached)
      · exact part _ parting
    · rw [ownHold_begun begun] at held
      exact absurd held (Nat.lt_irrefl 0)
  · intro t mem ne keeps
    refine keeps.of_same rfl ?_ (iff_of_false (part _) fun parting => ?_)
    · rw [ownHold_begun begun, ownHold_loose closing]
    · exact ne ((parting_iff closing).1 parting).2.symm

theorem Sound.proceed (sound : h.Sound) : (h.take .proceed).Sound := by
  rw [take]
  split
  · rename_i c closing
    obtain ⟨stage, id, rest⟩ := c
    cases stage with
    | begun =>
      simp only [Hall.proceed]
      cases found : h.sessions.get? id with
      | none =>
        have begun : ∀ c, h.closing = some c → c.stage = .begun := fun c hc => by
          rw [closing] at hc
          cases hc
          rfl
        exact sound.begin (ownHold_begun begun) (not_parting_begun begun) rest _
      | some s => exact sound.hold closing found
    | held count =>
      simp only [Hall.proceed]
      split
      · exact sound.defer closing _
      · rename_i alone
        exact sound.shut closing (Nat.not_lt.1 alone)
    | shut => exact sound.loosen closing
    | loose => exact sound.leave closing _
  · exact sound

theorem Sound.take (sound : h.Sound) (turn : Turn) : (h.take turn).Sound := by
  cases turn with
  | number => exact sound.number
  | enter id now peer => exact sound.enter id now peer
  | acquire id => exact sound.acquire id
  | release place => exact sound.release place
  | close ids => exact sound.close ids
  | proceed => exact sound.proceed
  | touch id t => exact sound.touch id t
  | suspendInput on => exact sound.suspendInput on

theorem start_sound (timeout : Nat) : (start timeout).Sound where
  distinct := List.nodup_nil
  numbered := nofun
  known := nofun
  keeps := nofun
  seen := nofun

theorem run_sound (sound : h.Sound) (turns : List Turn) : (h.run turns).Sound := by
  induction turns generalizing h with
  | nil => exact sound
  | cons turn turns ih => exact ih (sound.take turn)

end Hall
end MooCore
