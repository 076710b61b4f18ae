import MooCore.Proofs.Sessions.Hall
/-!
# Guards keep sessions open

Whatever the order of the turns, a session counts its guards, a guarded session is there and open,
and a transport is closed once, by a close that found nobody else. A close that is put off leaves no
trace, whatever others do meanwhile. Without others in between a close is what the registry does in
one go.
-/

set_option autoImplicit false
namespace MooCore
namespace Hall

variable {h h' : Hall} {c : Closing} {id : SessionId} {rest : List SessionId}

/-! ## Who closes a transport -/

theorem closings_adjust (distinct : (h.sessions.all.map Session.id).Nodup) (id : SessionId)
    {f : Session → Session} (same : ∀ s, (f s).id = s.id)
    (unclosed : ∀ s, (f s).transport.closings = s.transport.closings) {s s' : Session}
    (mem : s ∈ h.sessions.all) (mem' : s' ∈ (h.sessions.adjust id f).all) (e : s'.id = s.id) :
    s'.transport.closings = s.transport.closings := by
  obtain ⟨old, hold, rfl⟩ := mem_adjust.1 mem'
  have one : old.id = s.id := by
    split at e
    · rw [← e, same]
    · exact e
  have found := handle?_of_mem distinct hold
  rw [one, handle?_of_mem distinct mem] at found
  obtain rfl := Option.some.inj found
  split
  · exact unclosed s
  · rfl

theorem closings_same (distinct : (h.sessions.all.map Session.id).Nodup) {s s' : Session}
    (mem : s ∈ h.sessions.all) (mem' : s' ∈ h.sessions.all) (e : s'.id = s.id) :
    s'.transport.closings = s.transport.closings := by
  have found := handle?_of_mem distinct mem'
  rw [e, handle?_of_mem distinct mem] at found
  rw [Option.some.inj found]

/-- A transport is closed by a close that has seen no hold but its own, while no guard is alive. -/
theorem Sound.closed_by (sound : h.Sound) {turn : Turn} {s s' : Session}
    (mem : s ∈ h.sessions.all) (mem' : s' ∈ (h.take turn).sessions.all) (e : s'.id = s.id)
    (closed : s'.transport.closings ≠ s.transport.closings) :
    turn = .proceed ∧ (∃ rest, h.closing = some { stage := .held 1, id := s.id, rest }) ∧
      s.id ∉ h.guards := by
  have ids := sound.ids
  have kept : ¬ s' ∈ h.sessions.all := fun mem' => closed (closings_same ids mem mem' e)
  have touched : ∀ (i : SessionId) (f : Session → Session), (∀ s, (f s).id = s.id) →
      (∀ s, (f s).transport.closings = s.transport.closings) → ¬ s' ∈ (h.sessions.adjust i f).all :=
    fun i f same unclosed mem' => closed (closings_adjust ids i same unclosed mem mem' e)
  cases turn with
  | number | suspendInput on => exact absurd mem' kept
  | close ids =>
    rw [Hall.take] at mem'
    split at mem' <;> exact absurd mem' kept
  | touch i t =>
    exact absurd mem' (touched i _ (fun s => (touch_keeps s t).1)
      fun s => (touch_keeps s t).2.2.2.2.1)
  | enter i now peer =>
    rw [Hall.take] at mem'
    split at mem'
    · rename_i may
      rcases List.mem_append.1 mem' with old | new
      · exact absurd old kept
      · obtain rfl := List.mem_singleton.1 new
        have apart := (List.nodup_append.1 sound.distinct).2.2
        exact absurd e.symm (apart s.id (List.mem_map_of_mem mem) i may.2)
    · exact absurd mem' kept
  | acquire i =>
    rw [Hall.take] at mem'
    split at mem'
    · rw [Sessions.guard, Sessions.change] at mem'
      split at mem'
      · exact absurd mem' (touched i Session.hold (fun _ => rfl) fun _ => rfl)
      · exact absurd mem' kept
    · exact absurd mem' kept
  | release place =>
    rw [Hall.take] at mem'
    split at mem'
    · rename_i i _
      exact absurd mem' (touched i Session.letGo (fun _ => rfl) fun _ => rfl)
    · exact absurd mem' kept
  | proceed =>
    rw [Hall.take] at mem'
    split at mem'
    · rename_i c closing
      obtain ⟨stage, id, rest⟩ := c
      cases stage with
      | begun =>
        simp only [Hall.proceed] at mem'
        split at mem'
        · exact absurd mem' kept
        · exact absurd mem' (touched id Session.hold (fun _ => rfl) fun _ => rfl)
      | held count =>
        simp only [Hall.proceed] at mem'
        have seen : h.guards.count id < count := sound.seen _ count closing rfl
        split at mem'
        · exact absurd mem' (touched id Session.letGo (fun _ => rfl) fun _ => rfl)
        · obtain rfl : count = 1 := by omega
          have here : id = s.id := by
            by_contra other
            obtain ⟨old, hold, rfl⟩ := mem_adjust.1 mem'
            split at e
            · rename_i at_id
              exact other (at_id.symm.trans e)
            · rename_i off
              rw [if_neg off] at closed
              exact closed (closings_same ids mem hold e)
          subst here
          exact ⟨rfl, ⟨rest, closing⟩, List.count_eq_zero.1 (by omega)⟩
      | shut => exact absurd mem' (touched id Session.letGo (fun _ => rfl) fun _ => rfl)
      | loose => exact absurd mem' (touched id Session.leave (fun _ => rfl) fun _ => rfl)
    · exact absurd mem' kept

/-! ## A close that is put off -/

theorem adjust_comm (r : Sessions) (i j : SessionId) {f g : Session → Session}
    (same : ∀ s, (f s).id = s.id) (same' : ∀ s, (g s).id = s.id)
    (comm : ∀ s ∈ r.all, s.id = i → i = j → f (g s) = g (f s)) :
    (r.adjust i f).adjust j g = (r.adjust j g).adjust i f := by
  simp only [Sessions.adjust, List.map_map, Sessions.mk.injEq, and_true]
  refine List.map_congr_left fun s mem => ?_
  simp only [Function.comp_apply]
  by_cases hi : s.id = i
  · by_cases hj : s.id = j
    · simp only [hi, if_true, same, same', hi ▸ hj]
      exact (comm s mem hi (hi ▸ hj)).symm
    · simp only [hi, if_true, same, if_neg (hi ▸ hj)]
  · by_cases hj : s.id = j
    · simp only [hj, if_true, same', if_neg (hj ▸ hi)]
    · simp only [if_neg hi, if_neg hj]

def heldBy (h : Hall) (c : Closing) : Hall :=
  { h with sessions := h.sessions.adjust c.id Session.hold, closing := some c }

theorem hold_touch (s : Session) (t : Session.Touch) : s.hold.touch t = (s.touch t).hold := by
  cases t with
  | login | requestDisconnect | pushInput => rfl
  | takeLine => cases quiet : s.disconnecting <;> simp [Session.touch, Session.hold, quiet]
  | send line =>
    cases there : s.attached
    · simp [Session.touch, Session.send, Session.hold, there]
    · cases sent : s.transport.send line <;>
        simp [Session.touch, Session.send, Session.hold, there, sent, Except.map]

theorem Sound.take_heldBy (sound : h.Sound) (begun : h.closing = some { c with stage := .begun })
    {turn : Turn} (other : turn ≠ .proceed) :
    (h.heldBy c).take turn = (h.take turn).heldBy c ∧
      (h.take turn).closing = h.closing ∧ (h.take turn).outcomes = h.outcomes := by
  have busy : h.closing.isNone = false := by rw [begun]; rfl
  cases turn with
  | proceed => exact absurd rfl other
  | number | suspendInput => exact ⟨rfl, rfl, rfl⟩
  | enter | acquire | close => simp [Hall.take, heldBy, busy]
  | touch i t =>
    refine ⟨?_, rfl, rfl⟩
    simp only [Hall.take, heldBy, Hall.mk.injEq, and_true]
    exact adjust_comm _ _ _ (fun _ => rfl) (fun s => (touch_keeps s t).1)
      fun s _ _ _ => (hold_touch s t).symm
  | release place =>
    simp only [Hall.take, heldBy]
    cases found : h.guards[place]? with
    | none => exact ⟨rfl, rfl, rfl⟩
    | some i =>
      refine ⟨?_, rfl, rfl⟩
      simp only [Hall.mk.injEq, and_true]
      refine adjust_comm _ _ _ (fun _ => rfl) (fun _ => rfl) fun s mem e same => ?_
      have held : 0 < h.guards.count i := List.count_pos_iff.2 (List.mem_of_getElem? found)
      have counted := (sound.keeps s mem).counted
      rw [e, same] at counted
      have back : s.activity - 1 + 1 = s.activity + 1 - 1 := by omega
      simp only [Session.hold, Session.letGo, back]

theorem Sound.run_heldBy (sound : h.Sound) (begun : h.closing = some { c with stage := .begun })
    {others : List Turn} (other : ∀ t ∈ others, t ≠ .proceed) :
    (h.heldBy c).run others = (h.run others).heldBy c ∧
      (h.run others).closing = h.closing ∧ (h.run others).outcomes = h.outcomes := by
  induction others generalizing h with
  | nil => exact ⟨rfl, rfl, rfl⟩
  | cons t others ih =>
    obtain ⟨step, closing, outcomes⟩ := sound.take_heldBy begun (other t (List.mem_cons_self ..))
    obtain ⟨steps, closing', outcomes'⟩ := ih (sound.take t) (closing.trans begun)
      fun t mem => other t (List.mem_cons_of_mem _ mem)
    refine ⟨?_, closing'.trans closing, outcomes'.trans outcomes⟩
    change ((h.heldBy c).take t).run others = ((h.take t).run others).heldBy c
    rw [step, steps]

theorem adjust_letGo_hold (r : Sessions) (id : SessionId) :
    (r.adjust id Session.hold).adjust id Session.letGo = r := by
  have same : ∀ s : Session, (if (if s.id = id then s.hold else s).id = id then
      (if s.id = id then s.hold else s).letGo else if s.id = id then s.hold else s) = s := by
    intro s
    by_cases here : s.id = id
    · simp only [if_pos here]
      rw [if_pos (show s.hold.id = id from here)]
      rfl
    · simp only [if_neg here]
  simp only [Sessions.adjust, List.map_map, Function.comp_def, same, List.map_id']

/-- A close that finds the session held by somebody else leaves nothing behind but its outcome,
whatever the others do before it gives up. -/
theorem Sound.deferred_unnoticed (sound : h.Sound)
    (begun : h.closing = some { stage := .begun, id, rest }) {s : Session}
    (found : h.sessions.get? id = some s) (held : 0 < s.activity) {others : List Turn}
    (other : ∀ t ∈ others, t ≠ .proceed) :
    h.run (.proceed :: others ++ [.proceed]) =
      { h.run others with
        closing := closingOf rest, outcomes := h.outcomes ++ [(id, .deferred)] } := by
  have busy : 1 < s.hold.activity := Nat.succ_lt_succ held
  have first : h.take .proceed = h.heldBy { stage := .held s.hold.activity, id, rest } := by
    simp only [Hall.take, begun, Hall.proceed, found, heldBy]
  obtain ⟨beside, -, outcomes⟩ := sound.run_heldBy
    (c := { stage := .held s.hold.activity, id, rest }) begun other
  have last : ((h.run others).heldBy { stage := .held s.hold.activity, id, rest }).take .proceed =
      { h.run others with
        closing := closingOf rest, outcomes := (h.run others).outcomes ++ [(id, .deferred)] } := by
    simp only [Hall.take, heldBy, Hall.proceed, if_pos busy, settle, Sessions.unguard,
      adjust_letGo_hold]
  change ((h.take .proceed).run (others ++ [.proceed])) = _
  rw [first, Hall.run, List.foldl_append]
  change ((h.heldBy _).run others).take .proceed = _
  rw [beside, last, outcomes]

/-! ## A close without others in between -/

def closeEach (r : Sessions) : List SessionId → List (SessionId × CloseOutcome) × Sessions
  | [] => ([], r)
  | id :: rest =>
    let (outcome, r) := r.tryClose id
    let (outcomes, r) := closeEach r rest
    ((id, outcome) :: outcomes, r)

theorem tryCloseAll_eq {α : Type} (outcome : CloseOutcome) (r : Sessions)
    (ids : List (SessionId × α)) :
    (r.tryCloseAll outcome ids).2 = (closeEach r (ids.map Prod.fst)).2 ∧
      (r.tryCloseAll outcome ids).1.map Prod.fst =
        ((closeEach r (ids.map Prod.fst)).1.filter (·.2 = outcome)).map Prod.fst := by
  induction ids generalizing r with
  | nil => exact ⟨rfl, rfl⟩
  | cons x ids ih =>
    obtain ⟨id, a⟩ := x
    obtain ⟨sessions, names⟩ := ih (r.tryClose id).2
    simp only [Sessions.tryCloseAll, List.map_cons, closeEach]
    refine ⟨sessions, ?_⟩
    by_cases same : (r.tryClose id).1 = outcome
    · simp [same, names]
    · simp [same, names]

theorem proceed_tryClose (closing : h.closing = some { stage := .begun, id, rest }) :
    ∃ n, h.run (List.replicate n .proceed) =
      { h with
        sessions := (h.sessions.tryClose id).2
        closing := closingOf rest
        outcomes := h.outcomes ++ [(id, (h.sessions.tryClose id).1)] } := by
  obtain ⟨sessions, next, coming, guards, _, outcomes⟩ := h
  obtain rfl := closing
  unfold Sessions.tryClose
  cases found : sessions.get? id with
  | none => exact ⟨1, by simp [Hall.run, Hall.take, Hall.proceed, found, settle]⟩
  | some s =>
    by_cases busy : 1 < s.hold.activity
    · refine ⟨2, ?_⟩
      simp [Hall.run, Hall.take, Hall.proceed, found, busy, settle]
    · refine ⟨4, ?_⟩
      simp [Hall.run, Hall.take, Hall.proceed, found, busy, settle]

theorem proceed_closeEach (ids : List SessionId) (h : Hall) (closing : h.closing = closingOf ids) :
    ∃ n, h.run (List.replicate n .proceed) =
      { h with
        sessions := (closeEach h.sessions ids).2
        closing := none
        outcomes := h.outcomes ++ (closeEach h.sessions ids).1 } := by
  induction ids generalizing h with
  | nil =>
    refine ⟨0, ?_⟩
    obtain ⟨sessions, next, coming, guards, _, outcomes⟩ := h
    obtain rfl := closing
    simp [Hall.run, closeEach, closingOf]
  | cons id ids ih =>
    obtain ⟨n, first⟩ := proceed_tryClose closing
    obtain ⟨m, others⟩ := ih _ (congrArg Hall.closing first)
    refine ⟨n + m, ?_⟩
    rw [List.replicate_add, Hall.run, List.foldl_append]
    change ((h.run (List.replicate n .proceed)).run (List.replicate m .proceed)) = _
    rw [others, first]
    simp [closeEach]

theorem run_close (free : h.closing = none) (ids : List SessionId) :
    ∃ n, h.run (.close ids :: List.replicate n .proceed) =
      { h with
        sessions := (closeEach h.sessions ids).2
        outcomes := h.outcomes ++ (closeEach h.sessions ids).1 } := by
  obtain ⟨n, closed⟩ := proceed_closeEach ids { h with closing := closingOf ids } rfl
  refine ⟨n, ?_⟩
  have begun : h.take (.close ids) = { h with closing := closingOf ids } := by
    simp [Hall.take, free]
  change (h.take (.close ids)).run _ = _
  rw [begun, closed]
  simp only [free]

theorem closing_operations (r : Sessions) (id : SessionId) (now : Instant) :
    closeEach r [id] = ([(id, (r.tryClose id).1)], (r.tryClose id).2) ∧
      (r.sweep now).2 =
        (closeEach r (r.registered.filterMap fun s => (r.dueFor? now s).map fun _ => s.id)).2 ∧
      r.closeAll.2 = (closeEach r (r.registered.map Session.id)).2 := by
  refine ⟨rfl, ?_, ?_⟩
  · rw [Sessions.sweep, (tryCloseAll_eq _ _ _).1, List.map_filterMap]
    simp only [Option.map_map, Function.comp_def]
  · rw [Sessions.closeAll, (tryCloseAll_eq _ _ _).1, List.map_map]
    rfl

/-! ## All turns -/

theorem Sound.guarded (sound : h.Sound) (alive : id ∈ h.guards) :
    ∃ s, h.sessions.get? id = some s ∧ s.transport.closings = 0 ∧
      s.peerName = some s.transport.peer ∧ 0 < s.activity := by
  obtain ⟨s, mem, rfl⟩ := List.mem_map.1 (sound.known id alive)
  have keeps := sound.keeps s mem
  have attached := keeps.open' alive
  have held := List.count_pos_iff.2 alive
  refine ⟨s, ?_, keeps.whole.1 attached, by rw [Session.peerName, if_pos attached], ?_⟩
  · rw [get?_of_mem sound.ids mem, if_pos (keeps.present.2 (Or.inl attached))]
  · rw [keeps.counted]
    exact Nat.add_pos_left held _

theorem Sound.settled (sound : h.Sound) (idle : h.Idle) {s : Session}
    (mem : s ∈ h.sessions.all) :
    s.activity = h.guards.count s.id ∧
      (h.sessions.get? s.id = none ↔ s.transport.closings = 1) := by
  have keeps := sound.keeps s mem
  refine ⟨by rw [keeps.counted, ownHold_free idle.1, Nat.add_zero], ?_⟩
  rw [get?_of_mem sound.ids mem]
  have present := keeps.present.trans (or_iff_left (not_parting idle.1 s.id))
  have whole := keeps.whole
  have once := keeps.once
  by_cases registered : s.registered = true
  · have open_ := whole.1 (present.1 registered)
    rw [if_pos registered, open_]
    simp
  · have shut : s.transport.closings ≠ 0 := fun open_ => registered (present.2 (whole.2 open_))
    rw [if_neg registered]
    exact iff_of_true rfl (by omega)

/-- Over all turns of all threads. Every guard finds its session registered, open and counted, so
that no count is taken below nothing. Between operations a count is the number of guards, and just
the closed sessions are gone. A transport is closed at most once, by the step of a close that saw
no hold but its own, while no guard is alive. A close that finds another hold changes nothing but
its own outcome, whatever the others do meanwhile. -/
theorem guards_keep_sessions_open (timeout : Nat) (turns : List Turn) :
    let h := (start timeout).run turns
    (∀ id ∈ h.guards, ∃ s, h.sessions.get? id = some s ∧ s.transport.closings = 0 ∧
      s.peerName = some s.transport.peer ∧ 0 < s.activity) ∧
    (∀ s ∈ h.sessions.all, s.activity = h.guards.count s.id + h.ownHold s.id) ∧
    (h.Idle → ∀ s ∈ h.sessions.all, s.activity = h.guards.count s.id ∧
      (h.sessions.get? s.id = none ↔ s.transport.closings = 1)) ∧
    (∀ s ∈ h.sessions.all, s.transport.closings ≤ 1 ∧
      ∀ turn, ∀ s' ∈ (h.take turn).sessions.all, s'.id = s.id →
        s'.transport.closings ≠ s.transport.closings →
        turn = .proceed ∧ (∃ rest, h.closing = some { stage := .held 1, id := s.id, rest }) ∧
          s.id ∉ h.guards) ∧
    (∀ id rest s others, h.closing = some { stage := .begun, id, rest } →
      h.sessions.get? id = some s → 0 < s.activity → (∀ t ∈ others, t ≠ Turn.proceed) →
      h.run (.proceed :: others ++ [.proceed]) =
        { h.run others with
          closing := closingOf rest, outcomes := h.outcomes ++ [(id, .deferred)] }) := by
  intro h
  have sound : h.Sound := run_sound (start_sound timeout) turns
  refine ⟨fun id alive => sound.guarded alive, fun s mem => (sound.keeps s mem).counted,
    fun idle s mem => sound.settled idle mem, fun s mem => ⟨(sound.keeps s mem).once, ?_⟩, ?_⟩
  · exact fun turn s' mem' e closed => sound.closed_by mem mem' e closed
  · exact fun id rest s others begun found held other =>
      sound.deferred_unnoticed begun found held other

/-- A close is put off while a guard is alive, also where the guard goes before the close gives up;
the next one closes. -/
example : ((start 300).run [.number, .enter 1 0 "10.0.0.1:4000", .acquire 1, .close [1], .proceed,
    .release 0, .proceed, .close [1], .proceed, .proceed, .proceed, .proceed]).outcomes =
    [(1, .deferred), (1, .closed)] := by decide

end Hall
end MooCore
