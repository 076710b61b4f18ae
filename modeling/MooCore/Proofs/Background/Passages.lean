import MooCore.Proofs.Background.Lives
import MooCore.Proofs.Background.Traffic
/-!
# Lives in traffic

Whatever is under way at once, each request with a cleanup lives one of the lives there are, and has
come as far in it as its place says.
-/

set_option autoImplicit false
namespace MooCore.Background

variable {n : Nat} {task : TaskId} {h h' : Host} {place : Place} {next : Option Place}
  {p : Passage} {ps : List Passage} {r : Request} {c : Cleanup} {extra : Option Extra}
  {s s' : Traffic} {es : List Event}

namespace Place

/-- How far the life of a request has come that stands at a place. -/
def phase : Place → Phase
  | asked _ | admitted _ | queued _ | turned _ _ | enrolled _ _ | ready _ _ | working _ _ => .fresh
  | returned .. => .returned
  | stranded _ _ | abandoned _ => .cleaned false
  | cleaned .. => .cleaned true

def owes (place : Place) : Bool := place.phase.calls = 0

/-- The data at a place are those of the request. -/
def Bears (r : Request) : Place → Prop
  | asked r' | admitted r' | queued r' | turned r' _ | enrolled _ r' | ready _ r'
  | working _ r' => r' = r
  | returned _ _ extra cleanup => extra = r.extra ∧ cleanup = r.cleanup
  | stranded _ _ | abandoned _ | cleaned .. => True

end Place

/-- The events of calling a cleanup. -/
def Host.calling (h : Host) (n : Nat) (extra : Option Extra) (cleanup : Option Cleanup) :
    List Event :=
  (cleanup.map fun c => .cleaned n c (extra.map h.showExtra) h.locked).toList

namespace Host

theorem dropExtra_trace (h : Host) (extra : Option Extra) :
    (h.dropExtra extra).trace = h.trace ∧ (h.dropExtra extra).locked = h.locked := by
  rcases extra with _ | _ | _ <;> exact ⟨rfl, rfl⟩

theorem cleanUp_trace (h : Host) (n : Nat) (extra : Option Extra) (cleanup : Option Cleanup) :
    (h.cleanUp n extra cleanup).2.trace = h.trace ++ h.calling n extra cleanup ∧
      (h.cleanUp n extra cleanup).2.locked = h.locked := by
  cases cleanup with
  | none => exact ⟨(List.append_nil _).symm, rfl⟩
  | some c => exact dropExtra_trace _ _

theorem abandon_trace (h : Host) (n : Nat) (e : Envelope) :
    (h.abandon n e).trace = h.trace ++ h.calling n e.extra e.cleanup ∧
      (h.abandon n e).locked = h.locked := by
  obtain ⟨trace, locked⟩ := h.cleanUp_trace n e.extra e.cleanup
  obtain ⟨trace', locked'⟩ := dropExtra_trace
    ((h.cleanUp n e.extra e.cleanup).2.drop e.argument) (h.cleanUp n e.extra e.cleanup).1
  exact ⟨trace'.trans trace, locked'.trans locked⟩

/-- What a job leaves when its request is over, but for its extra data: the waiter is gone, and one
end is told. -/
structure Over (n : Nat) (handle : Handle) (h h' : Host) : Prop where
  gateway : h'.gateway = h.gateway.remove handle
  made : h'.made = h.made
  locked : h'.locked = false
  trace : ∃ e m, h'.trace = h.trace ++ [e] ∧ e.mark? = some (n, m) ∧ m.closes = true ∧ m ≠ .refused

theorem Over.dropExtra {handle : Handle} (ends : Over n handle h h') (extra : Option Extra) :
    Over n handle h (h'.dropExtra extra) := by
  obtain ⟨trace, locked⟩ := dropExtra_trace h' extra
  have aside := h'.dropExtra_aside extra
  refine ⟨aside.gateway.trans ends.gateway, aside.made.trans ends.made, locked.trans ends.locked, ?_⟩
  rw [trace]
  exact ends.trace

theorem retire_ends (h : Host) (n : Nat) (handle : Handle) (task : TaskId) (v : Value)
    (extra : Option Extra) : Over n handle h (h.retire n handle task v extra) := by
  refine Over.dropExtra ?_ extra
  split
  · exact ⟨rfl, rfl, rfl, _, .vanished, rfl, rfl, rfl, nofun⟩
  · split
    · exact ⟨rfl, rfl, rfl, _, .discarded, rfl, rfl, rfl, nofun⟩
    · split
      · exact ⟨rfl, rfl, rfl, _, .lost, rfl, rfl, rfl, nofun⟩
      · exact ⟨rfl, rfl, rfl, _, .sent, rfl, rfl, rfl, nofun⟩

end Host

/-! ## What a step tells -/

/-- What a step of one request does while nobody holds the lock: it tells about that request only,
and goes on with its life. -/
structure Told (n : Nat) (h : Host) (place : Place) (h' : Host) (next : Option Place) : Prop where
  made : h'.made = h.made
  locked : h'.locked = false
  trace : ∃ es, h'.trace = h.trace ++ es ∧ (∀ e ∈ es, e.subject? = some n) ∧
    ∀ r c l, place.Bears r → r.cleanup = some c → Life n c r.extra l place.phase →
      ∃ ran, Life n c r.extra (l ++ es) ((next.map Place.phase).getD (.closed ran))
  bears : ∀ r, place.Bears r → ∀ place', next = some place' → place'.Bears r

theorem Told.quiet {place' : Place} (made : h'.made = h.made) (locked : h'.locked = false)
    (trace : h'.trace = h.trace) (phase : place'.phase = place.phase)
    (bears : ∀ r, place.Bears r → place'.Bears r) : Told n h place h' (some place') where
  made := made
  locked := locked
  trace := by
    refine ⟨[], by rw [trace, List.append_nil], nofun, fun r c l _ _ life => ⟨true, ?_⟩⟩
    rwa [List.append_nil, Option.map_some, Option.getD_some, phase]
  bears := fun r its _ same => Option.some.inj same ▸ bears r its

theorem Told.single {e : Event} (made : h'.made = h.made) (locked : h'.locked = false)
    (trace : h'.trace = h.trace ++ [e]) (its : e.subject? = some n)
    (life : ∀ r c l, place.Bears r → Life n c r.extra l place.phase →
      ∃ ran, Life n c r.extra (l ++ [e]) ((next.map Place.phase).getD (.closed ran)))
    (bears : ∀ r, place.Bears r → ∀ place', next = some place' → place'.Bears r) :
    Told n h place h' next where
  made := made
  locked := locked
  trace := ⟨[e], trace, fun _ he => List.mem_singleton.1 he ▸ its, fun r c l bears _ =>
    life r c l bears⟩
  bears := bears

theorem Told.last {e : Event} {m : Mark} {ran : Bool} (made : h'.made = h.made)
    (locked : h'.locked = false) (trace : h'.trace = h.trace ++ [e]) (said : e.mark? = some (n, m))
    (closes : m.closes = true) (how : m = .refused ↔ ran = false)
    (phase : place.phase = .cleaned ran) : Told n h place h' none :=
  .single (e := e) made locked trace (subject_of_mark said)
    (fun _ _ _ _ life => ⟨ran, (phase ▸ life).closed said closes how⟩)
    (fun _ _ _ same => nomatch same)

theorem Told.called {place' : Place} {extra : Option Extra} {cleanup : Option Cleanup}
    (unlocked : h.locked = false) (made : h'.made = h.made)
    (trace : h'.trace = h.trace ++ h.calling n extra cleanup ∧ h'.locked = h.locked)
    (its : ∀ r, place.Bears r → extra = r.extra ∧ cleanup = r.cleanup)
    (due : (place.phase = .fresh ∧ place'.phase = .cleaned false) ∨
      (place.phase = .returned ∧ place'.phase = .cleaned true))
    (bears : ∀ r, place'.Bears r) : Told n h place h' (some place') where
  made := made
  locked := trace.2.trans unlocked
  trace := by
    refine ⟨_, trace.1, ?_, fun r c l its' some_c life => ⟨true, ?_⟩⟩
    · intro e he
      obtain ⟨c, -, rfl⟩ := Option.mem_toList.1 he |> Option.map_eq_some_iff.1
      rfl
    · obtain ⟨rfl, rfl⟩ := its r its'
      rw [Host.calling, some_c, unlocked]
      change Life n c r.extra _ place'.phase
      rcases due with ⟨before, after⟩ | ⟨before, after⟩
      · rw [before] at life
        rw [after]
        exact life.turned (shown_self h _)
      · rw [before] at life
        rw [after]
        exact life.cleaned (shown_self h _)
  bears := fun r _ _ same => Option.some.inj same ▸ bears r

theorem Place.Step.told (step : place.Step n task h h' next) (unlocked : h.locked = false) :
    Told n h place h' next := by
  cases step with
  | shut | admitted | inline | queued | turned | begun =>
    exact .quiet rfl unlocked rfl rfl fun _ its => its
  | enrolled => exact .quiet rfl rfl rfl rfl fun _ its => its
  | @abandoned r =>
    exact .called unlocked (h.abandon_aside n r.toEnvelope).made (h.abandon_trace n r.toEnvelope)
      (fun _ its => its ▸ ⟨rfl, rfl⟩) (Or.inl ⟨rfl, rfl⟩) fun _ => trivial
  | @failed _ r =>
    exact .called unlocked (h.abandon_aside n r.toEnvelope).made (h.abandon_trace n r.toEnvelope)
      (fun _ its => its ▸ ⟨rfl, rfl⟩) (Or.inl ⟨rfl, rfl⟩) fun _ => trivial
  | @cleaned _ _ extra cleanup =>
    exact .called unlocked (h.cleanUp_aside n extra cleanup).made (h.cleanUp_trace n extra cleanup)
      (fun _ its => its) (Or.inr ⟨rfl, rfl⟩) fun _ => trivial
  | refused => exact .last (m := .refused) rfl unlocked rfl rfl rfl (by simp) rfl
  | started =>
    exact .single rfl unlocked rfl rfl
      (fun r c l _ life => ⟨true, life.marked rfl (Or.inl rfl)⟩)
      fun r its _ same => Option.some.inj same ▸ its
  | withdrawn => exact .quiet rfl rfl rfl rfl fun _ its => its
  | returned ending =>
    have aside := h.result_aside ending
    refine .single (e := .returned n (h.result ending).1) aside.made ?_ ?_ rfl
      (fun r c l _ life => ⟨true, life.returned _⟩)
      fun r its _ same => Option.some.inj same ▸ its ▸ ⟨rfl, rfl⟩
    · cases ending <;> exact unlocked
    · cases ending <;> rfl
  | @immediate v extra =>
    obtain ⟨trace, locked⟩ := h.dropExtra_trace extra
    exact .last (m := .immediate) (h.dropExtra_aside extra).made (locked.trans unlocked)
      (congrArg (· ++ _) trace) rfl rfl (by simp) rfl
  | @retired handle v extra =>
    have ends := h.retire_ends n handle task v extra
    obtain ⟨e, m, trace, said, closes, ran⟩ := ends.trace
    exact .last ends.made ends.locked trace said closes (by simp [ran]) rfl

/-! ## Every life goes on -/

/-- Nobody is left with the lock, and every request has a life that has come as far as the request
itself. -/
structure Traffic.Sound (s : Traffic) : Prop where
  unlocked : s.host.locked = false
  distinct : (s.passages.map Passage.request).Nodup
  current : ∀ p ∈ s.passages, ∃ r, s.host.made[p.request]? = some (p.task, r) ∧ p.place.Bears r ∧
    ∀ c, r.cleanup = some c →
      Life p.request c r.extra (lifeOf p.request s.host.trace) p.place.phase
  closed : ∀ n task r c, s.host.made[n]? = some (task, r) → n ∉ s.passages.map Passage.request →
    r.cleanup = some c → ∃ ran, Life n c r.extra (lifeOf n s.host.trace) (.closed ran)
  unmade : ∀ n, s.host.made.length ≤ n → ∀ c extra,
    Life n c extra (lifeOf n s.host.trace) .fresh

namespace Traffic.Sound

theorem request_lt (sound : Sound s) (hp : p ∈ s.passages) : p.request < s.host.made.length := by
  obtain ⟨r, made, -⟩ := sound.current p hp
  exact (List.getElem?_eq_some_iff.1 made).1

theorem extend (sound : Sound ⟨h, ps⟩) (made : h'.made = h.made) (unlocked : h'.locked = false)
    (lives : ∀ n c extra phase, Life n c extra (lifeOf n h.trace) phase →
      Life n c extra (lifeOf n h'.trace) phase) : Sound ⟨h', ps⟩ where
  unlocked := unlocked
  distinct := sound.distinct
  current := fun p hp => by
    obtain ⟨r, its, bears, life⟩ := sound.current p hp
    exact ⟨r, by rw [made]; exact its, bears, fun c some_c => lives _ _ _ _ (life c some_c)⟩
  closed := fun n task r c its gone some_c => by
    rw [made] at its
    obtain ⟨ran, life⟩ := sound.closed n task r c its gone some_c
    exact ⟨ran, lives _ _ _ _ life⟩
  unmade := fun n beyond c extra => by
    rw [made] at beyond
    exact lives _ _ _ _ (sound.unmade n beyond c extra)

theorem order (sound : Sound ⟨h, ps⟩) {ps' : List Passage} (same : ps.Perm ps') :
    Sound ⟨h, ps'⟩ where
  unlocked := sound.unlocked
  distinct := (same.map _).nodup_iff.1 sound.distinct
  current := fun p hp => sound.current p (same.symm.subset hp)
  closed := fun n task r c its gone => sound.closed n task r c its fun there =>
    gone ((same.map _).subset there)
  unmade := sound.unmade

theorem ask (sound : Sound s) (task : TaskId) (r : Request) :
    Sound ⟨(s.host.count task r).2,
      { request := (s.host.count task r).1, task, place := .asked r } :: s.passages⟩ where
  unlocked := sound.unlocked
  distinct := by
    rw [List.map_cons, List.nodup_cons]
    refine ⟨fun there => ?_, sound.distinct⟩
    obtain ⟨p, hp, same⟩ := List.mem_map.1 there
    have lt := sound.request_lt hp
    rw [same] at lt
    exact Nat.lt_irrefl _ lt
  current := fun p hp => by
    rcases List.mem_cons.1 hp with rfl | hp
    · refine ⟨r, by simp [Host.count], rfl, fun c _ => ?_⟩
      exact sound.unmade _ (Nat.le_refl _) c r.extra
    · obtain ⟨r', its, bears, life⟩ := sound.current p hp
      refine ⟨r', ?_, bears, life⟩
      exact (List.getElem?_append_left (sound.request_lt hp)).trans its
  closed := fun n task' r' c its gone some_c => by
    rw [List.map_cons, List.mem_cons, not_or] at gone
    refine sound.closed n task' r' c ?_ gone.2 some_c
    change (s.host.made ++ [(task, r)])[n]? = _ at its
    rcases Nat.lt_trichotomy n s.host.made.length with lt | eq | gt
    · rwa [List.getElem?_append_left lt] at its
    · exact absurd eq gone.1
    · rw [List.getElem?_eq_none (by simpa using gt)] at its
      cases its
  unmade := fun n beyond c extra => by
    refine sound.unmade n ?_ c extra
    simp only [Host.count, List.length_append, List.length_singleton] at beyond
    omega

/-- One request goes on, or is over. -/
theorem go (sound : Sound ⟨h, { request := n, task, place } :: ps⟩) (told : Told n h place h' next) :
    Sound ⟨h', (next.map fun place => { request := n, task, place }).toList ++ ps⟩ := by
  obtain ⟨made, locked, ⟨es, trace, own, on⟩, bears⟩ := told
  have distinct := sound.distinct
  rw [List.map_cons, List.nodup_cons] at distinct
  obtain ⟨apart, distinct⟩ := distinct
  have others : ∀ k, k ≠ n → lifeOf k h'.trace = lifeOf k h.trace := by
    intro k ne
    have none_own : lifeOf k es = [] := lifeOf_others fun e he j its same => by
      rw [own e he] at its
      cases its
      exact ne same.symm
    rw [trace, lifeOf_append, none_own, List.append_nil]
  have its_own : lifeOf n h'.trace = lifeOf n h.trace ++ es := by
    rw [trace, lifeOf_append]
    congr 1
    exact List.filter_eq_self.2 fun e he => by simp [own e he]
  obtain ⟨r, its, its_bears, life⟩ := sound.current _ (List.mem_cons_self ..)
  have lives := fun c some_c => on r c _ its_bears some_c (life c some_c)
  have rest : ∀ p ∈ ps, ∃ r, h'.made[p.request]? = some (p.task, r) ∧ p.place.Bears r ∧
      ∀ c, r.cleanup = some c → Life p.request c r.extra (lifeOf p.request h'.trace)
        p.place.phase := by
    intro p hp
    have ne : p.request ≠ n := fun same => apart (List.mem_map.2 ⟨p, hp, same⟩)
    rw [others _ ne, made]
    exact sound.current p (List.mem_cons_of_mem _ hp)
  have beyond : ∀ k, h'.made.length ≤ k → ∀ c extra, Life k c extra (lifeOf k h'.trace) .fresh := by
    intro k le c extra
    rw [made] at le
    have lt := sound.request_lt (List.mem_cons_self ..)
    have ne : k ≠ n := Nat.ne_of_gt (Nat.lt_of_lt_of_le lt le)
    rw [others k ne]
    exact sound.unmade k le c extra
  cases next with
  | some place' =>
    refine ⟨locked, List.nodup_cons.2 ⟨apart, distinct⟩, fun p hp => ?_,
      fun k task' r' c there gone some_c => ?_, beyond⟩
    · rcases List.mem_cons.1 hp with rfl | hp
      · refine ⟨r, by rw [made]; exact its, bears r its_bears place' rfl, fun c some_c => ?_⟩
        obtain ⟨_, later⟩ := lives c some_c
        rw [its_own]
        exact later
      · exact rest p hp
    · have ne : k ≠ n := fun same => gone (same ▸ List.mem_cons_self ..)
      rw [others k ne]
      rw [made] at there
      exact sound.closed k task' r' c there gone some_c
  | none =>
    refine ⟨locked, distinct, rest, fun k task' r' c there gone some_c => ?_, beyond⟩
    rw [made] at there
    by_cases same : k = n
    · subst same
      rw [its] at there
      cases there
      obtain ⟨ran, life⟩ := lives c some_c
      exact ⟨ran, by rw [its_own]; exact life⟩
    · rw [others k same]
      refine sound.closed k task' r' c there (fun there => ?_) some_c
      rcases List.mem_cons.1 there with rfl | there
      · exact same rfl
      · exact gone there

theorem silence (sound : Sound ⟨h, ps⟩) (made : h'.made = h.made) (unlocked : h'.locked = false)
    {ks : List Nat} (trace : h'.trace = h.trace ++ ks.map .silenced) : Sound ⟨h', ps⟩ :=
  sound.extend made unlocked fun n c extra phase life => by
    rw [trace, lifeOf_append]
    exact life.silence ks

theorem step (sound : Sound s) (step : s.Step s') : Sound s' := by
  cases step with
  | ask _ task r => exact sound.ask task r
  | go step => exact sound.go (step.told sound.unlocked)
  | order same => exact sound.order same
  | kill _ task =>
    let silenced := (s.host.gateway.waiters.filter (·.task = task)).map Waiter.request
    have trace : (s.host.killWaiters task).2.trace = s.host.trace ++ silenced.map .silenced := by
      rw [List.map_map]
      rfl
    exact sound.silence rfl rfl trace
  | enumerate _ rule => exact sound.silence rfl sound.unlocked rfl
  | remark _ r =>
    refine sound.extend rfl sound.unlocked fun n c extra phase life => ?_
    have mute : lifeOf n [.remark r] = [] := lifeOf_others fun e he k its => by
      cases List.mem_singleton.1 he
      cases its
    change Life n c extra (lifeOf n (s.host.trace ++ [.remark r])) phase
    rwa [lifeOf_append, mute, List.append_nil]
  | elsewhere _ _ _ _ _ _ made trace locked =>
    exact sound.extend made (locked.trans sound.unlocked) fun n c extra phase life => by
      rwa [trace]

theorem runs (sound : Sound s) (runs : s.Runs s') : Sound s' := by
  induction runs with
  | refl => exact sound
  | tail _ last ih => exact ih.step last

end Traffic.Sound

end MooCore.Background
