import MooCore.Proofs.Scheduler.Moves
/-!
# Steps that keep the order

A task that is killed or ends is gone with its turns, and its errands are of no account any more. A
task that makes a request goes on its errand at the moment it is parked, and otherwise goes on.
-/

set_option autoImplicit false
namespace MooCore
namespace Scheduler
open Background

variable {p : Prop} {s s' : Scheduler} {hand hand' : Hand} {task id : TaskId}
  {condemned : List TaskId}

/-! ## Killing -/

theorem killWaiters_errands (h : Host) (task : TaskId) :
    (h.killWaiters task).2.errands = h.errands := by
  simp only [Host.killWaiters, Host.locking, Host.noteAll, Gateway.kill, Host.errands, List.map_map]
  refine congrArg (· ++ _) (List.map_congr_left fun w _ => ?_)
  rw [Function.comp_apply]
  split <;> rfl

theorem killWaiters_fine (h : Host) (task : TaskId) :
    Fine h.trace (h.killWaiters task).2.trace := by
  refine ⟨_, rfl, fun e he => ?_⟩
  obtain ⟨w, -, rfl⟩ := List.mem_map.1 he
  rfl

def strike (s : Scheduler) (task : TaskId) : Scheduler :=
  { s with
    toHost := (s.toHost.killWaiters task).2
    tasks := s.tasks.erase task
    ready := s.ready.filter (·.1 ≠ task) }

theorem Orderly.erase_keys (orderly : s.Orderly hand) (task : TaskId) :
    id ∈ (s.tasks.erase task).map Prod.fst ↔ id ∈ s.tasks.map Prod.fst ∧ id ≠ task := by
  rw [Named.erase_eq_filter orderly.roster.distinct]
  simp only [List.mem_map, List.mem_filter, decide_eq_true_eq]
  constructor
  · rintro ⟨x, ⟨hx, ne⟩, rfl⟩
    exact ⟨⟨x, hx, rfl⟩, ne⟩
  · rintro ⟨⟨x, hx, rfl⟩, ne⟩
    exact ⟨x, ⟨hx, ne⟩, rfl⟩

theorem Orderly.strike (orderly : s.Orderly hand) (task : TaskId)
    (fewer : ∀ id ∈ hand.condemned, id = task ∨ id ∈ condemned) :
    (s.strike task).Orderly { hand with condemned } where
  kept := orderly.kept.killWaiters task
  listening := orderly.listening
  fine := (killWaiters_fine s.toHost task).all orderly.fine
  roster := by
    have turns : ((s.ready.filter (·.1 ≠ task)).map Prod.fst) =
        (s.ready.map Prod.fst).filter (· ≠ task) := by
      rw [List.filter_map]
      rfl
    have errands : (s.strike task).errands = s.errands := killWaiters_errands s.toHost task
    rw [abroad, errands]
    refine orderly.roster.remove task ?_ fun x ne => ?_
    · refine List.append_subset.2 ⟨List.subset_append_left _ _, ?_⟩
      exact fun n hn => List.mem_append_right _ ((List.filter_sublist.map _).subset hn)
    · rw [Scheduler.turns, Scheduler.turns, List.count_append, List.count_append,
        Scheduler.strike, turns, List.count_filter (by simpa using ne)]
  live := fun x hx => by
    obtain ⟨hx, ne⟩ := List.mem_filter.1 hx
    exact (orderly.erase_keys task).2 ⟨orderly.live x hx, by simpa using ne⟩
  wanted := fun w hw => by
    obtain ⟨u, hu, rfl⟩ := List.mem_map.1 hw
    by_cases its : u.task = task
    · rw [if_pos its]
      exact Or.inr (Or.inl fun there => ((orderly.erase_keys task).1 there).2 its)
    · rw [if_neg its]
      rcases orderly.wanted u hu with active | gone | doomed
      · exact Or.inl active
      · exact Or.inr (Or.inl fun there => gone ((orderly.erase_keys task).1 there).1)
      · exact Or.inr (Or.inr ((fewer _ doomed).resolve_left its))
  resumed := fun id v hx => by
    obtain ⟨c, taken, its⟩ := orderly.resumed id v (List.mem_of_mem_filter hx)
    exact ⟨c, (killWaiters_fine s.toHost task).subset taken, its⟩
  calm := { orderly.calm with
    bodies := fun x hx => orderly.calm.bodies x (List.mem_of_mem_eraseP hx) }

theorem Orderly.pardon (orderly : s.Orderly hand) (gone : task ∉ s.tasks.map Prod.fst)
    (fewer : ∀ id ∈ hand.condemned, id = task ∨ id ∈ condemned) :
    s.Orderly { hand with condemned } :=
  { orderly with
    wanted := fun w hw => by
      rcases orderly.wanted w hw with active | absent | doomed
      · exact Or.inl active
      · exact Or.inr (Or.inl absent)
      · rcases fewer _ doomed with rfl | doomed
        · exact Or.inr (Or.inl gone)
        · exact Or.inr (Or.inr doomed) }

theorem kill_onward_of (s : Scheduler) (task : TaskId) (hand : Hand)
    (fewer : ∀ id ∈ hand.condemned, id = task ∨ id ∈ condemned) :
    Onward p s hand (s.kill task).2 { hand with condemned } := by
  unfold kill
  cases found : s.tasks.get? task with
  | none =>
    exact ⟨Nat.le_refl _, fun _ _ orderly => orderly.pardon (Named.get?_eq_none.1 found) fewer⟩
  | some t =>
    have noted : Alike s (s.note (.killed task t.player)) := s.note_alike rfl rfl
    have struck : Onward p (s.note (.killed task t.player)) hand
        ((s.note (.killed task t.player)).strike task) { hand with condemned } :=
      ⟨Nat.le_refl _, fun _ _ orderly => orderly.strike task fewer⟩
    have told : ∀ s' : Scheduler,
        Alike s' (if t.answerable then s'.answer task (.error .cancelled) else s') := by
      intro s'
      split
      · exact answer_alike _ _ _
      · exact Alike.refl s'
    refine (noted.onward hand).trans (struck.trans (Alike.onward ?_ _))
    exact (releaseAll_alike _ _).trans
      ((stats_alike _ _).trans ((told _).trans (releaseAll_alike _ _)))

theorem kill_onward (s : Scheduler) (task : TaskId) (hand : Hand) :
    Onward p s hand (s.kill task).2 hand :=
  kill_onward_of s task hand fun _ doomed => Or.inr doomed

theorem killAsked_onward (s : Scheduler) (hand : Hand) : Onward p s hand s.killAsked hand := by
  have forgot : Alike s { s with asked := [] } := .of_same rfl
  exact (forgot.onward hand).trans
    (Onward.foldl (fun task _ s => s.kill_onward task hand) { s with asked := [] })

theorem killAll_onward (s : Scheduler) (tasks : List TaskId) (hand : Hand) :
    Onward p s { hand with condemned := tasks ++ hand.condemned } (s.killAll tasks).2 hand := by
  induction tasks generalizing s with
  | nil => exact Onward.refl s hand
  | cons task tasks ih =>
    have first : Onward p s { hand with condemned := task :: tasks ++ hand.condemned }
        (s.kill task).2 { hand with condemned := tasks ++ hand.condemned } :=
      s.kill_onward_of task { hand with condemned := task :: tasks ++ hand.condemned }
        fun _ doomed => List.mem_cons.1 doomed
    rw [killAll]
    split
    · rename_i s' killed
      rw [killed] at first
      exact first.trans (ih s')
    · rename_i s' killed
      rw [killed] at first
      exact first.trans (ih s')

/-- Whoever is picked is condemned. -/
theorem Orderly.enumerate (orderly : s.Orderly hand) (rule : TaskId → String → Verdict) :
    ({ s with toHost := (s.toHost.enumerate rule).2 } : Scheduler).Orderly
      { hand with condemned := (s.toHost.enumerate rule).1.killed ++ hand.condemned } := by
  obtain ⟨picked, sub, table, silenced, killed⟩ :=
    Books.offer_eq rule s.gateway s.gateway.waiters
  rw [Books.deactivateAll_eq] at table
  have waiters : (s.toHost.enumerate rule).2.gateway.waiters = s.gateway.waiters.map fun w =>
      if w.handle ∈ picked.map Waiter.handle then { w with active := false } else w :=
    congrArg Gateway.waiters table
  have more : Fine s.trace (s.toHost.enumerate rule).2.trace := by
    refine ⟨_, rfl, fun e he => ?_⟩
    obtain ⟨n, -, rfl⟩ := List.mem_map.1 he
    rfl
  have errands : (s.toHost.enumerate rule).2.errands = s.errands := by
    rw [Host.errands, waiters, List.map_map]
    refine congrArg (· ++ _) (List.map_congr_left fun w _ => ?_)
    rw [Function.comp_apply]
    split <;> rfl
  refine ⟨orderly.kept.enumerate rule, orderly.listening, more.all orderly.fine, ?_, orderly.live,
    fun w hw => ?_, fun id v hx => ?_, { orderly.calm with bodies := orderly.calm.bodies }⟩
  · rw [abroad, errands]
    exact orderly.roster
  · rw [waiters] at hw
    obtain ⟨u, hu, rfl⟩ := List.mem_map.1 hw
    by_cases taken : u.handle ∈ picked.map Waiter.handle
    · obtain ⟨v, hv, same⟩ := List.mem_map.1 taken
      have distinct := orderly.kept.books.numbered.distinct
      have found := Gateway.waiter?_of_mem distinct (sub.subset hv)
      rw [same, Gateway.waiter?_of_mem distinct hu] at found
      cases found
      rw [if_pos taken]
      have doomed : u.task ∈ (s.gateway.offer rule s.gateway.waiters).1.killed :=
        killed ▸ List.mem_map_of_mem hv
      exact Or.inr (Or.inr (List.mem_append_left _ doomed))
    · rw [if_neg taken]
      rcases orderly.wanted u hu with active | gone | doomed
      · exact Or.inl active
      · exact Or.inr (Or.inl gone)
      · exact Or.inr (Or.inr (List.mem_append_right _ doomed))
  · obtain ⟨c, taken, its⟩ := orderly.resumed id v hx
    exact ⟨c, more.subset taken, its⟩

theorem killMatching_onward (s : Scheduler) (rule : TaskId → String → Verdict) (hand : Hand) :
    Onward p s hand (s.killMatching rule).2.2 hand := by
  have offered : Onward p s hand { s with toHost := (s.toHost.enumerate rule).2 }
      { hand with condemned := (s.toHost.enumerate rule).1.killed ++ hand.condemned } :=
    ⟨(enumerate_grows s.toHost rule).longest, fun _ _ orderly => orderly.enumerate rule⟩
  exact offered.trans (killAll_onward _ _ hand)

/-! ## Ends and beginnings -/

theorem Orderly.dismiss (orderly : s.Orderly { hand with free := some task }) :
    ({ s with tasks := s.tasks.erase task } : Scheduler).Orderly { hand with free := none } where
  kept := orderly.kept
  listening := orderly.listening
  fine := orderly.fine
  roster := by
    have removed := orderly.roster.remove task (fun _ hn => hn) fun _ _ => rfl
    exact removed.leave fun there => ((orderly.erase_keys task).1 there).2 rfl
  live := fun x hx => by
    refine (orderly.erase_keys task).2 ⟨orderly.live x hx, ?_⟩
    rintro rfl
    exact (orderly.roster.own x.1 rfl).2.1 (List.mem_append_right _ (List.mem_map_of_mem hx))
  wanted := fun w hw => (orderly.wanted w hw).imp_right fun rest => rest.imp_left fun gone there =>
    gone ((orderly.erase_keys task).1 there).1
  resumed := orderly.resumed
  calm := { orderly.calm with
    bodies := fun x hx => orderly.calm.bodies x (List.mem_of_mem_eraseP hx) }

theorem Orderly.leave (orderly : s.Orderly { hand with free := some task })
    (gone : task ∉ s.tasks.map Prod.fst) : s.Orderly { hand with free := none } :=
  { orderly with roster := orderly.roster.leave gone }

theorem tellSession_alike (s : Scheduler) (t : Task) (result : Except String Value) :
    Alike s (s.tellSession t result) := by
  unfold tellSession
  split
  · exact s.sendLine_alike _ _
  · exact Alike.refl s

theorem tellHandle_alike (s : Scheduler) (task : TaskId) (t : Task)
    (result : Except String Value) : Alike s (s.tellHandle task t result) := by
  unfold tellHandle
  split
  · cases result with
    | ok v => exact (s.keep_alike v).trans (answer_alike _ _ _)
    | error message => exact s.answer_alike _ _
  · exact Alike.refl s

theorem complete_onward (s : Scheduler) (task : TaskId) (result : Except String Value)
    (hand : Hand) :
    Onward p s { hand with free := some task } (s.complete task result)
      { hand with free := none } := by
  rw [complete_eq]
  cases found : s.tasks.get? task with
  | none =>
    exact ⟨Nat.le_refl _, fun _ _ orderly => orderly.leave (Named.get?_eq_none.1 found)⟩
  | some t =>
    have gone : Onward p s { hand with free := some task }
        { s with tasks := s.tasks.erase task } { hand with free := none } :=
      ⟨Nat.le_refl _, fun _ _ orderly => orderly.dismiss⟩
    have noted : Alike { s with tasks := s.tasks.erase task }
        ({ s with tasks := s.tasks.erase task, stats := countEnd s.stats result }.note
          (.ended task result)) := (stats_alike _ _).trans (note_alike _ rfl rfl)
    exact gone.trans (Alike.onward (noted.trans
      ((tellSession_alike _ t result).trans (tellHandle_alike _ task t result))) _)

theorem finish_onward (s : Scheduler) (task : TaskId) (result : Except String Value)
    (hand : Hand) :
    Onward p s { hand with free := some task } (s.finish task result).2
      { hand with free := none } :=
  (s.complete_onward task result hand).trans (killAsked_onward _ _)

theorem Orderly.join (orderly : s.Orderly hand) {t : Task} {b : Body} (body : t.body = some b)
    (waiting : t.waiting = none) (calm : b.Calm) :
    ({ s with lastTask := s.lastTask + 1, tasks := s.tasks.set (s.lastTask + 1) t } :
      Scheduler).Orderly { hand with batch := (s.lastTask + 1) :: hand.batch } where
  kept := orderly.kept
  listening := orderly.listening
  fine := orderly.fine
  roster := orderly.roster.join (by rw [body]; rfl) waiting
  live := fun x hx => Named.set_keys.2 (Or.inl (orderly.live x hx))
  wanted := fun w hw => by
    refine (orderly.wanted w hw).imp_right fun rest => rest.imp_left fun gone there => ?_
    rcases Named.set_keys.1 there with old | new
    · exact gone old
    · have known : w.task ≤ s.lastTask := orderly.roster.sent w.errand
        (List.mem_append_left _ (List.mem_append_left _ (List.mem_map_of_mem hw)))
      exact Nat.not_succ_le_self _ (new ▸ known)
  resumed := orderly.resumed
  calm := { orderly.calm with
    bodies := fun x hx b' hb => by
      rcases Named.mem_set hx with old | rfl
      · exact orderly.calm.bodies x old b' hb
      · rw [body] at hb
        exact Option.some.inj hb ▸ calm }

theorem createTask_onward {body : Body} (calm : p → body.Calm) (s : Scheduler) (player : Obj)
    (session : Option SessionId) (answerable : Bool) (hand : Hand) :
    Onward p s hand (s.createTask player session body answerable).2
      { hand with batch := (s.lastTask + 1) :: hand.batch } := by
  let t : Task := { player, session, description := body.description, body := some body,
                    answerable }
  have joined : Onward p s hand
      { s with lastTask := s.lastTask + 1, tasks := s.tasks.set (s.lastTask + 1) t }
      { hand with batch := (s.lastTask + 1) :: hand.batch } :=
    ⟨Nat.le_refl _, fun given _ orderly => orderly.join (t := t) rfl rfl (calm given)⟩
  exact joined.trans (((stats_alike _ _).trans (note_alike _ rfl rfl)).onward _)

theorem Orderly.enqueue {input : Input}
    (orderly : s.Orderly { hand with batch := id :: hand.batch })
    (live : id ∈ s.tasks.map Prod.fst)
    (resumed : ∀ v, input = .resume v → ∃ c, .taken c ∈ s.trace ∧ c.task = id ∧ c.result = v) :
    (s.enqueue id input).Orderly hand :=
  { orderly with
    roster := by
      refine orderly.roster.perm ?_ (List.Perm.refl _)
      simp only [turns, Scheduler.enqueue, List.map_append, List.map_cons, List.map_nil,
        List.cons_append, ← List.append_assoc]
      exact (List.perm_append_singleton _ _).symm
    live := fun x hx => by
      rcases List.mem_append.1 hx with old | new
      · exact orderly.live x old
      · exact List.mem_singleton.1 new ▸ live
    resumed := fun n v hx => by
      rcases List.mem_append.1 hx with old | new
      · exact orderly.resumed n v old
      · obtain ⟨rfl, same⟩ := Prod.mk.inj (List.mem_singleton.1 new)
        exact resumed v same.symm
    calm := { orderly.calm with bodies := orderly.calm.bodies } }

theorem enlist_onward {body : Body} (calm : p → body.Calm) (s : Scheduler) (player : Obj)
    (session : Option SessionId) (answerable : Bool) (hand : Hand) :
    Onward p s hand
      ((s.createTask player session body answerable).2.enqueue (s.lastTask + 1) .start) hand := by
  have created := createTask_onward calm s player session answerable hand
  refine created.trans ⟨Nat.le_refl _, fun _ _ orderly => orderly.enqueue ?_ nofun⟩
  exact Named.set_keys.2 (Or.inr rfl)

/-! ## Requests -/

theorem Orderly.host (orderly : s.Orderly hand) (out : List Errand) {h : Host} (kept : Kept h [])
    (listening : h.listening = s.listening) (trace : Fine s.trace h.trace)
    (waiters : ∀ w ∈ h.gateway.waiters, w ∈ s.gateway.waiters ∨ w.active = true)
    (jobs : ∀ j ∈ h.jobs, ∀ r, j.stage = .ready r → j ∈ s.jobs ∨ Callback.Calm r.callback)
    (roster : Roster s.tasks s.lastTask (s.turns hand) (h.errands ++ out) hand.free) :
    ({ s with toHost := h } : Scheduler).Orderly { hand with out } where
  kept := kept
  listening := listening.trans orderly.listening
  fine := trace.all orderly.fine
  roster := roster
  live := orderly.live
  wanted := fun w hw => (waiters w hw).elim (orderly.wanted w) Or.inl
  resumed := fun id v hx => by
    obtain ⟨c, taken, its⟩ := orderly.resumed id v hx
    exact ⟨c, trace.subset taken, its⟩
  calm := { orderly.calm with
    jobs := fun j hj r at_start =>
      (jobs j hj r at_start).elim (fun old => orderly.calm.jobs j old r at_start) id }

theorem Orderly.at_home (orderly : s.Orderly { hand with free := some task }) :
    s.gateway.isWaiting task = false := by
  rw [Gateway.isWaiting, List.any_eq_false]
  intro w hw same
  have mem : w.errand ∈ s.abroad { hand with free := some task } :=
    List.mem_append_left _ (List.mem_append_left _ (List.mem_map_of_mem hw))
  have its : w.task = task := by simpa using same
  exact (orderly.roster.own task rfl).2.2 _ mem its

theorem Orderly.served (hand : Hand) {r : Request} {response : Response} {h : Host}
    (orderly : s.Orderly { hand with out := sentOn task response ++ hand.out })
    (kept : Kept h []) (served : Served s.toHost task r response h)
    (calm : Callback.Calm r.callback) :
    ({ s with toHost := h } : Scheduler).Orderly hand := by
  refine orderly.host hand.out kept served.listening served.trace served.waiters
    (fun j hj r' at_start => ?_) ?_
  · refine (served.jobs j hj).imp_right fun new => ?_
    rw [new] at at_start
    cases at_start
    exact calm
  · refine orderly.roster.perm (List.Perm.refl _) ?_
    rw [abroad, ← List.append_assoc]
    exact (List.perm_append_comm.trans served.errands.symm).append_right _

theorem Orderly.update (orderly : s.Orderly hand) (same : hand'.condemned = hand.condemned)
    {f : Task → Task}
    (roster : Roster (s.tasks.update task f) s.lastTask (s.turns hand') (s.abroad hand') hand'.free)
    (calm : ∀ t b, (f t).body = some b → t.body = some b ∨ b.Calm) :
    (s.updateTask task f).Orderly hand' :=
  { orderly with
    roster
    live := by
      rw [updateTask, Named.update_keys]
      exact orderly.live
    wanted := by
      rw [updateTask, Named.update_keys, same]
      exact orderly.wanted
    calm := { orderly.calm with
      bodies := fun x hx b hb => by
        dsimp only [updateTask] at hx
        rcases Named.mem_update hx with ⟨hx, -⟩ | ⟨y, hy, -, rfl⟩
        · exact orderly.calm.bodies x hx b hb
        · exact (calm y.2 b hb).elim (orderly.calm.bodies y hy b) id } }

theorem Orderly.edit (orderly : s.Orderly { hand with free := some task }) {f : Task → Task}
    (waiting : ∀ t, (f t).waiting = t.waiting)
    (calm : ∀ t b, (f t).body = some b → b.Calm) :
    (s.updateTask task f).Orderly { hand with free := some task } :=
  orderly.update rfl (orderly.roster.edit waiting) fun t b hb => Or.inr (calm t b hb)

theorem Orderly.park (orderly : s.Orderly { hand with free := some task })
    (present : ∀ x ∈ s.tasks, x.1 = task → x.2.body.isSome = true) (h : Handle) :
    (s.park task h).Orderly { hand with free := none, out := (task, h) :: hand.out } := by
  have calm : ∀ (t : Task) (b : Body), ({ t with waiting := some h } : Task).body = some b →
      t.body = some b ∨ b.Calm := fun _ _ => Or.inl
  have roster := (orderly.roster.park present h).perm (List.Perm.refl _) List.perm_middle.symm
  have same : ({ hand with free := none, out := (task, h) :: hand.out } : Hand).condemned =
      ({ hand with free := some task } : Hand).condemned := rfl
  exact orderly.update same roster calm

theorem wait_onward {r : Request} {h : Handle}
    (calm : p → Callback.Calm r.callback)
    (present : ∀ x ∈ s.tasks, x.1 = task → x.2.body.isSome = true)
    (told : (s.toHost.suspend task r).1 = .ok (.waiting h)) (hand : Hand) :
    Onward p s { hand with free := some task }
      (({ s with toHost := (s.toHost.suspend task r).2 } : Scheduler).park task h)
      { hand with free := none } := by
  have leads := (s.toHost.suspend_deals task r).leads
  refine ⟨leads.grows.longest, fun given few orderly => ?_⟩
  have served := Host.suspend_served orderly.kept.books.numbered orderly.listening (calm given)
    orderly.at_home
  have parked := orderly.park present h
  have sent : sentOn task (s.toHost.suspend task r).1 = [(task, h)] := by rw [told]; rfl
  refine Orderly.served (s := s.park task h) { hand with free := none } ?_
    (leads.kept few [] orderly.kept) served (calm given)
  rw [sent]
  exact parked

theorem stay_onward (s : Scheduler) (task : TaskId) {r : Request}
    (calm : p → Callback.Calm r.callback) (told : sentOn task (s.toHost.suspend task r).1 = []) (hand : Hand) :
    Onward p s { hand with free := some task } { s with toHost := (s.toHost.suspend task r).2 }
      { hand with free := some task } := by
  have leads := (s.toHost.suspend_deals task r).leads
  refine ⟨leads.grows.longest, fun given few orderly => ?_⟩
  have served := Host.suspend_served orderly.kept.books.numbered orderly.listening (calm given)
    orderly.at_home
  refine Orderly.served { hand with free := some task } ?_
    (leads.kept few [] orderly.kept) served (calm given)
  rw [told]
  exact orderly

/-! ## Steps -/

theorem putBack_onward {next : Caller → Input → Act}
    (calm : p → ∀ caller input, (next caller input).Calm) (s : Scheduler) (task : TaskId)
    (held : List Value) (hand : Hand) :
    Onward p s { hand with free := some task } (s.putBack task held next)
      { hand with free := some task } :=
  ⟨Nat.le_refl _, fun given _ orderly =>
    orderly.edit (fun _ => rfl) fun _ _ hb => by cases hb; exact calm given⟩

theorem putBack_present (s : Scheduler) (task : TaskId) (held : List Value)
    (next : Caller → Input → Act) :
    ∀ x ∈ (s.putBack task held next).tasks, x.1 = task → x.2.body.isSome = true := by
  intro x hx its
  dsimp only [putBack, updateTask] at hx
  rcases Named.mem_update hx with ⟨-, ne⟩ | ⟨y, -, -, rfl⟩
  · exact absurd its ne
  · rfl

theorem takeBody_onward (s : Scheduler) (task : TaskId) (resumed : Option Value) (hand : Hand) :
    Onward p s { hand with free := some task } (s.takeBody task resumed)
      { hand with free := some task } := by
  have edited : Onward p s { hand with free := some task }
      (s.updateTask task fun t => { t with body := none }) { hand with free := some task } :=
    ⟨Nat.le_refl _, fun _ _ orderly => orderly.edit (fun _ => rfl) nofun⟩
  exact edited.trans ((note_alike _ rfl rfl).onward _)

def afterMove (task : TaskId) : Act ⊕ StepOutcome → Option TaskId
  | .inl _ => some task
  | .inr _ => none

/-- A move that goes on leaves its task free, and any other move leaves it at its place or gone. -/
theorem move_onward {act : Act} (calm : p → act.Calm) (caller : Caller) (s : Scheduler)
    (hand : Hand) :
    Onward p s { hand with free := some caller.task } (act.move caller s).2
      { hand with free := afterMove caller.task (act.move caller s).1 } := by
  cases act with
  | complete v => exact s.finish_onward caller.task (.ok v) hand
  | abort message => exact s.finish_onward caller.task (.error message) hand
  | effect e next => exact (s.perform_alike e).onward _
  | background envelope callback held next =>
    have callback_calm : p → Callback.Calm callback := fun given => by
      cases calm given with
      | background _ _ _ _ callback_calm _ => exact callback_calm
    have going_on : p → ∀ caller input, (next caller input).Calm := fun given => by
      cases calm given with
      | background _ _ _ _ _ going_on => exact going_on
    -- what follows a request that was not put off
    have go_on : ∀ (s : Scheduler) (v : Value),
        let moved : (Act ⊕ StepOutcome) × Scheduler :=
          if (s.killAsked.tasks.get? caller.task).isSome then
            (.inl (next caller (.resume v)), s.killAsked.takeBody caller.task (some v))
          else (.inr .gone, s.killAsked.release v)
        Onward p s { hand with free := some caller.task } moved.2
          { hand with free := afterMove caller.task moved.1 } := by
      intro s v
      refine (s.killAsked_onward _).trans ?_
      split
      · exact takeBody_onward _ _ _ hand
      · rename_i gone
        have absent := Named.get?_eq_none.1 (Option.not_isSome_iff_eq_none.1 gone)
        have left : Onward p s.killAsked { hand with free := some caller.task } s.killAsked
            { hand with free := none } := ⟨Nat.le_refl _, fun _ _ orderly => orderly.leave absent⟩
        exact left.trans ((release_alike _ v).onward _)
    have present := s.putBack_present caller.task held next
    refine (s.putBack_onward going_on caller.task held hand).trans ?_
    rw [Act.move]
    generalize s.putBack caller.task held next = s at present ⊢
    have wait := fun h => wait_onward (r := { envelope with callback }) (h := h) callback_calm
      present
    have stay := stay_onward s caller.task (r := { envelope with callback })
      callback_calm
    dsimp only [askHost]
    generalize s.toHost.suspend caller.task { envelope with callback } = answer at wait stay
    obtain ⟨response, h⟩ := answer
    rcases response with why | handle | v
    · have plain : Alike { s with toHost := h }
          { s with toHost := (h.plain why.errorMap).2 } := .of_same rfl
      exact (stay rfl hand).trans ((plain.onward _).trans (go_on _ _))
    · exact (wait handle rfl hand).trans (killAsked_onward _ _)
    · exact (stay rfl hand).trans (go_on _ _)

/-- However often a step goes straight on into the next, order is kept until the task ends or is
parked. -/
theorem run_onward {act : Act} (calm : p → act.Calm) (caller : Caller) (s : Scheduler)
    (hand : Hand) :
    Onward p s { hand with free := some caller.task } (act.run caller s).2
      { hand with free := none } := by
  induction act using Act.move_induct generalizing s with
  | moves act ih =>
    have moved := move_onward calm caller s hand
    rw [Act.run_eq]
    cases result : act.move caller s with
    | mk next s' =>
      rw [result] at moved
      cases next with
      | inl act' =>
        have goes_on : (act.move caller s).1 = .inl act' := by rw [result]
        exact moved.trans (ih caller s act' goes_on (fun given => (calm given).move goes_on) s')
      | inr outcome => exact moved

theorem noteDelivery_alike (s : Scheduler) (task : TaskId) (input : Input) :
    Alike s (s.noteDelivery task input) := by
  cases input with
  | start => exact Alike.refl s
  | resume v => exact s.note_alike rfl rfl

theorem pick_onward (s : Scheduler) (task : TaskId) (input : Input) (hand : Hand) :
    Onward p s { hand with batch := task :: hand.batch, free := none } (s.pick task input).2
      { hand with free := (s.pick task input).1.map fun x => x.1.task } := by
  unfold pick
  cases found : s.tasks.get? task with
  | none =>
    have skipped : Onward p s { hand with batch := task :: hand.batch, free := none } s
        { hand with free := none } :=
      ⟨Nat.le_refl _, fun _ _ orderly =>
        { orderly with roster := orderly.roster.skip (Named.get?_eq_none.1 found) }⟩
    exact skipped.trans ((s.releaseInput_alike input).onward _)
  | some t =>
    have mem := Named.mem_of_get? found
    dsimp only
    cases body : t.body with
    | none =>
      refine ⟨?_, fun _ _ orderly => ?_⟩
      · cases input <;> exact Nat.le_refl _
      · have present := (orderly.roster.stands _ mem nofun).body
        simp [body] at present
    | some b =>
      have picked : Onward p s { hand with batch := task :: hand.batch, free := none }
          s { hand with free := some task } :=
        ⟨Nat.le_refl _, fun _ _ orderly =>
          { orderly with roster := orderly.roster.pick (List.mem_map_of_mem mem) }⟩
      exact picked.trans (((s.noteDelivery_alike task input).onward _).trans
        (takeBody_onward _ task input.result? hand))

theorem Calm.pick (calm : s.Calm) {input : Input} {caller : Caller} {act : Act}
    (picked : (s.pick task input).1 = some (caller, act)) : act.Calm := by
  unfold Scheduler.pick at picked
  cases found : s.tasks.get? task with
  | none =>
    rw [found] at picked
    cases picked
  | some t =>
    rw [found] at picked
    dsimp only at picked
    cases body : t.body with
    | none =>
      rw [body] at picked
      cases picked
    | some b =>
      rw [body] at picked
      cases picked
      exact calm.bodies _ (Named.mem_of_get? found) b body _ _

theorem stepTask_onward (s : Scheduler) (task : TaskId) (input : Input) (hand : Hand) :
    Onward p s { hand with batch := task :: hand.batch, free := none } (s.stepTask task input).2
      { hand with free := none } := by
  refine Onward.given ?_
  let orderly : Prop := s.Orderly { hand with batch := task :: hand.batch, free := none }
  have picked := s.pick_onward (p := p ∧ orderly) task input hand
  rw [stepTask_eq]
  cases result : s.pick task input with
  | mk choice s' =>
    rw [result] at picked
    rcases choice with _ | ⟨caller, act⟩
    · exact picked
    · have calm (given : p ∧ s.Orderly { hand with batch := task :: hand.batch, free := none }) :=
        given.2.calm.pick (by rw [result])
      exact picked.trans (run_onward calm caller s' hand)

theorem runOne_onward (s : Scheduler) (entry : TaskId × Input) (hand : Hand) :
    Onward p s { hand with batch := entry.1 :: hand.batch, free := none } (s.runOne entry)
      { hand with free := none } :=
  (s.stepTask_onward entry.1 entry.2 hand).trans ((releaseOutcome_alike _ _).onward _)

theorem Orderly.takeUp (orderly : s.Orderly hand) :
    ({ s with ready := [] } : Scheduler).Orderly
      { hand with batch := s.ready.map Prod.fst ++ hand.batch } :=
  { orderly with
    roster := by
      refine orderly.roster.perm ?_ (List.Perm.refl _)
      rw [turns, turns, List.map_nil, List.append_nil]
      exact List.perm_append_comm
    live := nofun
    resumed := nofun
    calm := { orderly.calm with bodies := orderly.calm.bodies } }

theorem runReady_onward (s : Scheduler) (hand : Hand) :
    Onward p s { hand with free := none } s.runReady { hand with free := none } := by
  have taken : Onward p s { hand with free := none } { s with ready := [] }
      { hand with batch := s.ready.map Prod.fst ++ hand.batch, free := none } :=
    ⟨Nat.le_refl _, fun _ _ orderly => orderly.takeUp⟩
  have run : ∀ (entries : List (TaskId × Input)) (s : Scheduler),
      Onward p s { hand with batch := entries.map Prod.fst ++ hand.batch, free := none }
        (entries.foldl runOne s) { hand with free := none } := by
    intro entries
    induction entries with
    | nil => exact fun s => Onward.refl s _
    | cons entry entries ih =>
      exact fun s => (s.runOne_onward entry
        { hand with batch := entries.map Prod.fst ++ hand.batch }).trans (ih _)
  exact taken.trans (run s.ready _)

end Scheduler
end MooCore
