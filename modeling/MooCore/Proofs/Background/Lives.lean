import MooCore.Proofs.Background.Stories
/-!
# Lives of requests with a cleanup

What a trace says of one request, its cleanup included, is a life: the call of the cleanup has its
place in it, after the callback has returned and before anybody is told of the end.
-/

set_option autoImplicit false
namespace MooCore

def Event.subject? : Event → Option Nat
  | .cleaned n .. => some n
  | e => e.mark?.map Prod.fst

def Event.cleans (n : Nat) : Event → Bool
  | .cleaned k .. => k = n
  | _ => false

def Mark.closes : Mark → Bool
  | refused | immediate | sent | discarded | lost | vanished => true
  | accepted | returned | silenced => false

namespace Background

/-- How often the cleanup of a request was called. -/
def cleanings (n : Nat) (trace : List Event) : Nat := trace.countP (Event.cleans n)

def lifeOf (n : Nat) (trace : List Event) : List Event := trace.filter (·.subject? = some n)

def Shown : Option Extra → Option CleanedExtra → Prop
  | none, none => True
  | some (.value v), some (.value v') => v' = v
  | some (.guard s), some (.guard s' _) => s' = s
  | _, _ => False

variable {n k : Nat} {m : Mark} {e : Event} {es xs ys trace : List Event} {h h' : Host}
  {extra : Option Extra} {c : Cleanup} {r : Request} {task : TaskId}

theorem shown_self (h : Host) (extra : Option Extra) : Shown extra (extra.map h.showExtra) := by
  rcases extra with _ | _ | _
  · trivial
  · rfl
  · rfl

theorem subject_of_mark (said : e.mark? = some (n, m)) : e.subject? = some n := by
  cases e <;> first | exact congrArg (Option.map Prod.fst) said | cases said

theorem cleans_of_mark (said : e.mark? = some (k, m)) (n : Nat) : e.cleans n = false := by
  cases e <;> first | rfl | cases said

theorem lifeOf_append (n : Nat) (trace es : List Event) :
    lifeOf n (trace ++ es) = lifeOf n trace ++ lifeOf n es := List.filter_append ..

theorem lifeOf_single (its : e.subject? = some n) : lifeOf n [e] = [e] := by
  simp [lifeOf, its]

theorem lifeOf_others (others : ∀ e ∈ es, ∀ k, e.subject? = some k → k ≠ n) : lifeOf n es = [] :=
  List.filter_eq_nil_iff.2 fun e he its => others e he n (by simpa using its) rfl

theorem cleanings_append (n : Nat) (trace es : List Event) :
    cleanings n (trace ++ es) = cleanings n trace + cleanings n es := List.countP_append ..

theorem cleanings_lifeOf (n : Nat) (trace : List Event) :
    cleanings n (lifeOf n trace) = cleanings n trace := by
  rw [cleanings, lifeOf, List.countP_filter]
  refine List.countP_congr fun e _ => ?_
  cases e <;> simp [Event.cleans, Event.subject?]

/-! ## Lives -/

/-- How far a life has come; a request whose cleanup has been called was turned down or has had its
callback return. -/
inductive Phase where
  | fresh
  | returned
  | cleaned (ran : Bool)
  | closed (ran : Bool)

/-- The lives there are of a request with a cleanup. -/
inductive Life (n : Nat) (c : Cleanup) (extra : Option Extra) : List Event → Phase → Prop
  | fresh : Life n c extra [] .fresh
  | marked {es : List Event} {phase : Phase} (life : Life n c extra es phase) {e : Event} {m : Mark}
      (said : e.mark? = some (n, m)) (mild : m = .accepted ∨ m = .silenced) :
      Life n c extra (es ++ [e]) phase
  | returned {es : List Event} (life : Life n c extra es .fresh) (v : Value) :
      Life n c extra (es ++ [.returned n v]) .returned
  | turned {es : List Event} (life : Life n c extra es .fresh) {x : Option CleanedExtra}
      (shown : Shown extra x) : Life n c extra (es ++ [.cleaned n c x false]) (.cleaned false)
  | cleaned {es : List Event} (life : Life n c extra es .returned) {x : Option CleanedExtra}
      (shown : Shown extra x) : Life n c extra (es ++ [.cleaned n c x false]) (.cleaned true)
  | closed {es : List Event} {ran : Bool} (life : Life n c extra es (.cleaned ran)) {e : Event}
      {m : Mark} (said : e.mark? = some (n, m)) (closes : m.closes = true)
      (how : m = .refused ↔ ran = false) : Life n c extra (es ++ [e]) (.closed ran)

/-- How often the cleanup has been called. -/
def Phase.calls : Phase → Nat
  | fresh | returned => 0
  | cleaned _ | closed _ => 1

/-- Whether the callback has returned. -/
def Phase.ran : Phase → Bool
  | fresh => false
  | returned => true
  | cleaned ran | closed ran => ran

namespace Life

variable {phase : Phase}

theorem calls (life : Life n c extra es phase) : cleanings n es = phase.calls := by
  induction life with
  | fresh => rfl
  | marked _ said _ ih =>
    rw [cleanings_append, ih, cleanings, List.countP_singleton, cleans_of_mark said]
    rfl
  | returned _ v ih => rw [cleanings_append, ih]; rfl
  | turned _ _ ih | cleaned _ _ ih =>
    rw [cleanings_append, ih, cleanings, List.countP_singleton, Event.cleans, decide_eq_true rfl]
    rfl
  | closed _ said _ _ ih =>
    rw [cleanings_append, ih, cleanings, List.countP_singleton, cleans_of_mark said]
    rfl

theorem ran (life : Life n c extra es phase) :
    (∃ v, .returned n v ∈ es) ↔ phase.ran = true := by
  induction life with
  | fresh => simp [Phase.ran]
  | @marked es phase _ e m said mild ih =>
    rw [← ih]
    refine exists_congr fun v => ?_
    have other : .returned n v ≠ e := by
      rintro rfl
      cases said
      simp at mild
    simp [other]
  | returned _ v ih => simp [Phase.ran]
  | turned _ _ ih | cleaned _ _ ih => simpa [Phase.ran] using ih
  | @closed es ran _ e m said closes how ih =>
    have other : ∀ v, .returned n v ≠ e := by
      rintro v rfl
      cases said
      cases closes
    simpa [Phase.ran, other] using ih

theorem before (life : Life n c extra es phase) (cut : es = xs ++ ys) :
    ∃ phase', Life n c extra xs phase' := by
  have shorter : ∀ {es : List Event} {e : Event} {phase : Phase}, Life n c extra (es ++ [e]) phase →
      (∀ ys, es = xs ++ ys → ∃ phase', Life n c extra xs phase') →
      ∀ ys, es ++ [e] = xs ++ ys → ∃ phase', Life n c extra xs phase' := by
    intro es e phase whole ih ys cut
    rcases List.eq_nil_or_concat' ys with rfl | ⟨ys, f, rfl⟩
    · rw [List.append_nil] at cut
      exact ⟨phase, cut ▸ whole⟩
    · rw [← List.append_assoc] at cut
      exact ih ys (List.append_inj' cut rfl).1
  induction life generalizing ys with
  | fresh =>
    obtain ⟨rfl, -⟩ := List.append_eq_nil_iff.1 cut.symm
    exact ⟨_, .fresh⟩
  | marked life said mild ih => exact shorter (life.marked said mild) (fun _ => ih) ys cut
  | returned life v ih => exact shorter (life.returned v) (fun _ => ih) ys cut
  | turned life shown ih => exact shorter (life.turned shown) (fun _ => ih) ys cut
  | cleaned life shown ih => exact shorter (life.cleaned shown) (fun _ => ih) ys cut
  | closed life said closes how ih =>
    exact shorter (life.closed said closes how) (fun _ => ih) ys cut

theorem last (life : Life n c extra (xs ++ [e]) phase) :
    (∃ m, e.mark? = some (n, m) ∧ (m = .accepted ∨ m = .silenced)) ∨
    ((∃ v, e = .returned n v) ∧ Life n c extra xs .fresh) ∨
    (∃ x, e = .cleaned n c x false ∧ Shown extra x) ∨
    ∃ m ran, e.mark? = some (n, m) ∧ m.closes = true ∧ (m = .refused ↔ ran = false) ∧
      Life n c extra xs (.cleaned ran) := by
  generalize whole : xs ++ [e] = es at life
  cases life with
  | fresh => simp at whole
  | marked _ said mild =>
    obtain ⟨rfl, last⟩ := List.append_inj' whole rfl
    cases last
    exact Or.inl ⟨_, said, mild⟩
  | returned life v =>
    obtain ⟨rfl, last⟩ := List.append_inj' whole rfl
    cases last
    exact Or.inr (Or.inl ⟨⟨v, rfl⟩, life⟩)
  | turned _ shown | cleaned _ shown =>
    obtain ⟨rfl, last⟩ := List.append_inj' whole rfl
    cases last
    exact Or.inr (Or.inr (Or.inl ⟨_, rfl, shown⟩))
  | closed life said closes how =>
    obtain ⟨rfl, last⟩ := List.append_inj' whole rfl
    cases last
    exact Or.inr (Or.inr (Or.inr ⟨_, _, said, closes, how, life⟩))

theorem upTo (life : Life n c extra (lifeOf n trace) phase) (cut : trace = xs ++ e :: ys)
    (its : e.subject? = some n) : ∃ phase', Life n c extra (lifeOf n xs ++ [e]) phase' := by
  have told : lifeOf n trace = (lifeOf n xs ++ [e]) ++ lifeOf n ys := by
    rw [cut, ← List.singleton_append, lifeOf_append, lifeOf_append, lifeOf_single its,
      List.append_assoc]
  exact life.before told

theorem none_before_return (life : Life n c extra (lifeOf n trace) phase) {v : Value}
    (cut : trace = xs ++ .returned n v :: ys) : cleanings n xs = 0 := by
  obtain ⟨_, upto⟩ := life.upTo cut rfl
  rcases upto.last with ⟨m, said, mild⟩ | ⟨-, unbegun⟩ | ⟨x, same, -⟩ | ⟨m, _, said, closes, -⟩
  · cases said
    simp at mild
  · rw [← cleanings_lifeOf]
    exact unbegun.calls
  · cases same
  · cases said
    cases closes

theorem once_before_end (life : Life n c extra (lifeOf n trace) phase)
    (cut : trace = xs ++ e :: ys) (said : e.mark? = some (n, m)) (closes : m.closes = true) :
    cleanings n xs = 1 ∧ (m = .refused ↔ ∀ v, .returned n v ∉ xs) := by
  obtain ⟨_, upto⟩ := life.upTo cut (subject_of_mark said)
  rcases upto.last with ⟨m', said', mild⟩ | ⟨⟨v, rfl⟩, -⟩ | ⟨x, rfl, -⟩ | ⟨m', ran, said', -, how, past⟩
  · rw [said] at said'
    cases said'
    rcases mild with rfl | rfl <;> cases closes
  · cases said
    cases closes
  · cases said
  · rw [said] at said'
    cases said'
    rw [← cleanings_lifeOf]
    refine ⟨past.calls, how.trans ?_⟩
    have ran_iff := past.ran
    have same : ∀ v, Event.returned n v ∈ lifeOf n xs ↔ .returned n v ∈ xs := fun v => by
      simp [lifeOf, Event.subject?, Event.mark?]
    simp only [same, Phase.ran] at ran_iff
    rw [← not_exists, ran_iff, Bool.not_eq_true]

theorem call_shown (life : Life n c extra (lifeOf n trace) phase) {c' : Cleanup}
    {x : Option CleanedExtra} {locked : Bool} (called : .cleaned n c' x locked ∈ trace) :
    c' = c ∧ Shown extra x ∧ locked = false := by
  obtain ⟨xs, ys, cut⟩ := List.append_of_mem called
  obtain ⟨_, upto⟩ := life.upTo cut rfl
  rcases upto.last with ⟨m, said, -⟩ | ⟨⟨v, same⟩, -⟩ | ⟨x', same, shown⟩ | ⟨m, _, said, -⟩
  · cases said
  · cases same
  · cases same
    exact ⟨rfl, shown, rfl⟩
  · cases said

theorem silence (life : Life n c extra es phase) (ks : List Nat) :
    Life n c extra (es ++ lifeOf n (ks.map .silenced)) phase := by
  induction ks generalizing es with
  | nil => rwa [List.map_nil, lifeOf, List.filter_nil, List.append_nil]
  | cons k ks ih =>
    rw [List.map_cons, ← List.singleton_append, lifeOf_append, ← List.append_assoc]
    refine ih ?_
    by_cases same : k = n
    · subst same
      rw [lifeOf_single rfl]
      exact life.marked rfl (Or.inr rfl)
    · have other : lifeOf n [.silenced k] = [] :=
        lifeOf_others fun e he j its => by
          cases List.mem_singleton.1 he
          cases its
          exact same
      rwa [other, List.append_nil]

end Life
end Background
end MooCore
