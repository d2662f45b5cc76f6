import Downhill.Proofs.Descent.InPlace
import Downhill.Proofs.Simplex.Falling

/-!
# Descents that meet faults

A descent whose iteration fails has a search that has gone on, with drafts drawn and maybe a simplex
torn, and stands where it stood before. To say so, the iterations that have been completed are written
down, each with the point that the search has written and the value of it (`Descends`). A run is
nothing but iterations, and one that fails may have completed some before (`runWithin_cases`).

What is proved: the point, the value and the count of a descent are always those of the last iteration
completed (`Descends.shows_eq`). With the values of a search that never rise, this is what a caller that
goes on after faults may rely on (`values_fall_and_faults_keep_progress`).
-/

namespace Downhill

namespace InPlace

namespace Descent

open Simplex

/-- What a descent shows of its progress: the point, the value there and the number of iterations
completed. -/
def shows (d : Descent) : Point × Float × Nat := (d.store.point, d.value, d.iterations)

/-- What is to be shown after iterations that came to the points and values listed: the last ones, or
the starting point and no value yet. -/
def lastShown (x : Point) (log : List (Point × Float)) : Point × Float × Nat :=
  match log.getLast? with
  | none => (x, infinity, 0)
  | some (p, y) => (p, y, log.length)

/-- The descents that callers come to from a point, with the points and values of the iterations that
have been completed, in order. The search may have been used before. -/
inductive Descends (f : Objective) (o : Options) (x : Point) : List (Point × Float) → Descent → Prop
  /-- The descent has not begun. -/
  | start {t : Store} (ht : Reachable f o t) (hx : x.length = f.dim) :
      Descends f o x [] { store := { t with point := x } }
  /-- An iteration is completed. -/
  | completed {log : List (Point × Float)} {d d' : Descent} {y : Float} {store : Store}
      (hd : Descends f o x log d) (hs : InPlace.iterate f d.store = .ok y store)
      (h : iterate f d = .ok () d') : Descends f o x (log ++ [(store.point, y)]) d'
  /-- An iteration fails. -/
  | failed {log : List (Point × Float)} {d d' : Descent} {e : Halt} (hd : Descends f o x log d)
      (h : iterate f d = .error e d') : Descends f o x log d'

variable {f : Objective} {o : Options} {x : Point} {log new : List (Point × Float)}
  {d d' : Descent} {e : Halt}

/-- A descent that is started is one of them. -/
theorem descends_start {point : Option Point} (h : start f o point = .ok d) :
    Descends f o d.store.point [] d := by
  have hstart : ∀ p : Point, p.length = f.dim →
      Descends f o p [] ⟨InPlace.start f o p, infinity, 0, #[]⟩ := fun p hp =>
    .start (.start (.inl hp)) hp
  cases point with
  | none =>
    obtain rfl := Except.ok.inj h
    exact hstart _ List.length_replicate
  | some p =>
    rw [start] at h
    split at h
    · next hp =>
      obtain rfl := Except.ok.inj h
      exact hstart p hp
    · cases h

/-! ### One iteration -/

/-- An iteration is one of the search, with a result or without. -/
theorem iterate_cases (f : Objective) (d : Descent) :
    (∃ y store d', InPlace.iterate f d.store = .ok y store ∧ iterate f d = .ok () d' ∧
      d'.store = store ∧ d'.shows = (store.point, y, d.iterations + 1)) ∨
    ∃ e store, InPlace.iterate f d.store = .error e store ∧
      iterate f d = .error e { d with store } := by
  cases hs : InPlace.iterate f d.store with
  | ok y store => exact .inl ⟨y, store, _, rfl, iterate_of_ok hs, rfl, rfl⟩
  | error e store => exact .inr ⟨e, store, rfl, iterate_of_error hs⟩

theorem lastShown_concat (x : Point) (log : List (Point × Float)) (p : Point) (y : Float) :
    lastShown x (log ++ [(p, y)]) = (p, y, log.length + 1) := by
  rw [lastShown, List.getLast?_concat, List.length_append]
  rfl

/-- The count is that of the iterations completed. -/
theorem lastShown_iterations (x : Point) (log : List (Point × Float)) :
    (lastShown x log).2.2 = log.length := by
  rcases List.eq_nil_or_concat' log with rfl | ⟨log, ⟨p, y⟩, rfl⟩
  · rfl
  · rw [lastShown_concat, List.length_append]
    rfl

/-- **A descent stands where its last completed iteration has led it**, with a point of the
dimension. -/
theorem Descends.shows_eq (hd : Descends f o x log d) :
    d.shows = lastShown x log ∧ Follows (o.inEffect f.dim) f.dim Valued d.store ∧
      d.store.point.length = f.dim := by
  induction hd with
  | start ht hx => exact ⟨rfl, ht.follows.1.move x, hx⟩
  | @completed log d d' y store _ hs h ih =>
    obtain ⟨hshows, hfollows, hlen⟩ := ih
    obtain ⟨hunder, hlen'⟩ := hfollows.under_of_ok hlen hs
    obtain rfl := (EStateM.Result.ok.inj ((iterate_of_ok hs).symm.trans h)).2
    have hcount : d.iterations = log.length := by
      rw [← lastShown_iterations x log, ← hshows]
      rfl
    refine ⟨?_, hunder.follows, hlen'⟩
    rw [lastShown_concat, ← hcount]
    rfl
  | @failed log d d' e _ h ih =>
    obtain ⟨hshows, hfollows, hlen⟩ := ih
    rcases iterate_cases f d with ⟨y, store, d₁, -, hok, -⟩ | ⟨e', store, hs, herror⟩
    · rw [hok] at h
      cases h
    · obtain ⟨rfl, rfl⟩ := EStateM.Result.error.inj (herror.symm.trans h)
      obtain ⟨hfollows', hpoint⟩ := hfollows.valued_of_error hlen hs
      refine ⟨?_, hfollows', hpoint ▸ hlen⟩
      rw [← hshows, shows, hpoint]
      rfl

/-! ### Runs -/

/-- From one descent to another, iterations are completed that come to the points and values
listed. -/
inductive Completes (f : Objective) : Descent → List (Point × Float) → Descent → Prop
  /-- No iteration is completed. -/
  | nil (d : Descent) : Completes f d [] d
  /-- An iteration is completed, and others after it. -/
  | cons {d d₁ d₂ : Descent} {y : Float} {store : Store} {new : List (Point × Float)}
      (hs : InPlace.iterate f d.store = .ok y store) (h : iterate f d = .ok () d₁)
      (hnew : Completes f d₁ new d₂) : Completes f d ((store.point, y) :: new) d₂

theorem Descends.append (hd : Descends f o x log d) (h : Completes f d new d') :
    Descends f o x (log ++ new) d' := by
  induction h generalizing log with
  | nil d =>
    rw [List.append_nil]
    exact hd
  | cons hs h _ ih =>
    rw [List.append_cons]
    exact ih (hd.completed hs h)

/-- **A run completes iterations**, one at least, or it completes some and the next one fails. -/
theorem runWithin_cases (f : Objective) (stop : Standing → Bool) (more : Nat) (d : Descent) :
    (∃ new d', new ≠ [] ∧ Completes f d new d' ∧ runWithin f stop more d = .ok () d') ∨
    ∃ new d₁ e d', Completes f d new d₁ ∧ iterate f d₁ = .error e d' ∧
      runWithin f stop more d = .error e d' := by
  induction more generalizing d with
  | zero =>
    rcases iterate_cases f d with ⟨y, store, d', hs, h, -⟩ | ⟨e, store, -, h⟩
    · exact .inl ⟨_, d', List.cons_ne_nil _ _, .cons hs h (.nil d'), h⟩
    · exact .inr ⟨[], d, e, _, .nil d, h, h⟩
  | succ more ih =>
    rcases iterate_cases f d with ⟨y, store, d', hs, h, -⟩ | ⟨e, store, -, h⟩
    · rw [runWithin_succ_of_ok h]
      split
      · exact .inl ⟨_, d', List.cons_ne_nil _ _, .cons hs h (.nil d'), rfl⟩
      -- the criterion does not hold yet
      · rcases ih d' with ⟨new, d'', -, hnew, hrun⟩ | ⟨new, d₁, e, d'', hnew, hfail, hrun⟩
        · exact .inl ⟨_, d'', List.cons_ne_nil _ _, .cons hs h hnew, hrun⟩
        · exact .inr ⟨_, d₁, e, d'', .cons hs h hnew, hfail, hrun⟩
    · exact .inr ⟨[], d, e, _, .nil d, h, bind_of_error h⟩

/-- **What a caller may rely on that goes on after faults.** Without a reset, and with points of the
dimension, the values of a search never rise from one iteration with a result to a later one. And a
descent whose iteration or run fails shows the point, the value and the count of the last iteration
completed, be it one of this run, or its start if there is none. -/
theorem values_fall_and_faults_keep_progress (f : Objective) (o : Options) :
    (∀ t uses, Reachable f o t → t.point.length = f.dim →
      (∀ v ∈ uses, v.Fits f.dim ∧ v ≠ .reset) →
      (valuesShown (session f t uses)).Pairwise fun y z => z ≤ y) ∧
    ∀ x log d e d', Descends f o x log d →
      (iterate f d = .error e d' → d'.shows = lastShown x log) ∧
      ∀ stop more, runWithin f stop more d = .error e d' →
        ∃ new d₁, Completes f d new d₁ ∧ iterate f d₁ = .error e d' ∧
          d'.shows = lastShown x (log ++ new) := by
  refine ⟨fun t uses ht hx huses => ht.follows.1.values_fall hx huses, ?_⟩
  intro x log d e d' hd
  refine ⟨fun h => (hd.failed h).shows_eq.1, fun stop more h => ?_⟩
  rcases runWithin_cases f stop more d with ⟨_, _, -, -, hok⟩ | ⟨new, d₁, e', d'', hnew, hfail, herror⟩
  · rw [hok] at h
    cases h
  · obtain ⟨rfl, rfl⟩ := EStateM.Result.error.inj (herror.symm.trans h)
    exact ⟨new, d₁, hnew, hfail, ((hd.append hnew).failed hfail).shows_eq.1⟩

/-! ### A descent that fails in its second iteration -/

/-- An objective of one coordinate, zero everywhere, that does not answer its sixth call. -/
def brief : Objective := (Objective.ofFunction 1 fun _ => .ok 0).failingOn [6]

/-- All vertices but the best one have been shrunk. -/
def briefMoved : Store :=
  { flatLaid with
    slots := ⟨#[[0], [4]], #[0, 0], #[0, 1]⟩
    drafts := ⟨[0], [-8], [0], [0]⟩
    asked := #[[0], [8], [-8], [4], [4]]
    notes := #[.centroid [0]] }

/-- The first iteration is completed. -/
def briefShrunk : Store :=
  { briefMoved with notes := #[.centroid [0], .performed .shrinkage 0 0] }

/-- In the second one the reflected vertex gets no answer. -/
def briefUnanswered : Store :=
  { briefShrunk with
    drafts := ⟨[0], [-4], [0], [0]⟩
    asked := #[[0], [8], [-8], [4], [4], [-4]]
    notes := #[.centroid [0], .performed .shrinkage 0 0, .centroid [0]] }

theorem iterate_brief :
    InPlace.iterate brief (InPlace.start brief { zeroStep := 8 } [0]) = .ok 0 briefShrunk := by
  have hlay : layPoints brief (InPlace.start brief { zeroStep := 8 } [0]) =
      .ok () { flatLaid with slots := { flatLaid.slots with order := #[] } } := by decide +kernel
  have hlaid : rank flatLaid = .ok () flatLaid :=
    rank_of_pairwise (by decide +kernel) (by decide +kernel)
  have hmove : transform brief 0 flatLaid = .ok .shrinkage briefMoved := by decide +kernel
  have hmoved : rank briefMoved = .ok () briefMoved :=
    rank_of_pairwise (by decide +kernel) (by decide +kernel)
  rw [iterate_of_laid rfl hlay rfl hlaid, ← iterate_of_not_isEmpty rfl,
    iterate_of_moved rfl rfl hmove hmoved]
  decide +kernel

theorem iterate_briefShrunk :
    InPlace.iterate brief briefShrunk = .error (.fault (.stuck (.malformed 6))) briefUnanswered := by
  decide +kernel

/-- A run fails in its second iteration, and the descent stands where the first one has led it. -/
theorem values_fall_and_faults_keep_progress_brief :
    let o : Options := { zeroStep := 8 }
    let d : Descent := { store := InPlace.start brief o [0] }
    ∃ d₁ d₂, Descends brief o [0] [([0], 0)] d₁ ∧
      iterate brief d₁ = .error (.fault (.stuck (.malformed 6))) d₂ ∧
      runWithin brief (fun _ => false) 1 d = .error (.fault (.stuck (.malformed 6))) d₂ ∧
      d₂.shows = ([0], 0, 1) ∧
      (valuesShown (session brief d.store [.iterate, .iterate, .move [2], .iterate])).Pairwise
        fun y z => z ≤ y := by
  intro o d
  have hstart : Reachable brief o d.store := .start (.inl rfl)
  obtain ⟨d₁, hstore, hfirst⟩ : ∃ d₁ : Descent, d₁.store = briefShrunk ∧
      iterate brief d = .ok () d₁ := ⟨_, rfl, iterate_of_ok iterate_brief⟩
  have hd : Descends brief o [0] [([0], 0)] d₁ :=
    .completed (.start hstart rfl) iterate_brief hfirst
  have hsecond : iterate brief d₁ = .error (.fault (.stuck (.malformed 6)))
      { d₁ with store := briefUnanswered } := iterate_of_error (hstore ▸ iterate_briefShrunk)
  have hrun : runWithin brief (fun _ => false) 1 d = .error (.fault (.stuck (.malformed 6)))
      { d₁ with store := briefUnanswered } := by
    rw [runWithin_succ_of_ok hfirst, if_neg Bool.false_ne_true]
    exact hsecond
  obtain ⟨hfall, hkeep⟩ := values_fall_and_faults_keep_progress brief o
  refine ⟨d₁, _, hd, hsecond, hrun, (hkeep _ _ _ _ _ hd).1 hsecond, hfall _ _ hstart rfl ?_⟩
  intro v hv
  simp only [List.mem_cons, List.not_mem_nil, or_false] at hv
  rcases hv with rfl | rfl | rfl | rfl <;> exact ⟨by trivial, by decide⟩

end Descent

end InPlace

end Downhill
