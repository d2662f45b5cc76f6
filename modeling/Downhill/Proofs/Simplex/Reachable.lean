import Downhill.Proofs.Simplex.Faults
import Downhill.Proofs.Simplex.Run

/-!
# What callers may do

A caller iterates, goes on after faults, resets the search and moves its own point. This module says
which stores such use leads to (`Reachable`). The point may be of any dimension where the objective
refuses points of other dimensions than its own (`Objective.Refuses`), and has to be of the right one
where it does not.

A store that can be reached stands beside a search on a list (`Follows`), whose values are finite or
positive infinity (`Simplex.Valued`). Every use keeps it so: an iteration that has a result, and one
that is broken off, be it with a point of another dimension.

What is proved: the slots of a store that can be reached agree in number and hold points of the
dimension, and no access of an iteration fails unless the caller's point has another dimension
(`slots_of_reachable`).
-/

namespace Downhill

/-- The objective refuses points of other dimensions than its own, whichever call it is. -/
def Objective.Refuses (f : Objective) : Prop :=
  ∀ call p, p.length ≠ f.dim → f.apply call p = .error (.dimension f.dim p.length)

/-- A point that a caller may have: one of the dimension, or one that the objective refuses. -/
def Objective.Admits (f : Objective) (x : Point) : Prop := x.length = f.dim ∨ f.Refuses

/-- The values of all vertices are finite or positive infinity. -/
def Simplex.Valued (σ : Simplex) : Prop := ∀ v ∈ σ.vertices, IsRanked v.value

namespace Search

open Simplex

variable {f : Objective} {o : Options} {x : Point} {s s' : Search} {σ : Simplex}

/-! ### Values as they rank -/

/-- The simplex is as described, if it has been laid. -/
def Obeys (s : Search) (P : Simplex → Prop) : Prop := ∀ σ, s.simplex = some σ → P σ

theorem obeys_of_none {P : Simplex → Prop} (hs : s.simplex = none) : s.Obeys P := by
  intro σ hσ
  rw [hs] at hσ
  cases hσ

theorem obeys_of_some {P : Simplex → Prop} (hs : s.simplex = some σ) (h : P σ) : s.Obeys P := by
  intro τ hτ
  rw [hs] at hτ
  exact Option.some.inj hτ ▸ h

/-- A completed move leaves answers and values from before. -/
theorem Completed.valued {reached : Reached} (h : Completed f o σ reached s') (hσ : σ.Valued) :
    s'.Obeys Valued := by
  obtain ⟨others, hmoves, hs', -⟩ := h
  refine obeys_of_some hs' fun w hw => ?_
  rcases List.mem_cons.mp (mem_ranked.mp hw) with rfl | hw
  · exact hσ _ σ.best_mem
  · rcases hmoves.mem hw with hw | hw
    · exact hσ w (List.mem_cons_of_mem _ hw)
    · exact hw.isRanked

/-- So does one that is broken off. -/
theorem BrokenOff.valued (h : BrokenOff f o σ s s') (hs : s.simplex = some σ) (hσ : σ.Valued) :
    s'.Obeys Valued := by
  rcases h with ⟨hs', -⟩ | ⟨n, τ, htorn, hs', -⟩
  · exact obeys_of_some (hs'.trans hs) hσ
  · refine obeys_of_some hs' fun w hw => ?_
    rcases List.mem_cons.mp hw with rfl | hw
    · rw [htorn.best_eq]
      exact hσ _ σ.best_mem
    · rcases htorn.mem hw with hw | ⟨v, hv, heq⟩
      · exact hw.isRanked
      · rw [heq]
        exact hσ v (List.mem_cons_of_mem _ hv)

theorem improve_valued (hs : s.simplex = some σ) (hσ : σ.Valued) :
    Ends (fun _ s' => s'.Obeys Valued) (fun s' => s'.Obeys Valued) (improve f o σ s) := by
  refine (improve_ends hs).mono ?_ ?_
  · exact fun reached s' hend => hend.valued hσ
  · exact fun s' hend => hend.valued hs hσ

/-- **An iteration keeps values as they rank**, however it ends. -/
theorem iterate_valued (h : s.Obeys Valued) :
    Ends (fun _ s' => s'.Obeys Valued) (fun s' => s'.Obeys Valued) (iterate f o x s) := by
  cases hs : s.simplex with
  | some σ =>
    refine (iterate_ends_of_some hs).mono ?_ ?_
    · exact fun reached s' hend => hend.valued (h σ hs)
    · exact fun s' hend => hend.valued hs (h σ hs)
  | none =>
    refine (iterate_ends_of_none hs).mono ?_ ?_
    · rintro reached s' ⟨σ, hσ, hend⟩
      exact hend.valued fun v hv => (hσ.answered v hv).isRanked
    · rintro s' (⟨hs', -⟩ | ⟨σ, s₁, hσ, hs₁, -, hend⟩)
      · exact obeys_of_none hs'
      · exact hend.valued hs₁ fun v hv => (hσ.answered v hv).isRanked

end Search

namespace InPlace

open Simplex

variable {f : Objective} {o : Options} {x : Point} {dim : Nat} {t t' : Store} {s : Search}
  {P : Simplex → Prop}

/-! ### Use -/

/-- The stores that callers come to. -/
inductive Reachable (f : Objective) (o : Options) : Store → Prop
  /-- A search is started. -/
  | start {x : Point} (hx : f.Admits x) : Reachable f o (start f o x)
  /-- An iteration has a result. -/
  | completed {t t' : Store} {y : Float} (ht : Reachable f o t) (h : iterate f t = .ok y t') :
      Reachable f o t'
  /-- An iteration gets no answer. -/
  | unanswered {t t' : Store} {why : Fault} (ht : Reachable f o t)
      (h : iterate f t = .error (.fault why) t') : Reachable f o t'
  /-- The search is reset. -/
  | reset {t : Store} (ht : Reachable f o t) : Reachable f o t.reset
  /-- The caller moves its point. -/
  | moved {t : Store} {x : Point} (ht : Reachable f o t) (hx : f.Admits x) :
      Reachable f o { t with point := x }

/-- The store stands beside a search on a list whose simplex is as described. -/
def Follows (o : Options) (dim : Nat) (P : Simplex → Prop) (t : Store) : Prop :=
  ∃ s, Keeps o t.point dim t s ∧ s.Obeys P

/-- Points, values and the order are one in number, of a whole simplex or of none, and hold what they
are to hold. -/
structure Slots.Agree (s : Slots) (dim : Nat) : Prop where
  /-- There are as many values as points. -/
  size_values : s.values.size = s.points.size
  /-- The order lists as many slots. -/
  size_order : s.order.size = s.points.size
  /-- That is none, or one more than there are dimensions. -/
  size_points : s.points.size = 0 ∨ s.points.size = dim + 1
  /-- The order lists each slot once. -/
  order_perm : s.points.size ≠ 0 → s.order.toList.Perm (List.range (dim + 1))
  /-- The points have the dimension. -/
  length_point : ∀ p ∈ s.points, p.length = dim
  /-- No value is below all numbers, or no number. -/
  value : ∀ y ∈ s.values, y.isNaN = false ∧ y ≠ -infinity

/-! ### One use -/

theorem follows_start (f : Objective) (o : Options) (x : Point) :
    Follows (o.inEffect f.dim) f.dim P (start f o x) :=
  ⟨{}, stands_start f (fun _ => 0) o x, Search.obeys_of_none rfl⟩

theorem Follows.mono {Q : Simplex → Prop} (h : Follows o dim P t) (hPQ : ∀ σ, P σ → Q σ) :
    Follows o dim Q t := by
  obtain ⟨s, hkeeps, hs⟩ := h
  exact ⟨s, hkeeps, fun σ hσ => hPQ σ (hs σ hσ)⟩

theorem Keeps.reset (h : Keeps o x dim t s) : Keeps o x dim t.reset s.reset :=
  ⟨(h.toTracks.slots _).place _, rfl⟩

theorem Follows.reset {Q : Simplex → Prop} (h : Follows o dim P t) : Follows o dim Q t.reset := by
  obtain ⟨s, hkeeps, -⟩ := h
  exact ⟨s.reset, hkeeps.reset, Search.obeys_of_none rfl⟩

theorem Keeps.move (h : Keeps o x dim t s) (y : Point) : Keeps o y dim { t with point := y } s :=
  ⟨⟨h.options, rfl, h.drafts, h.asked, h.notes⟩, h.simplex⟩

theorem Follows.move (h : Follows o dim P t) (x : Point) :
    Follows o dim P { t with point := x } := by
  obtain ⟨s, hkeeps, hs⟩ := h
  exact ⟨s, hkeeps.move x, hs⟩

/-- A result is that of the search on the list, and the caller is given the best point. -/
theorem Keeps.of_ok (h : Keeps o t.point f.dim t s) (hx : t.point.length = f.dim) {y : Float}
    (hr : iterate f t = .ok y t') :
    ∃ reached s', Search.iterate f o t.point s = .ok reached s' ∧ Keeps o t'.point f.dim t' s' ∧
      y = reached.best.value ∧ t'.point = reached.best.point ∧ t'.point.length = f.dim := by
  have halike := iterate_alike (f := f) h hx
  rw [hr] at halike
  obtain ⟨reached, s', hr', hy, hkeeps, σ, hσ, hbest⟩ := halike.of_ok
  have hpoint : t'.point = reached.best.point := hkeeps.point
  refine ⟨reached, s', hr', ?_, hy, hpoint, ?_⟩
  · rw [hpoint]
    exact hkeeps
  · rw [hpoint, ← hbest]
    exact (hkeeps.holds hσ).length_point _ σ.best_mem

/-- What ends an iteration is a fault that the search on the list has met as well, and the point of
the caller is left alone. -/
theorem Keeps.of_error (h : Keeps o t.point f.dim t s) (hx : t.point.length = f.dim) {e : Halt}
    (hr : iterate f t = .error e t') :
    ∃ why s', e = .fault why ∧ Search.iterate f o t.point s = .error (.fault why) s' ∧
      Keeps o t'.point f.dim t' s' ∧ t'.point = t.point := by
  have halike := iterate_alike (f := f) h hx
  rw [hr] at halike
  obtain ⟨why, s', rfl, hr', hkeeps⟩ := halike.of_error
  refine ⟨why, s', rfl, hr', ?_, hkeeps.point⟩
  rw [hkeeps.point]
  exact hkeeps

/-- On a simplex, and with a point of another dimension, an iteration meets a fault, as it does on
the list, or ends in a breach. -/
theorem iterate_of_length_ne (h : Keeps o x f.dim t s) {σ : Simplex} (hσ : s.simplex = some σ)
    (hx : x.length ≠ f.dim) :
    (∃ why t' s', iterate f t = .error (.fault why) t' ∧
      Search.improve f o σ s = .error (.fault why) s' ∧ Keeps o x f.dim t' s') ∨
    ∃ how t', iterate f t = .error (.breach how) t' := by
  have halike := advance_alike (f := f) h hσ
  rw [iterate_of_some h hσ, improve_eq]
  cases hr : advance f f.dim t with
  | ok u t' =>
    rw [hr] at halike
    obtain ⟨reached, s', -, hkeeps, τ, hτ, -⟩ := halike.of_ok
    have hbreach := finish_of_length_ne (hkeeps.holds hτ) (hkeeps.point ▸ hx)
    exact .inr ⟨_, _, (bind_of_ok hr).trans hbreach⟩
  | error e t' =>
    rw [hr] at halike
    obtain ⟨why, s', rfl, hs', hkeeps⟩ := halike.of_error
    exact .inl ⟨why, t', s', bind_of_error hr, hs', hkeeps⟩

/-- No simplex is laid around a point that is refused. The point is asked for, and that is all. -/
theorem lay_of_refused (hf : f.Refuses) (hx : t.point.length ≠ f.dim) :
    lay f t = .error (.fault (.dimension f.dim t.point.length))
      { t with asked := t.asked.push t.point } := by
  have hask : ask f t.point t = .error (.fault (.dimension f.dim t.point.length))
      { t with asked := t.asked.push t.point } := by
    rw [ask, hf _ _ hx]
  rw [lay, bind_get, bind_of_error hask]

/-- Without a simplex an iteration from such a point ends there. -/
theorem iterate_of_refused (hf : f.Refuses) (h : Keeps o x f.dim t s) (hσ : s.simplex = none)
    (hx : t.point.length ≠ f.dim) :
    iterate f t = .error (.fault (.dimension f.dim t.point.length))
      { t with asked := t.asked.push t.point } := by
  rw [iterate_of_none h hσ, bind_of_error (lay_of_refused hf hx)]

/-- Where an iteration has a result, the caller's point has had the dimension. -/
theorem length_of_iterate_ok (h : Keeps o t.point f.dim t s) (hx : f.Admits t.point) {y : Float}
    (hr : iterate f t = .ok y t') : t.point.length = f.dim := by
  by_contra hne
  cases hσ : s.simplex with
  | none =>
    rw [iterate_of_refused (hx.resolve_left hne) h hσ hne] at hr
    cases hr
  | some σ =>
    rcases iterate_of_length_ne h hσ hne with ⟨_, _, _, hfault, -⟩ | ⟨_, _, hbreach⟩
    · rw [hfault] at hr
      cases hr
    · rw [hbreach] at hr
      cases hr

/-- An iteration with a result keeps values as they rank, and gives the caller a point of the
dimension. -/
theorem Follows.valued_of_ok (h : Follows o f.dim Valued t) (hx : f.Admits t.point) {y : Float}
    (hr : iterate f t = .ok y t') : Follows o f.dim Valued t' ∧ f.Admits t'.point := by
  obtain ⟨s, hkeeps, hs⟩ := h
  obtain ⟨reached, s', hr', hkeeps', -, -, hlen⟩ :=
    hkeeps.of_ok (length_of_iterate_ok hkeeps hx hr) hr
  have hs' := Search.iterate_valued (f := f) (o := o) (x := t.point) hs
  rw [hr'] at hs'
  exact ⟨⟨s', hkeeps', hs'⟩, .inl hlen⟩

/-- So does one that meets a fault, which leaves the caller's point alone. -/
theorem Follows.valued_of_fault (h : Follows o f.dim Valued t) (hx : f.Admits t.point) {why : Fault}
    (hr : iterate f t = .error (.fault why) t') :
    Follows o f.dim Valued t' ∧ t'.point = t.point := by
  obtain ⟨s, hkeeps, hs⟩ := h
  by_cases hlen : t.point.length = f.dim
  · obtain ⟨_, s', -, hr', hkeeps', hpoint⟩ := hkeeps.of_error hlen hr
    have hs' := Search.iterate_valued (f := f) (o := o) (x := t.point) hs
    rw [hr'] at hs'
    exact ⟨⟨s', hkeeps', hs'⟩, hpoint⟩
  -- with another dimension, either nothing has been laid or the fault is met before the point matters
  cases hσ : s.simplex with
  | none =>
    rw [iterate_of_refused (hx.resolve_left hlen) hkeeps hσ hlen] at hr
    obtain ⟨-, rfl⟩ := EStateM.Result.error.inj hr
    exact ⟨⟨_, hkeeps.ask _, hs⟩, rfl⟩
  | some σ =>
    rcases iterate_of_length_ne hkeeps hσ hlen with ⟨_, _, s', hr', hfault, hkeeps'⟩ |
      ⟨_, _, hbreach⟩
    · rw [hr'] at hr
      obtain ⟨-, rfl⟩ := EStateM.Result.error.inj hr
      have hs' := Search.improve_valued (f := f) (o := o) hσ (hs σ hσ)
      rw [hfault] at hs'
      refine ⟨⟨s', ?_, hs'⟩, hkeeps'.point⟩
      rw [hkeeps'.point]
      exact hkeeps'
    · rw [hbreach] at hr
      cases hr

/-- From a point of the dimension, what ends an iteration is such a fault. -/
theorem Follows.valued_of_error (h : Follows o f.dim Valued t) (hx : t.point.length = f.dim)
    {e : Halt} (hr : iterate f t = .error e t') :
    Follows o f.dim Valued t' ∧ t'.point = t.point := by
  have ⟨_, hkeeps, _⟩ := h
  obtain ⟨why, -, rfl, -⟩ := hkeeps.of_error hx hr
  exact h.valued_of_fault (.inl hx) hr

/-! ### Any use -/

/-- **Every store that can be reached stands beside a search** whose values are as they rank, and its
point is one that a caller may have. -/
theorem Reachable.follows (ht : Reachable f o t) :
    Follows (o.inEffect f.dim) f.dim Valued t ∧ f.Admits t.point := by
  induction ht with
  | start hx => exact ⟨follows_start f o _, hx⟩
  | completed _ hr ih => exact ih.1.valued_of_ok ih.2 hr
  | unanswered _ hr ih =>
    obtain ⟨hfollows, hpoint⟩ := ih.1.valued_of_fault ih.2 hr
    rw [hpoint]
    exact ⟨hfollows, ih.2⟩
  | reset _ ih => exact ⟨ih.1.reset, ih.2⟩
  | moved _ hx ih => exact ⟨ih.1.move _, hx⟩

theorem Follows.agree (h : Follows o dim Valued t) : t.slots.Agree dim := by
  obtain ⟨s, hkeeps, hs⟩ := h
  cases hσ : s.simplex with
  | none =>
    rw [hkeeps.slots_eq hσ]
    exact ⟨rfl, rfl, .inl rfl, fun h => absurd rfl h, by simp, by simp⟩
  | some σ =>
    have hholds := hkeeps.holds hσ
    refine ⟨hholds.size_values.trans hholds.size_points.symm,
      hholds.size_order.trans hholds.size_points.symm, .inr hholds.size_points,
      fun _ => hholds.order_perm, fun p hp => ?_, fun y hy => ?_⟩
    · obtain ⟨v, hv, rfl⟩ := hholds.exists_vertex_of_mem_points hp
      exact hholds.length_point v hv
    · obtain ⟨v, hv, rfl⟩ := hholds.exists_vertex_of_mem_values hy
      exact ⟨(hs σ hσ v hv).isNaN, (hs σ hσ v hv).ne_neg_infinity⟩

/-- Given a point of the dimension, an iteration has a result or meets a fault. -/
theorem Follows.exists_iterate (h : Follows o f.dim P t) (hx : t.point.length = f.dim) :
    (∃ y t', iterate f t = .ok y t') ∨ ∃ why t', iterate f t = .error (.fault why) t' := by
  obtain ⟨s, hkeeps, -⟩ := h
  cases hr : iterate f t with
  | ok y t' => exact .inl ⟨y, t', rfl⟩
  | error e t' =>
    obtain ⟨why, -, rfl, -⟩ := hkeeps.of_error hx hr
    exact .inr ⟨why, t', rfl⟩

/-- **Whatever a caller does, the slots agree.** Points, values and the order are all empty or those
of a whole simplex, whose points have the dimension and whose values are numbers. Hence an iteration
accesses nothing that is not there where the caller's point has the dimension, and where it has
another one a search without a simplex is refused, and nothing but the question is kept of it. -/
theorem slots_of_reachable (hf : f.Refuses) (ht : Reachable f o t) :
    t.slots.Agree f.dim ∧
      (t.point.length = f.dim →
        (∃ y t', iterate f t = .ok y t') ∨ ∃ why t', iterate f t = .error (.fault why) t') ∧
      (t.slots.points = #[] → t.point.length ≠ f.dim →
        iterate f t = .error (.fault (.dimension f.dim t.point.length))
          { t with asked := t.asked.push t.point }) := by
  obtain ⟨hfollows, -⟩ := ht.follows
  refine ⟨hfollows.agree, hfollows.exists_iterate, fun hempty hx => ?_⟩
  obtain ⟨s, hkeeps, -⟩ := hfollows
  have hnone := hkeeps.isEmpty_points
  rw [hempty] at hnone
  exact iterate_of_refused hf hkeeps (Option.isNone_iff_eq_none.mp hnone.symm) hx

/-! ### Iterations in parts -/

/-- What is done for the first simplex before its slots are listed and ranked. -/
def layPoints (f : Objective) : Action Unit := do
  let x := (← get).point
  push x (← ask f x)
  layAround f x (List.range f.dim)
  let laid := (← get).slots
  let count := laid.values.countP (!·.isFinite)
  if 0 < count then note (.invalid count laid.points.size)

/-- The first simplex is laid, and its slots are listed and ranked. -/
theorem lay_eq (f : Objective) : lay f = layPoints f >>= fun _ => arrange (f.dim + 1) := by
  rw [lay, layPoints]
  simp only [bind_assoc]
  congr! 9
  funext t
  split
  · rfl
  · rw [pure_bind]

/-- A first iteration improves what has been laid, listed and ranked. -/
theorem iterate_of_laid {laid listed u : Store} (hempty : t.slots.points.isEmpty = true)
    (hlay : layPoints f t = .ok () laid)
    (hlisted : { laid with
      slots.order := laid.slots.order ++ (List.range (f.dim + 1)).toArray } = listed)
    (hrank : rank listed = .ok () u) : iterate f t = improve f f.dim u := by
  have harrange : arrange (f.dim + 1) laid = .ok () u := by
    rw [arrange, bind_modify, hlisted, hrank]
  rw [iterate_of_isEmpty hempty, lay_eq, bind_assoc, bind_of_ok hlay, bind_of_ok harrange]

/-- On a simplex an iteration ends as what follows its move and the ranking does. -/
theorem iterate_of_moved {n : Nat} {move : Move} {moved u : Store}
    (hempty : t.slots.points.isEmpty = false) (hdim : f.dim = n + 1)
    (hmove : transform f n t = .ok move moved) (hrank : rank moved = .ok () u) :
    iterate f t = (noteMove move (n + 1) >>= fun _ => finish) u := by
  rw [iterate_of_not_isEmpty hempty, hdim, improve, bind_of_ok hmove, bind_of_ok hrank]

/-! ### A search that is torn -/

/-- An objective of one coordinate: zero everywhere, without an answer to two of its calls. -/
def flat : Objective where
  dim := 1
  apply call p :=
    if p.length ≠ 1 then .error (.dimension 1 p.length)
    else if call ∈ [3, 6] then .error (.stuck (.malformed call)) else .ok 0

theorem flat_refuses : flat.Refuses := fun _ _ hp => if_pos hp

/-- The search on it from zero, with a first simplex. -/
def flatLaid : Store where
  options := { zeroStep := 8 }
  slots := ⟨#[[0], [8]], #[0, 0], #[0, 1]⟩
  drafts := ⟨[0], [0], [0], [0]⟩
  point := [0]
  asked := #[[0], [8]]

/-- Its reflected vertex has got no answer. -/
def flatUnanswered : Store :=
  { flatLaid with
    drafts := ⟨[0], [-8], [0], [0]⟩
    asked := #[[0], [8], [-8]]
    notes := #[.centroid [0]] }

/-- The next iteration has been broken off in a shrinkage. -/
def flatTorn : Store :=
  { flatUnanswered with
    slots := ⟨#[[0], [4]], #[0, 0], #[0, 1]⟩
    asked := #[[0], [8], [-8], [-8], [4], [4]]
    notes := #[.centroid [0], .centroid [0]] }

theorem iterate_flat :
    iterate flat (start flat { zeroStep := 8 } [0]) =
      .error (.fault (.stuck (.malformed 3))) flatUnanswered := by
  have hlay : layPoints flat (start flat { zeroStep := 8 } [0]) =
      .ok () { flatLaid with slots := { flatLaid.slots with order := #[] } } := by decide +kernel
  have hrank : rank flatLaid = .ok () flatLaid :=
    rank_of_pairwise (by decide +kernel) (by decide +kernel)
  rw [iterate_of_laid rfl hlay rfl hrank]
  decide +kernel

theorem iterate_flatUnanswered :
    iterate flat flatUnanswered = .error (.fault (.stuck (.malformed 6))) flatTorn := by
  decide +kernel

theorem reachable_flatUnanswered : Reachable flat { zeroStep := 8 } flatUnanswered :=
  .unanswered (.start (.inl rfl)) iterate_flat

/-- The slots of a torn search agree, and a search that starts at a point of another dimension is
refused. -/
theorem slots_of_reachable_flatTorn :
    (flat.Refuses ∧ Reachable flat { zeroStep := 8 } flatTorn ∧ flatTorn.slots.Agree 1 ∧
      ((∃ y t', iterate flat flatTorn = .ok y t') ∨
        ∃ why t', iterate flat flatTorn = .error (.fault why) t')) ∧
      iterate flat (start flat {} [0, 0]) =
        .error (.fault (.dimension 1 2)) { start flat {} [0, 0] with asked := #[[0, 0]] } := by
  have ht : Reachable flat { zeroStep := 8 } flatTorn :=
    .unanswered reachable_flatUnanswered iterate_flatUnanswered
  obtain ⟨hagree, hends, -⟩ := slots_of_reachable flat_refuses ht
  have hstart : Reachable flat {} (start flat {} [0, 0]) := .start (.inr flat_refuses)
  obtain ⟨-, -, hrefused⟩ := slots_of_reachable flat_refuses hstart
  exact ⟨⟨flat_refuses, ht, hagree, hends rfl⟩, hrefused rfl (by decide)⟩

end InPlace

end Downhill
