import Downhill.Proofs.Simplex.Session

/-!
# Values that fall

A caller that goes on after faults gets a value from each iteration that is completed. The simplex
between two of them may be torn, with vertices that are out of order and hold values of other points.
The vertex in front, however, is the one thing that an iteration which is broken off never touches, and
an iteration that is completed ranks it with the others: so the value in front is a bound of all that
follows (`Under`).

What is proved: as long as the search is not reset, the values of the iterations never rise, wherever
the objective fails and whatever points the caller moves to (`values_fall`).
-/

namespace Downhill

namespace Search

open Simplex

variable {f : Objective} {o : Options} {s s' : Search} {σ : Simplex}

/-- After a completed iteration the best vertex is no worse than before. -/
theorem Completed.exists_best_le {reached : Reached} (h : Completed f o σ reached s')
    (hσ : σ.Valued) :
    ∃ τ, s'.simplex = some τ ∧ τ.Valued ∧ τ.best = reached.best ∧
      τ.best.value ≤ σ.best.value := by
  have hvalued := h.valued hσ
  obtain ⟨others, -, hs', hbest⟩ := h
  have hτ := hvalued _ hs'
  have hnum : ∀ w ∈ σ.best :: others, w.value.isNaN = false := fun w hw =>
    (hτ w (mem_ranked.mpr hw)).isNaN
  have hfront : σ.best ∈ (ranked σ.best others).vertices := mem_ranked.mpr List.mem_cons_self
  exact ⟨_, hs', hτ, hbest.symm, (ordered_ranked hnum).best_le hfront⟩

/-- After one that is broken off the best vertex is the same. -/
theorem BrokenOff.exists_best_eq (h : BrokenOff f o σ s s') (hs : s.simplex = some σ)
    (hσ : σ.Valued) : ∃ τ, s'.simplex = some τ ∧ τ.Valued ∧ τ.best = σ.best := by
  have hvalued := h.valued hs hσ
  rcases h with ⟨hs', -⟩ | ⟨n, τ, htorn, hs', -⟩
  · exact ⟨σ, hs'.trans hs, hσ, rfl⟩
  · exact ⟨τ, hs', hvalued τ hs', htorn.best_eq⟩

end Search

namespace InPlace

open Simplex

variable {f : Objective} {o : Options} {dim : Nat} {b y : Float} {e : Halt} {t t' : Store}
  {uses : List Use}

/-- The search has vertices, and the value in front is at most this one. -/
def Under (o : Options) (dim : Nat) (b : Float) (t : Store) : Prop :=
  ∃ s σ, Keeps o t.point dim t s ∧ s.simplex = some σ ∧ σ.Valued ∧ σ.best.value ≤ b

theorem Under.follows (h : Under o dim b t) : Follows o dim Valued t := by
  obtain ⟨s, σ, hkeeps, hσ, hvalued, -⟩ := h
  exact ⟨s, hkeeps, Search.obeys_of_some hσ hvalued⟩

theorem Under.move (h : Under o dim b t) (x : Point) : Under o dim b { t with point := x } := by
  obtain ⟨s, σ, hkeeps, hrest⟩ := h
  exact ⟨s, σ, hkeeps.move x, hrest⟩

/-! ### One iteration -/

/-- A value that an iteration has is in front after it. -/
theorem Follows.under_of_ok (h : Follows o f.dim Valued t) (hx : t.point.length = f.dim)
    (hr : iterate f t = .ok y t') : Under o f.dim y t' ∧ t'.point.length = f.dim := by
  obtain ⟨s, hkeeps, hs⟩ := h
  obtain ⟨reached, s', hr', hkeeps', rfl, -, hlen⟩ := hkeeps.of_ok hx hr
  -- there is a simplex before the move, be it one that has only been laid
  have hcompleted : ∃ σ, σ.Valued ∧ Search.Completed f o σ reached s' := by
    cases hσ : s.simplex with
    | some σ =>
      have hend := Search.iterate_ends_of_some (f := f) (o := o) (x := t.point) hσ
      rw [hr'] at hend
      exact ⟨σ, hs σ hσ, hend⟩
    | none =>
      have hend := Search.iterate_ends_of_none (f := f) (o := o) (x := t.point) hσ
      rw [hr'] at hend
      obtain ⟨σ, hlaid, hend⟩ := hend
      exact ⟨σ, fun v hv => (hlaid.answered v hv).isRanked, hend⟩
  obtain ⟨σ, hvalued, hend⟩ := hcompleted
  obtain ⟨τ, hτ, hvalued', hbest, -⟩ := hend.exists_best_le hvalued
  have hfront : τ.best.value ≤ reached.best.value := by
    rw [hbest]
    exact float_le_refl (hbest ▸ hvalued' _ τ.best_mem).isNaN
  exact ⟨⟨s', τ, hkeeps', hτ, hvalued', hfront⟩, hlen⟩

/-- It is no higher than the value in front was. -/
theorem Under.le_of_ok (h : Under o f.dim b t) (hx : t.point.length = f.dim)
    (hr : iterate f t = .ok y t') : y ≤ b := by
  obtain ⟨s, σ, hkeeps, hσ, hvalued, hle⟩ := h
  obtain ⟨reached, s', hr', -, rfl, -⟩ := hkeeps.of_ok hx hr
  have hend := Search.iterate_ends_of_some (f := f) (o := o) (x := t.point) hσ
  rw [hr'] at hend
  obtain ⟨τ, -, -, hbest, hfall⟩ := hend.exists_best_le hvalued
  exact hbest ▸ float_le_trans hfall hle

/-- Where there is no answer, the front is left alone. -/
theorem Under.of_error (h : Under o f.dim b t) (hx : t.point.length = f.dim)
    (hr : iterate f t = .error e t') : Under o f.dim b t' ∧ t'.point = t.point := by
  obtain ⟨s, σ, hkeeps, hσ, hvalued, hle⟩ := h
  obtain ⟨why, s', -, hr', hkeeps', hpoint⟩ := hkeeps.of_error hx hr
  have hend := Search.iterate_ends_of_some (f := f) (o := o) (x := t.point) hσ
  rw [hr'] at hend
  obtain ⟨τ, hτ, hvalued', hbest⟩ := hend.exists_best_eq hσ hvalued
  exact ⟨⟨s', τ, hkeeps', hτ, hvalued', hbest ▸ hle⟩, hpoint⟩

/-! ### All iterations -/

/-- **No value is above the one in front**, in any session without a reset. -/
theorem Under.values_le (h : Under o f.dim b t) (hx : t.point.length = f.dim)
    (huses : ∀ v ∈ uses, v.Fits f.dim ∧ v ≠ .reset) :
    ∀ y ∈ valuesShown (session f t uses), y ≤ b := by
  induction uses generalizing b t with
  | nil => exact fun y hy => nomatch hy
  | cons v uses ih =>
    obtain ⟨⟨hfits, hreset⟩, hrest⟩ := List.forall_mem_cons.mp huses
    cases v with
    | iterate =>
      cases hr : iterate f t with
      | ok y t' =>
        have hy : y ≤ b := h.le_of_ok hx hr
        obtain ⟨hunder, hlen⟩ := h.follows.under_of_ok hx hr
        rw [valuesShown_of_ok hr]
        exact List.forall_mem_cons.mpr
          ⟨hy, fun z hz => float_le_trans (ih hunder hlen hrest z hz) hy⟩
      | error e t' =>
        obtain ⟨hunder, hpoint⟩ := h.of_error hx hr
        rw [valuesShown_of_error hr]
        exact ih hunder (hpoint ▸ hx) hrest
    | move x => exact ih (h.move x) hfits hrest
    | reset => exact absurd rfl hreset
    | look => exact ih h hx hrest

/-- **The values never rise**: of two iterations with a result the later one has a value no higher, in
any session without a reset. -/
theorem Follows.values_fall (h : Follows o f.dim Valued t) (hx : t.point.length = f.dim)
    (huses : ∀ v ∈ uses, v.Fits f.dim ∧ v ≠ .reset) :
    (valuesShown (session f t uses)).Pairwise fun y z => z ≤ y := by
  induction uses generalizing t with
  | nil => exact .nil
  | cons v uses ih =>
    obtain ⟨⟨hfits, hreset⟩, hrest⟩ := List.forall_mem_cons.mp huses
    cases v with
    | iterate =>
      cases hr : iterate f t with
      | ok y t' =>
        obtain ⟨hunder, hlen⟩ := h.under_of_ok hx hr
        rw [valuesShown_of_ok hr]
        exact .cons (hunder.values_le hlen hrest) (ih hunder.follows hlen hrest)
      | error e t' =>
        obtain ⟨hnext, hpoint⟩ := h.valued_of_error hx hr
        rw [valuesShown_of_error hr]
        exact ih hnext (hpoint ▸ hx) hrest
    | move x => exact ih (h.move x) hfits hrest
    | reset => exact absurd rfl hreset
    | look => exact ih h hx hrest

end InPlace

end Downhill
