import Downhill.Proofs.Simplex.Run

/-!
# The least value found so far

A search gives up most of what it asks for: reflections and contractions that are no better, a
reflection that an expansion has outdone, all vertices that a shrinkage moves away. What it gives up
is never better than what it keeps.

What is proved: after a move every point asked for on the way has its match among the vertices, one
that is no worse (`IsTurn.exists_le`). So the best value after a step is not above the one before nor
above anything the step has found (`Sound.best_step_le`, `Sound.best_step_le_of_mem_asked`), and along
a run it is the least of all values found since the first simplex was laid, held by one of the points
asked for (`best_le_of_mem_questions`, `point_mem_questions`). This is what an iteration in place
returns (`iterate_returns_least`).
-/

namespace Downhill

namespace Simplex

variable {value : Point → Float} {o : Options} {dim : Nat} {s : Simplex} {x : Point}

/-! ### One step -/

section Turn

variable {best worst : Vertex} {middle : List Vertex} {t : Turn} {p : Point}

/-- **Nothing better is given up**: each point asked for on the way is matched by a vertex that is
there after the move. -/
theorem IsTurn.exists_le (ht : IsTurn value o best middle worst t) (hb : best.value.isNaN = false)
    (hle : best.value ≤ worst.value) (hp : p ∈ t.asked) :
    ∃ v ∈ best :: t.others, v.value ≤ (vertexAt value p).value := by
  have hnum : ∀ q, (vertexAt value q).value.isNaN = false := fun q => (isRanked_vertexAt q).isNaN
  have hrefl : ∀ q, (vertexAt value q).value ≤ (vertexAt value q).value := fun q =>
    float_le_refl (hnum q)
  cases ht with
  | accept hbest hsecond =>
    rw [List.mem_singleton] at hp
    subst hp
    exact ⟨reflected value o best middle worst, by simp, hrefl _⟩
  | expand hbest hbetter =>
    refine ⟨expanded value o best middle worst, by simp, ?_⟩
    rw [List.mem_pair] at hp
    rcases hp with rfl | rfl
    · exact float_le_of_lt (hnum _) (hnum _) hbetter
    · exact hrefl _
  | hold hbest hbetter =>
    refine ⟨reflected value o best middle worst, by simp, ?_⟩
    rw [List.mem_pair] at hp
    rcases hp with rfl | rfl
    · exact hrefl _
    · exact (float_not_lt_iff (hnum _) (hnum _)).mp hbetter
  | contract hbest hworst =>
    rw [List.mem_pair] at hp
    rcases hp with rfl | rfl
    · exact ⟨best, by simp, (float_not_lt_iff (hnum _) hb).mp hbest⟩
    · exact ⟨contracted value o best middle worst, by simp, hrefl _⟩
  | shrink hbest hworst =>
    rw [List.mem_cons, List.mem_cons] at hp
    rcases hp with rfl | rfl | hp
    · exact ⟨best, by simp, (float_not_lt_iff (hnum _) hb).mp hbest⟩
    -- the worst vertex is shrunk away, and the best one is no worse than it was
    · refine ⟨best, by simp, float_le_trans hle ?_⟩
      exact (float_not_lt_iff (hnum _) (isNaN_of_le hle).2).mp hworst
    · obtain ⟨v, hv, rfl⟩ := List.mem_map.mp hp
      refine ⟨v, List.mem_cons_of_mem _ hv, ?_⟩
      obtain ⟨u, -, rfl⟩ := List.mem_map.mp hv
      exact hrefl _

end Turn

section Step

variable (hs : s.Sound value dim)
include hs

theorem Sound.best_le_last {middle : List Vertex} {worst : Vertex}
    (h : s.others = middle ++ [worst]) : s.best.value ≤ worst.value :=
  hs.ordered.best_le (last_mem_vertices h)

/-- **The best value never rises** from one step to the next. -/
theorem Sound.best_step_le : (s.step value o).simplex.best.value ≤ s.best.value := by
  rcases List.eq_nil_or_concat' s.others with h | ⟨middle, worst, h⟩
  · rw [step_of_nil h]
    exact float_le_refl (hs.isRanked s.best_mem).isNaN
  · -- the old best vertex is among those that are ranked
    refine hs.step.ordered.best_le ?_
    rw [step_of_append h]
    exact mem_ranked.mpr List.mem_cons_self

/-- **No step finds anything better than its best vertex.** -/
theorem Sound.best_step_le_of_mem_asked {p : Point} (hp : p ∈ (s.step value o).asked) :
    (s.step value o).simplex.best.value ≤ (vertexAt value p).value := by
  rcases List.eq_nil_or_concat' s.others with h | ⟨middle, worst, h⟩
  · rw [step_of_nil h] at hp
    cases hp
  · have hordered := (hs.step (o := o)).ordered
    rw [step_of_append h] at hp hordered ⊢
    obtain ⟨v, hv, hle⟩ := (isTurn_turn value o s.best middle worst).exists_le
      (hs.isRanked s.best_mem).isNaN (hs.best_le_last h) hp
    exact float_le_trans (hordered.best_le (mem_ranked.mpr hv)) hle

theorem Sound.length_of_mem_asked {p : Point} (hp : p ∈ (s.step value o).asked) :
    p.length = dim := by
  rcases List.eq_nil_or_concat' s.others with h | ⟨middle, worst, h⟩
  · rw [step_of_nil h] at hp
    cases hp
  · rw [step_of_append h] at hp
    exact (isTurn_turn value o s.best middle worst).length_of_mem_asked hs.length_best
      (hs.length_middle h) (hs.length_last h) hp

end Step

/-- A vertex after a step was there before, or has been asked for. -/
theorem mem_vertices_step {v : Vertex} (hv : v ∈ (s.step value o).simplex.vertices) :
    v ∈ s.vertices ∨ v.point ∈ (s.step value o).asked := by
  rcases List.eq_nil_or_concat' s.others with h | ⟨middle, worst, h⟩
  · rw [step_of_nil h] at hv
    exact .inl hv
  · rw [step_of_append h] at hv ⊢
    rcases List.mem_cons.mp (mem_ranked.mp hv) with rfl | hv
    · exact .inl s.best_mem
    · rcases (isTurn_turn value o s.best middle worst).mem_others hv with hmem | ⟨hasked, -⟩
      · exact .inl (mem_vertices_of_append h hmem)
      · exact .inr hasked

/-! ### Whole runs -/

/-- The points of the first simplex are among those asked for. -/
theorem mem_questions_of_mem_first {p : Point} (hp : p ∈ x :: Search.neighbours o x) (k : Nat) :
    p ∈ questions value o x k := by
  induction k with
  | zero => exact hp
  | succ k ih => exact List.mem_append_left _ ih

theorem length_of_mem_questions {k : Nat} {p : Point} (hp : p ∈ questions value o x k) :
    p.length = x.length := by
  induction k with
  | zero =>
    rcases List.mem_cons.mp hp with rfl | hp
    · rfl
    · exact length_of_mem_neighbours hp
  | succ k ih =>
    rcases List.mem_append.mp hp with hp | hp
    · exact ih hp
    · exact (sound_trajectory x k).length_of_mem_asked hp

/-- **Along a run the best value is not above any that has been found**, kept or given up. -/
theorem best_le_of_mem_questions {k : Nat} {p : Point} (hp : p ∈ questions value o x k) :
    (trajectory value o x k).best.value ≤ (vertexAt value p).value := by
  induction k with
  | zero =>
    refine (sound_first x).ordered.best_le (mem_ranked.mpr ?_)
    exact List.mem_map_of_mem (f := vertexAt value) hp
  | succ k ih =>
    have hs : (trajectory value o x k).Sound value x.length := sound_trajectory x k
    rcases List.mem_append.mp hp with hp | hp
    · exact float_le_trans hs.best_step_le (ih hp)
    · exact hs.best_step_le_of_mem_asked hp

/-- **Every vertex has been asked for.** -/
theorem point_mem_questions {k : Nat} {v : Vertex} (hv : v ∈ (trajectory value o x k).vertices) :
    v.point ∈ questions value o x k := by
  induction k with
  | zero =>
    have hmem : v ∈ (x :: Search.neighbours o x).map (vertexAt value) := mem_ranked.mp hv
    obtain ⟨p, hp, rfl⟩ := List.mem_map.mp hmem
    exact hp
  | succ k ih =>
    rcases mem_vertices_step hv with hv | hv
    · exact List.mem_append_left _ (ih hv)
    · exact List.mem_append_right _ hv

/-- The best value never rises along a run. -/
theorem best_trajectory_le {j k : Nat} (h : j ≤ k) :
    (trajectory value o x k).best.value ≤ (trajectory value o x j).best.value := by
  induction k, h using Nat.le_induction with
  | base => exact float_le_refl ((sound_trajectory x j).isRanked (best_mem _)).isNaN
  | succ k _ ih => exact float_le_trans (sound_trajectory x k).best_step_le ih

end Simplex

namespace InPlace

open Simplex

variable {f : Objective} {value : Point → Float} {x : Point}

/-- **An iteration returns the least value found so far.** The points of the first simplex have been
asked for, and whatever else the search has tried, be it rejected or given up later. Of all the values
found there, as they rank, the one returned is the least, and it is that of the point which the caller
is given. So no later iteration returns more. -/
theorem iterate_returns_least (h : f.Answers value) (o : Options) (hx : x.length = f.dim) (k : Nat) :
    ∃ t y t', iterations f k (start f o x) = .ok () t ∧ iterate f t = .ok y t' ∧
      (∀ p ∈ x :: Search.neighbours (o.inEffect f.dim) x, p ∈ t'.asked) ∧
      (∀ p ∈ t'.asked, ∀ call, ∃ z, f.apply call p = .ok z ∧ y ≤ rankedValue z) ∧
      t'.point ∈ t'.asked ∧ (∀ call, ∃ z, f.apply call t'.point = .ok z ∧ y = rankedValue z) ∧
      ∀ l ≥ k, ∃ u z u', iterations f l (start f o x) = .ok () u ∧ iterate f u = .ok z u' ∧ z ≤ y := by
  have hrun : ∀ l, ∃ u u', iterations f l (start f o x) = .ok () u ∧
      iterate f u = .ok (trajectory value (o.inEffect f.dim) x (l + 1)).best.value u' ∧
      Stands value (o.inEffect f.dim) x f.dim (l + 1) u' := by
    intro l
    obtain ⟨u, hu, hst⟩ := exists_iterations h o hx l
    obtain ⟨u', hnext, hst'⟩ := exists_iterate h hx hst
    exact ⟨u, u', hu, hnext, hst'⟩
  obtain ⟨t, t', ht, hnext, hst⟩ := hrun k
  have hasked : ∀ p, p ∈ t'.asked ↔ p ∈ questions value (o.inEffect f.dim) x (k + 1) := by
    intro p
    rw [← Array.mem_toList_iff, hst.asked, if_neg (Nat.succ_ne_zero k)]
  have hanswer : ∀ p ∈ t'.asked, ∀ call, f.apply call p = .ok (value p) := by
    intro p hp call
    exact h call p ((length_of_mem_questions ((hasked p).mp hp)).trans hx)
  have hpoint : t'.point ∈ t'.asked := by
    rw [hasked, hst.point]
    exact point_mem_questions (best_mem _)
  refine ⟨t, _, t', ht, hnext, fun p hp => ?_, fun p hp call => ?_, hpoint, fun call => ?_,
    fun l hl => ?_⟩
  · exact (hasked p).mpr (mem_questions_of_mem_first hp _)
  · exact ⟨_, hanswer p hp call, best_le_of_mem_questions ((hasked p).mp hp)⟩
  · refine ⟨_, hanswer _ hpoint call, ?_⟩
    rw [hst.point]
    exact congrArg Vertex.value ((sound_trajectory x (k + 1)).eq_vertexAt _ (best_mem _))
  · obtain ⟨u, u', hu, hlater, -⟩ := hrun l
    exact ⟨u, _, u', hu, hlater, best_trajectory_le (Nat.succ_le_succ hl)⟩

/-- A function that falls towards one and is no number below it is followed to the edge and not
beyond: the value returned is one. -/
theorem iterate_returns_least_edge :
    let f : Objective := .ofFunction 1 fun p => .ok (if p.headD 0 < 1 then 0 / 0 else p.headD 0)
    ∃ t y t', iterations f 1 (start f {} [1]) = .ok () t ∧ iterate f t = .ok y t' ∧
      y ≤ 1 ∧ ¬ y < 1 := by
  intro f
  have hf : f.Answers fun p => if p.headD 0 < 1 then 0 / 0 else p.headD 0 :=
    fun call p hp => if_pos hp
  have hx : ([1] : Point).length = f.dim := rfl
  obtain ⟨t, y, t', hrun, hnext, hfirst, hleast, -, hpoint, -⟩ := iterate_returns_least hf {} hx 1
  refine ⟨t, y, t', hrun, hnext, ?_, ?_⟩
  · obtain ⟨z, hz, hle⟩ := hleast [1] (hfirst _ List.mem_cons_self) 0
    obtain rfl : 1 = z := Except.ok.inj hz
    exact hle
  · obtain ⟨z, hz, rfl⟩ := hpoint 0
    by_cases hfin : z.isFinite = true
    · rw [rankedValue_of_isFinite hfin]
      by_cases hp : t'.point.length = 1
      · obtain rfl : (if t'.point.headD 0 < 1 then 0 / 0 else t'.point.headD 0) = z :=
          Except.ok.inj ((if_pos hp).symm.trans hz)
        split
        · decide
        · assumption
      · cases (if_neg hp).symm.trans hz
    · rw [rankedValue_of_not_isFinite (by simpa using hfin)]
      decide

end InPlace

end Downhill
