import Downhill.Proofs.Float.Order

/-!
# Ranked vertices

The vertices of a simplex are sorted with a comparison of doubles, which is no order where a value
is no number. Values as they rank are numbers, and on these the comparison is that of their places
in a linear order.

What is proved: `Simplex.ranked` lists vertices whose values are numbers so that no value is above a
later one (`ordered_ranked`). In such a simplex the best value is below all others and the worst
value above them.
-/

namespace Downhill

/-- Sorting sees nothing but how the members of the list compare. -/
theorem mergeSort_congr {α : Type} {l : List α} {r s : α → α → Bool}
    (h : ∀ a ∈ l, ∀ b ∈ l, r a b = s a b) : l.mergeSort r = l.mergeSort s := by
  have hmap := List.map_mergeSort (r := r) (s := s) (f := id) h
  rwa [List.map_id, List.map_id] at hmap

/-- On vertices whose values are numbers, ranking is sorting by places. -/
theorem mergeSort_noWorse_eq {vs : List Vertex} (h : ∀ v ∈ vs, v.value.isNaN = false) :
    vs.mergeSort Vertex.noWorse =
      vs.mergeSort fun v w => decide (standing v.value ≤ standing w.value) := by
  have hle : ∀ v ∈ vs, ∀ w ∈ vs,
      v.noWorse w = decide (standing v.value ≤ standing w.value) := by
    intro v hv w hw
    rw [Vertex.noWorse, decide_eq_decide]
    exact le_iff_standing (h v hv) (h w hw)
  exact mergeSort_congr hle

/-- Places are compared transitively. -/
theorem standing_trans (u v w : Vertex) (huv : decide (standing u.value ≤ standing v.value) = true)
    (hvw : decide (standing v.value ≤ standing w.value) = true) :
    decide (standing u.value ≤ standing w.value) = true := by
  rw [decide_eq_true_eq] at huv hvw ⊢
  exact huv.trans hvw

/-- Any two places are comparable. -/
theorem standing_total (v w : Vertex) :
    (decide (standing v.value ≤ standing w.value) || decide (standing w.value ≤ standing v.value)) =
      true := by
  rw [Bool.or_eq_true, decide_eq_true_eq, decide_eq_true_eq]
  exact le_total _ _

/-- **Ranking sorts**: in a ranked list no value is above a later one. -/
theorem pairwise_mergeSort_noWorse {vs : List Vertex} (h : ∀ v ∈ vs, v.value.isNaN = false) :
    (vs.mergeSort Vertex.noWorse).Pairwise fun v w => v.value ≤ w.value := by
  have hsorted : (vs.mergeSort fun v w => decide (standing v.value ≤ standing w.value)).Pairwise
      fun v w => decide (standing v.value ≤ standing w.value) = true :=
    List.pairwise_mergeSort standing_trans standing_total vs
  rw [← mergeSort_noWorse_eq h] at hsorted
  refine hsorted.imp_of_mem ?_
  intro v w hv hw hvw
  rw [List.mem_mergeSort] at hv hw
  exact (le_iff_standing (h v hv) (h w hw)).mpr (of_decide_eq_true hvw)

namespace Simplex

/-- No value is above that of a later vertex, and all values are numbers. -/
structure Ordered (s : Simplex) : Prop where
  /-- The values are numbers. -/
  isNaN : ∀ v ∈ s.vertices, v.value.isNaN = false
  /-- They do not fall from one vertex to a later one. -/
  pairwise : s.vertices.Pairwise fun v w => v.value ≤ w.value

theorem mem_ranked {v w : Vertex} {vs : List Vertex} :
    w ∈ (ranked v vs).vertices ↔ w ∈ v :: vs :=
  (vertices_ranked_perm v vs).mem_iff

/-- A simplex is known by its vertices. -/
theorem eq_of_vertices_eq {s : Simplex} {v : Vertex} {vs : List Vertex} (h : s.vertices = v :: vs) :
    s = ⟨v, vs⟩ := by
  obtain ⟨hbest, hothers⟩ := List.cons.inj h
  calc s = ⟨s.best, s.others⟩ := rfl
    _ = ⟨v, vs⟩ := by rw [hbest, hothers]

/-- Vertices that stand in order are left as they are. -/
theorem ranked_of_pairwise {v : Vertex} {vs : List Vertex}
    (h : (v :: vs).Pairwise fun v w => v.noWorse w = true) : ranked v vs = ⟨v, vs⟩ := by
  apply eq_of_vertices_eq
  rw [vertices_ranked, List.mergeSort_of_pairwise h]

/-- Of two vertices the second one is first if it is better. -/
theorem ranked_pair_of_not_noWorse {v w : Vertex} (h : v.noWorse w = false) :
    ranked v [w] = ⟨w, [v]⟩ := by
  apply eq_of_vertices_eq
  rw [vertices_ranked]
  simp [List.mergeSort, List.MergeSort.Internal.splitInTwo, h]

theorem length_others_ranked (v : Vertex) (vs : List Vertex) :
    (ranked v vs).others.length = vs.length := by
  have h := (vertices_ranked_perm v vs).length_eq
  simpa [vertices] using h

/-- **Vertices whose values are numbers are ranked in order.** -/
theorem ordered_ranked {v : Vertex} {vs : List Vertex}
    (h : ∀ w ∈ v :: vs, w.value.isNaN = false) : (ranked v vs).Ordered where
  isNaN w hw := h w (mem_ranked.mp hw)
  pairwise := by
    rw [vertices_ranked]
    exact pairwise_mergeSort_noWorse h

variable {s : Simplex}

theorem best_mem (s : Simplex) : s.best ∈ s.vertices := List.mem_cons_self

/-- **The vertex given first is beaten by better ones only**: what comes before it when the vertices
are ranked is strictly better. -/
theorem best_ranked {v : Vertex} {vs : List Vertex} (h : ∀ w ∈ v :: vs, w.value.isNaN = false) :
    (ranked v vs).best = v ∨ (ranked v vs).best.value < v.value := by
  obtain ⟨front, back, hsplit, -, hfront⟩ := List.mergeSort_cons standing_trans standing_total v vs
  have hsorted : (ranked v vs).vertices = front ++ v :: back := by
    rw [vertices_ranked, mergeSort_noWorse_eq h]
    exact hsplit
  cases front with
  | nil => exact .inl (List.cons.inj hsorted).1
  | cons w front =>
    obtain rfl : (ranked v vs).best = w := (List.cons.inj hsorted).1
    have hlt := hfront _ List.mem_cons_self
    rw [Bool.not_eq_true', decide_eq_false_iff_not, not_le] at hlt
    have hnum : (ranked v vs).best.value.isNaN = false := h _ (mem_ranked.mp (best_mem _))
    exact .inr ((lt_iff_standing hnum (h v List.mem_cons_self)).mpr hlt)

theorem worst_eq_getLast (s : Simplex) :
    s.worst = s.vertices.getLast (List.cons_ne_nil _ _) := by
  rcases s with ⟨best, others⟩
  cases others with
  | nil => rfl
  | cons v vs => simp [worst, vertices, List.getLast?_eq_some_getLast]

theorem worst_mem (s : Simplex) : s.worst ∈ s.vertices := by
  rw [worst_eq_getLast]
  exact List.getLast_mem _

/-- The best value is below all others. -/
theorem Ordered.best_le (hs : s.Ordered) {v : Vertex} (hv : v ∈ s.vertices) :
    s.best.value ≤ v.value := by
  rcases List.mem_cons.mp hv with rfl | hv
  · exact float_le_refl (hs.isNaN _ s.best_mem)
  · exact List.rel_of_pairwise_cons hs.pairwise hv

/-- The worst value is above all others. -/
theorem Ordered.le_worst (hs : s.Ordered) {v : Vertex} (hv : v ∈ s.vertices) :
    v.value ≤ s.worst.value := by
  have hsplit : s.vertices.dropLast ++ [s.worst] = s.vertices := by
    rw [worst_eq_getLast]
    exact List.dropLast_concat_getLast _
  rw [← hsplit, List.mem_append, List.mem_singleton] at hv
  rcases hv with hv | rfl
  · have hp := hs.pairwise
    rw [← hsplit, List.pairwise_append] at hp
    exact hp.2.2 v hv s.worst (List.mem_singleton.mpr rfl)
  · exact float_le_refl (hs.isNaN _ s.worst_mem)

end Simplex

end Downhill
