import Downhill.Proofs.Simplex.Ranking
import Downhill.Simplex.InPlace
import Mathlib.Data.List.Nodup

/-!
# Slots that hold a simplex

A search in place moves no vertex. What its slots stand for is the list of vertices that one reads
by following the order (`Slots.Holds`). This is a list of all slots, each of them once: so writing
over one slot replaces one vertex of the list and no other, and sorting slots sorts vertices.

What is proved: the list can be read (`Holds.vertices?_eq`), rank by rank (`Holds.exists_slot`); a
point or a value that is written takes the place of the one at its rank (`Holds.setPoint`,
`Holds.setValue`); and ranking the slots ranks the list (`Holds.ranked`).
-/

namespace Downhill

namespace InPlace

namespace Slots

variable {s s' : Slots} {dim i : Nat} {v w : Vertex} {vs before after : List Vertex}

theorem vertex?_eq_some_iff :
    s.vertex? i = some v ↔ s.points[i]? = some v.point ∧ s.values[i]? = some v.value := by
  rw [vertex?]
  obtain ⟨p, y⟩ := v
  cases s.points[i]? with
  | none => simp
  | some q =>
    cases s.values[i]? with
    | none => simp
    | some z => simp

/-- A vertex is read where its point and its value are. -/
theorem vertex?_of_getElem? {p : Point} {y : Float} (hp : s.points[i]? = some p)
    (hy : s.values[i]? = some y) : s.vertex? i = some ⟨p, y⟩ :=
  vertex?_eq_some_iff.mpr ⟨hp, hy⟩

/-- Slots are read one after the other. -/
theorem mapM_vertex? {slots : List Nat} (h : slots.map s.vertex? = vs.map some) :
    slots.mapM s.vertex? = some vs := by
  induction slots generalizing vs with
  | nil =>
    cases vs with
    | nil => rfl
    | cons v vs => simp at h
  | cons slot slots ih =>
    cases vs with
    | nil => simp at h
    | cons v vs =>
      rw [List.map_cons, List.map_cons, List.cons.injEq] at h
      obtain ⟨hslot, hrest⟩ := h
      rw [List.mapM_cons, hslot, ih hrest]
      rfl

/-- By rank, the slots hold the vertices listed. Each slot has one rank. -/
structure Holds (s : Slots) (dim : Nat) (vs : List Vertex) : Prop where
  /-- There is one slot more than there are dimensions, and the order lists each of them once. -/
  order_perm : s.order.toList.Perm (List.range (dim + 1))
  /-- Each of them has a point. -/
  size_points : s.points.size = dim + 1
  /-- Each of them has a value. -/
  size_values : s.values.size = dim + 1
  /-- In order, the slots hold the vertices. -/
  listed : s.order.toList.map s.vertex? = vs.map some
  /-- The points have the dimension. -/
  length_point : ∀ v ∈ vs, v.point.length = dim
  /-- The values are numbers. -/
  isNaN : ∀ v ∈ vs, v.value.isNaN = false

namespace Holds

/-- No slot is listed twice. -/
theorem nodup (h : s.Holds dim vs) : s.order.toList.Nodup :=
  h.order_perm.nodup_iff.mpr List.nodup_range

theorem length_eq (h : s.Holds dim vs) : vs.length = dim + 1 := by
  have hl := congrArg List.length h.listed
  rw [List.length_map, List.length_map, h.order_perm.length_eq, List.length_range] at hl
  exact hl.symm

theorem size_order (h : s.Holds dim vs) : s.order.size = dim + 1 := by
  rw [← Array.length_toList, h.order_perm.length_eq, List.length_range]

/-- A slot of the order is within bounds. -/
theorem slot_lt (h : s.Holds dim vs) {slot : Nat} (hs : slot ∈ s.order.toList) :
    slot < dim + 1 :=
  List.mem_range.mp (h.order_perm.mem_iff.mp hs)

/-- **The vertices can be read.** -/
theorem vertices?_eq (h : s.Holds dim vs) : s.vertices? = some vs :=
  mapM_vertex? h.listed

/-- The vertex of a rank is in a slot. -/
theorem exists_slot (h : s.Holds dim vs) {r : Nat} (hr : vs[r]? = some v) :
    ∃ slot, s.order[r]? = some slot ∧ s.points[slot]? = some v.point ∧
      s.values[slot]? = some v.value := by
  have hl := congrArg (·[r]?) h.listed
  simp only [List.getElem?_map, hr, Option.map_some, Array.getElem?_toList] at hl
  obtain ⟨slot, hslot, hv⟩ := Option.map_eq_some_iff.mp hl
  exact ⟨slot, hslot, vertex?_eq_some_iff.mp hv⟩

/-- In a slot of the order is one of the vertices. -/
theorem exists_vertex (h : s.Holds dim vs) (hi : i ∈ s.order.toList) :
    ∃ v ∈ vs, s.vertex? i = some v := by
  have hmem : s.vertex? i ∈ vs.map some := h.listed ▸ List.mem_map_of_mem hi
  obtain ⟨v, hv, heq⟩ := List.mem_map.mp hmem
  exact ⟨v, hv, heq.symm⟩

/-- What is in the slot of a rank. -/
theorem read_slot (h : s.Holds dim vs) {r slot : Nat} (hr : vs[r]? = some v)
    (hslot : s.order[r]? = some slot) :
    s.points[slot]? = some v.point ∧ s.values[slot]? = some v.value := by
  obtain ⟨slot', hslot', hread⟩ := h.exists_slot hr
  obtain rfl : slot' = slot := Option.some.inj (hslot'.symm.trans hslot)
  exact hread

/-! ### Writing -/

/-- Where one slot is written over, one vertex is replaced. -/
theorem overwrite (h : s.Holds dim (before ++ v :: after)) {slot : Nat}
    (hslot : s.order[before.length]? = some slot) (horder : s'.order = s.order)
    (hpoints : s'.points.size = s.points.size) (hvalues : s'.values.size = s.values.size)
    (hother : ∀ i, i ≠ slot → s'.vertex? i = s.vertex? i) (hw : s'.vertex? slot = some w)
    (hlen : w.point.length = dim) (hnum : w.value.isNaN = false) :
    s'.Holds dim (before ++ w :: after) where
  order_perm := horder ▸ h.order_perm
  size_points := hpoints.trans h.size_points
  size_values := hvalues.trans h.size_values
  listed := by
    have hlisted := h.listed
    rw [List.map_append, List.map_cons] at hlisted
    obtain ⟨front, back, hsplit, hfront, hback⟩ := List.map_eq_append_iff.mp hlisted
    obtain ⟨slot', back, rfl, -, hback⟩ := List.map_eq_cons_iff.mp hback
    have hlength : before.length = front.length := by
      have hl := congrArg List.length hfront
      rw [List.length_map, List.length_map] at hl
      exact hl.symm
    rw [← Array.getElem?_toList, hsplit, hlength, List.getElem?_append_right le_rfl,
      Nat.sub_self, List.getElem?_cons_zero, Option.some.injEq] at hslot
    subst hslot
    -- the slot has no other rank
    have hnodup := h.nodup
    rw [hsplit, List.nodup_middle, List.nodup_cons, List.mem_append, not_or] at hnodup
    obtain ⟨⟨hnotFront, hnotBack⟩, -⟩ := hnodup
    have unchanged : ∀ slots : List Nat, slot' ∉ slots →
        slots.map s'.vertex? = slots.map s.vertex? := by
      intro slots hnot
      refine List.map_congr_left fun i hi => hother i ?_
      rintro rfl
      exact hnot hi
    rw [horder, hsplit, List.map_append, List.map_cons, unchanged front hnotFront,
      unchanged back hnotBack, hfront, hback, hw, List.map_append, List.map_cons]
  length_point u hu := by
    rcases List.mem_append.mp hu with hu | hu
    · exact h.length_point u (List.mem_append_left _ hu)
    rcases List.mem_cons.mp hu with rfl | hu
    · exact hlen
    · exact h.length_point u (List.mem_append_right _ (List.mem_cons_of_mem _ hu))
  isNaN u hu := by
    rcases List.mem_append.mp hu with hu | hu
    · exact h.isNaN u (List.mem_append_left _ hu)
    rcases List.mem_cons.mp hu with rfl | hu
    · exact hnum
    · exact h.isNaN u (List.mem_append_right _ (List.mem_cons_of_mem _ hu))

/-- **A point that is written takes the place of the one at its rank.** -/
theorem setPoint (h : s.Holds dim (before ++ v :: after)) {slot : Nat}
    (hslot : s.order[before.length]? = some slot) {p : Point} (hp : p.length = dim) :
    Holds { s with points := s.points.setIfInBounds slot p } dim
      (before ++ ⟨p, v.value⟩ :: after) := by
  have hv : (before ++ v :: after)[before.length]? = some v := by simp
  obtain ⟨hpoint, hvalue⟩ := h.read_slot hv hslot
  have hlt : slot < s.points.size := (Array.getElem?_eq_some_iff.mp hpoint).1
  refine h.overwrite hslot rfl (by simp) rfl (fun i hi => ?_) ?_ hp ?_
  · simp only [vertex?, Array.getElem?_setIfInBounds_ne (Ne.symm hi)]
  · refine vertex?_of_getElem? ?_ hvalue
    rw [Array.getElem?_setIfInBounds_self, if_pos hlt]
  · exact h.isNaN v (by simp)

/-- **A value that is written takes the place of the one at its rank.** -/
theorem setValue (h : s.Holds dim (before ++ v :: after)) {slot : Nat}
    (hslot : s.order[before.length]? = some slot) {y : Float} (hy : y.isNaN = false) :
    Holds { s with values := s.values.setIfInBounds slot y } dim
      (before ++ ⟨v.point, y⟩ :: after) := by
  have hv : (before ++ v :: after)[before.length]? = some v := by simp
  obtain ⟨hpoint, hvalue⟩ := h.read_slot hv hslot
  have hlt : slot < s.values.size := (Array.getElem?_eq_some_iff.mp hvalue).1
  refine h.overwrite hslot rfl rfl (by simp) (fun i hi => ?_) ?_ ?_ hy
  · simp only [vertex?, Array.getElem?_setIfInBounds_ne (Ne.symm hi)]
  · refine vertex?_of_getElem? hpoint ?_
    rw [Array.getElem?_setIfInBounds_self, if_pos hlt]
  · exact h.length_point v (by simp)

/-! ### Ranking -/

/-- On slots that hold numbers, comparing values in slots is comparing vertices. -/
theorem notAfter_eq (h : s.Holds dim vs) {i j : Nat} {v w : Vertex} (hv : v ∈ vs) (hw : w ∈ vs)
    (hi : s.vertex? i = some v) (hj : s.vertex? j = some w) : s.notAfter i j = v.noWorse w := by
  obtain ⟨-, hvi⟩ := vertex?_eq_some_iff.mp hi
  obtain ⟨-, hwj⟩ := vertex?_eq_some_iff.mp hj
  have hlt : w.value < v.value ↔ ¬ v.value ≤ w.value := by
    rw [← float_not_lt_iff (h.isNaN w hw) (h.isNaN v hv), not_not]
  rw [notAfter, hvi, hwj, Option.getD_some, Option.getD_some, Vertex.noWorse]
  by_cases hle : v.value ≤ w.value
  · simp [hle, hlt]
  · simp [hle, hlt]

/-- How the vertices in two slots compare, if both are there. -/
def compareRead (v w : Option Vertex) : Bool :=
  match v, w with
  | some v, some w => v.noWorse w
  | _, _ => false

/-- **Ranking the slots ranks the vertices.** -/
theorem ranked (h : s.Holds dim vs) :
    Holds { s with order := (s.order.toList.mergeSort s.notAfter).toArray } dim
      (vs.mergeSort Vertex.noWorse) where
  order_perm := (List.mergeSort_perm _ _).trans h.order_perm
  size_points := h.size_points
  size_values := h.size_values
  listed := by
    have hslots : ∀ i ∈ s.order.toList, ∀ j ∈ s.order.toList,
        s.notAfter i j = compareRead (s.vertex? i) (s.vertex? j) := by
      intro i hi j hj
      obtain ⟨v, hv, hvi⟩ := h.exists_vertex hi
      obtain ⟨w, hw, hwj⟩ := h.exists_vertex hj
      rw [h.notAfter_eq hv hw hvi hwj, hvi, hwj]
      rfl
    have hsome : ∀ v ∈ vs, ∀ w ∈ vs, v.noWorse w = compareRead (some v) (some w) :=
      fun _ _ _ _ => rfl
    calc (s.order.toList.mergeSort s.notAfter).map s.vertex?
        = (s.order.toList.map s.vertex?).mergeSort compareRead := List.map_mergeSort hslots
      _ = (vs.map some).mergeSort compareRead := by rw [h.listed]
      _ = (vs.mergeSort Vertex.noWorse).map some := (List.map_mergeSort hsome).symm
  length_point v hv := h.length_point v (List.mem_mergeSort.mp hv)
  isNaN v hv := h.isNaN v (List.mem_mergeSort.mp hv)

/-! ### All slots -/

/-- In every slot there is one of the vertices. -/
theorem exists_vertex_of_lt (h : s.Holds dim vs) (hi : i < dim + 1) :
    ∃ v ∈ vs, s.points[i]? = some v.point ∧ s.values[i]? = some v.value := by
  have hmem : i ∈ s.order.toList := h.order_perm.mem_iff.mpr (List.mem_range.mpr hi)
  obtain ⟨v, hv, hvi⟩ := h.exists_vertex hmem
  exact ⟨v, hv, vertex?_eq_some_iff.mp hvi⟩

theorem exists_vertex_of_mem_points (h : s.Holds dim vs) {p : Point} (hp : p ∈ s.points) :
    ∃ v ∈ vs, v.point = p := by
  obtain ⟨i, hi, rfl⟩ := Array.mem_iff_getElem.mp hp
  obtain ⟨v, hv, hpoint, -⟩ := h.exists_vertex_of_lt (h.size_points ▸ hi)
  rw [Array.getElem?_eq_getElem hi] at hpoint
  exact ⟨v, hv, (Option.some.inj hpoint).symm⟩

theorem exists_vertex_of_mem_values (h : s.Holds dim vs) {y : Float} (hy : y ∈ s.values) :
    ∃ v ∈ vs, v.value = y := by
  obtain ⟨i, hi, rfl⟩ := Array.mem_iff_getElem.mp hy
  obtain ⟨v, hv, -, hvalue⟩ := h.exists_vertex_of_lt (h.size_values ▸ hi)
  rw [Array.getElem?_eq_getElem hi] at hvalue
  exact ⟨v, hv, (Option.some.inj hvalue).symm⟩

/-- **The vertices and the order determine the slots.** -/
theorem slots_eq (h : s.Holds dim vs) (h' : s'.Holds dim vs) (horder : s'.order = s.order) :
    s' = s := by
  -- both read the same vertex in each slot
  have hread : ∀ i < dim + 1, s'.vertex? i = s.vertex? i := by
    intro i hi
    have hmem : i ∈ s.order.toList := h.order_perm.mem_iff.mpr (List.mem_range.mpr hi)
    have hlisted := h'.listed
    rw [horder, ← h.listed] at hlisted
    exact List.map_inj_left.mp hlisted i hmem
  have hsame : ∀ i < dim + 1, s'.points[i]? = s.points[i]? ∧ s'.values[i]? = s.values[i]? := by
    intro i hi
    obtain ⟨v, -, hpoint, hvalue⟩ := h.exists_vertex_of_lt hi
    have hv := vertex?_eq_some_iff.mp ((hread i hi).trans (vertex?_of_getElem? hpoint hvalue))
    exact ⟨hv.1.trans hpoint.symm, hv.2.trans hvalue.symm⟩
  have hpoints : s'.points = s.points := by
    refine Array.ext (h'.size_points.trans h.size_points.symm) fun i hi hi' => ?_
    have heq := (hsame i (h.size_points ▸ hi')).1
    rwa [Array.getElem?_eq_getElem hi, Array.getElem?_eq_getElem hi', Option.some.injEq] at heq
  have hvalues : s'.values = s.values := by
    refine Array.ext (h'.size_values.trans h.size_values.symm) fun i hi hi' => ?_
    have heq := (hsame i (h.size_values ▸ hi')).2
    rwa [Array.getElem?_eq_getElem hi, Array.getElem?_eq_getElem hi', Option.some.injEq] at heq
  obtain ⟨points, values, order⟩ := s'
  obtain ⟨points', values', order'⟩ := s
  simp only at hpoints hvalues horder
  rw [hpoints, hvalues, horder]

/-! ### The first and the last -/

/-- The spread is the last value less the first. -/
theorem spread?_eq (h : s.Holds dim (v :: vs)) :
    s.spread? = some (((v :: vs).getLast (List.cons_ne_nil _ _)).value - v.value) := by
  obtain ⟨best, hbest, -, hbestValue⟩ := h.exists_slot (r := 0) (v := v) rfl
  obtain ⟨worst, hworst, -, hworstValue⟩ := h.exists_slot (r := vs.length)
    (v := (v :: vs).getLast (List.cons_ne_nil _ _)) (by
      rw [List.getLast_eq_getElem, List.getElem?_eq_getElem (by simp)]
      rfl)
  have hlength : s.order.toList.length - 1 = vs.length := by
    rw [Array.length_toList, h.size_order, ← h.length_eq, List.length_cons, Nat.add_sub_cancel]
  have hhead : s.order.toList.head? = some best := by
    rw [List.head?_eq_getElem?, Array.getElem?_toList, hbest]
  have hlast : s.order.toList.getLast? = some worst := by
    rw [List.getLast?_eq_getElem?, hlength, Array.getElem?_toList, hworst]
  simp only [spread?, hhead, hlast, hbestValue, hworstValue]

end Holds

end Slots

end InPlace

end Downhill
