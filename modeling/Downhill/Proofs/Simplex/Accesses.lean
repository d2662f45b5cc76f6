import Downhill.Proofs.Simplex.Answered
import Downhill.Proofs.Simplex.Slots
import Mathlib.Data.List.Forall2

/-!
# Parts of an iteration in place

A search in place is made of accesses, each of which is checked. Where the slots hold a simplex and
the drafts have its dimension, the checks are passed.

What is proved: what each access, and each part of an iteration that asks for nothing, then yields
and writes: a draft of the centroid (`drawCentroid_apply`), a vertex that is replaced
(`replace_apply`), the slots ranked (`rank_apply`), the best point given to the caller
(`finish_apply`) and the note of a move (`noteMove_apply`).
-/

namespace Downhill

namespace InPlace

open Simplex

/-! ### Single accesses -/

section Accesses

variable {α β : Type} {t : Store}

theorem bind_get (g : Store → Action β) : (get >>= g) t = g t t := rfl

theorem bind_draft (d : Draft) (g : Point → Action β) : (draft d >>= g) t = g (t.drafts.get d) t :=
  rfl

theorem bind_modify (u : Store → Store) (g : Unit → Action β) : (modify u >>= g) t = g () (u t) :=
  rfl

theorem bind_note (n : Note) (g : Unit → Action β) :
    (note n >>= g) t = g () { t with notes := t.notes.push n } := rfl

theorem bind_fetch {entries : Slots → Array α} {i : Nat} {a : α}
    (h : (entries t.slots)[i]? = some a) (g : α → Action β) : (fetch entries i >>= g) t = g a t := by
  have hf : fetch entries i t = .ok a t := by rw [fetch, h]
  exact bind_of_ok hf

theorem bind_agree {p q : Point} (h : p.length = q.length) (g : Unit → Action β) :
    (agree p q >>= g) t = g () t := by
  have ha : agree p q t = .ok () t := by rw [agree, if_pos h]
  exact bind_of_ok ha

theorem draw_apply {d : Draft} {p : Point} (h : (t.drafts.get d).length = p.length) :
    draw d p t = .ok () { t with drafts := t.drafts.set d p } := by
  rw [draw, bind_draft, bind_agree h]
  rfl

theorem drawLine_apply {d : Draft} {a b : Point} (τ : Float)
    (ha : (t.drafts.get d).length = a.length) (hb : (t.drafts.get d).length = b.length) :
    drawLine d τ a b t = .ok () { t with drafts := t.drafts.set d (along τ a b) } := by
  have hline : (t.drafts.get d).length = (along τ a b).length :=
    (length_along_of_eq τ ha.symm hb.symm).symm
  rw [drawLine, bind_agree (ha.symm.trans hb), line_eq_along, draw_apply hline]

theorem putPoint_apply {slot : Nat} {p q : Point} (hq : t.slots.points[slot]? = some q)
    (h : q.length = p.length) :
    putPoint slot p t =
      .ok () { t with
        slots := ⟨t.slots.points.setIfInBounds slot p, t.slots.values, t.slots.order⟩ } := by
  rw [putPoint, bind_fetch hq, bind_agree h]
  rfl

theorem putValue_apply {slot : Nat} {y z : Float} (hz : t.slots.values[slot]? = some z) :
    putValue slot y t =
      .ok () { t with
        slots := ⟨t.slots.points, t.slots.values.setIfInBounds slot y, t.slots.order⟩ } := by
  rw [putValue, bind_fetch hz]
  rfl

end Accesses

/-! ### Parts that ask for nothing -/

section Silent

variable {t : Store} {dim : Nat} {v : Vertex} {vs before after : List Vertex}

theorem Drafts.length_get_set (ds : Drafts) (d : Draft) {p : Point} (hp : p.length = dim) :
    ((ds.set d p).get d).length = dim := by
  rw [get_set_self]
  exact hp

/-- The points of the ranks listed are added up. -/
theorem gather_apply {slots : Slots} (hslots : t.slots = slots) {ranks : List Nat} {ps : List Point}
    (h : List.Forall₂ (fun r p => ∃ slot, slots.order[r]? = some slot ∧
      slots.points[slot]? = some p ∧ p.length = dim) ranks ps)
    (hsum : (t.drafts.get .centroid).length = dim) :
    gather ranks t = .ok () { t with
      drafts := t.drafts.set .centroid
        (ps.foldl (List.zipWith (· + ·)) (t.drafts.get .centroid)) } := by
  induction h generalizing t with
  | nil =>
    rw [List.foldl_nil, Drafts.set_get]
    rfl
  | @cons r p ranks ps hr hrest ih =>
    obtain ⟨slot, hslot, hp, hlen⟩ := hr
    rw [← hslots] at hslot hp
    have hsum' : (List.zipWith (· + ·) (t.drafts.get .centroid) p).length = dim := by
      rw [List.length_zipWith, hsum, hlen, Nat.min_self]
    rw [gather, bind_fetch hslot, bind_fetch hp, bind_draft, bind_agree (hsum.trans hlen.symm),
      bind_of_ok (draw_apply (hsum.trans hsum'.symm))]
    have hnext := ih (t := { t with
      drafts := t.drafts.set .centroid (List.zipWith (· + ·) (t.drafts.get .centroid) p) })
      hslots (Drafts.length_get_set t.drafts .centroid hsum')
    rw [hnext, Drafts.get_set_self, Drafts.set_set, List.foldl_cons]

/-- The centroid of the first vertices is drawn. -/
theorem drawCentroid_apply (h : t.slots.Holds dim vs)
    (hdrafts : (t.drafts.get .centroid).length = dim) {n : Nat} (hn : n ≤ vs.length) :
    drawCentroid n t = .ok () { t with
      drafts := t.drafts.set .centroid (centroid dim ((vs.take n).map Vertex.point)) } := by
  have hranks : List.Forall₂ (fun r p => ∃ slot, t.slots.order[r]? = some slot ∧
      t.slots.points[slot]? = some p ∧ p.length = dim)
      (List.range n) ((vs.take n).map Vertex.point) := by
    rw [List.forall₂_iff_get]
    refine ⟨by simp [hn], fun r hr hr' => ?_⟩
    rw [List.length_range] at hr
    have hv : vs[r]? = some vs[r] := List.getElem?_eq_getElem (hr.trans_le hn)
    obtain ⟨slot, hslot, hp, -⟩ := h.exists_slot hv
    refine ⟨slot, ?_, ?_, ?_⟩
    · simpa using hslot
    · simpa using hp
    · simpa using h.length_point _ (List.getElem_mem (hr.trans_le hn))
  have hblank : (t.drafts.get .centroid).length =
      (List.replicate (t.drafts.get .centroid).length (0 : Float)).length := by simp
  have hzero : (List.replicate (t.drafts.get .centroid).length (0 : Float)).length = dim := by
    rw [List.length_replicate, hdrafts]
  have hlength : ((vs.take n).map Vertex.point).length = n := by simp [hn]
  rw [drawCentroid, bind_draft, bind_of_ok (draw_apply hblank)]
  have hgather := gather_apply (t := { t with
    drafts := t.drafts.set .centroid (List.replicate (t.drafts.get .centroid).length 0) })
    rfl hranks (Drafts.length_get_set t.drafts .centroid hzero)
  have hcentroid : centroid dim ((vs.take n).map Vertex.point) =
      (((vs.take n).map Vertex.point).foldl (List.zipWith (· + ·))
        (List.replicate (t.drafts.get .centroid).length 0)).map (· / Float.ofNat n) := by
    rw [centroid, pointSum, hlength, hdrafts]
  rw [bind_of_ok hgather, bind_draft]
  simp only [Drafts.get_set_self, Drafts.set_set]
  rw [← hcentroid, draw_apply ?_, Drafts.set_set]
  rw [Drafts.get_set_self, hcentroid, List.length_map]

/-- The point in a draft and the value there take the place of a vertex. -/
theorem replace_apply (h : t.slots.Holds dim (before ++ v :: after)) {slot : Nat}
    (hslot : t.slots.order[before.length]? = some slot) {d : Draft}
    (hd : (t.drafts.get d).length = dim) {y : Float} (hy : y.isNaN = false) :
    ∃ slots, replace slot d y t = .ok () { t with slots } ∧
      slots.Holds dim (before ++ ⟨t.drafts.get d, y⟩ :: after) := by
  have hv : (before ++ v :: after)[before.length]? = some v := by simp
  obtain ⟨hpoint, hvalue⟩ := h.read_slot hv hslot
  have hlen : v.point.length = (t.drafts.get d).length :=
    (h.length_point v (by simp)).trans hd.symm
  refine ⟨_, ?_, (h.setPoint hslot hd).setValue hslot hy⟩
  rw [replace, bind_draft, bind_of_ok (putPoint_apply hpoint hlen)]
  exact putValue_apply hvalue

/-- Slots that are there are sorted. -/
theorem rank_of_forall_lt (h : ∀ i ∈ t.slots.order.toList, i < t.slots.values.size) :
    rank t = .ok () { t with
      slots.order := (t.slots.order.toList.mergeSort t.slots.notAfter).toArray } := by
  have hfind : t.slots.order.toList.find? (t.slots.values.size ≤ ·) = none := by
    rw [List.find?_eq_none]
    intro i hi
    rw [decide_eq_true_iff, not_le]
    exact h i hi
  rw [rank, hfind]

/-- The slots are ranked. -/
theorem rank_apply (h : t.slots.Holds dim vs) :
    ∃ slots, rank t = .ok () { t with slots } ∧ slots.Holds dim (vs.mergeSort Vertex.noWorse) := by
  refine ⟨_, rank_of_forall_lt fun i hi => ?_, h.ranked⟩
  rw [h.size_values]
  exact h.slot_lt hi

/-- Slots that stand in order are left as they are. -/
theorem rank_of_pairwise (hin : ∀ i ∈ t.slots.order.toList, i < t.slots.values.size)
    (h : t.slots.order.toList.Pairwise fun i j => t.slots.notAfter i j = true) :
    rank t = .ok () t := by
  rw [rank_of_forall_lt hin, List.mergeSort_of_pairwise h, Array.toArray_toList]

/-- The best point goes to the caller, and its value is the result. -/
theorem finish_apply {σ : Simplex} (h : t.slots.Holds dim σ.vertices) (hx : t.point.length = dim) :
    finish t = .ok σ.best.value { t with point := σ.best.point } := by
  obtain ⟨slot, hslot, hpoint, hvalue⟩ := h.exists_slot (r := 0) (v := σ.best) rfl
  have hlen : t.point.length = σ.best.point.length :=
    hx.trans (h.length_point σ.best σ.best_mem).symm
  rw [finish, bind_fetch hslot, bind_fetch hpoint, bind_get, bind_agree hlen, bind_modify, fetch,
    hvalue]

/-- The best point goes to no caller whose point has another dimension. -/
theorem finish_of_length_ne {σ : Simplex} (h : t.slots.Holds dim σ.vertices)
    (hx : t.point.length ≠ dim) :
    finish t = .error (.breach (.dimensions t.point.length dim)) t := by
  obtain ⟨slot, hslot, hpoint, -⟩ := h.exists_slot (r := 0) (v := σ.best) rfl
  have hbest : σ.best.point.length = dim := h.length_point σ.best σ.best_mem
  have hagree : agree t.point σ.best.point t =
      .error (.breach (.dimensions t.point.length dim)) t := by
    rw [agree, if_neg (hbest ▸ hx), hbest]
  rw [finish, bind_fetch hslot, bind_fetch hpoint, bind_get, bind_of_error hagree]

/-- The values noted are those of the best and the worst vertex. -/
theorem noteMove_apply {σ : Simplex} (h : t.slots.Holds dim σ.vertices) (move : Move) :
    noteMove move dim t = .ok () { t with
      notes := t.notes.push (.performed move σ.best.value σ.worst.value) } := by
  have hlast : σ.vertices[dim]? = some σ.worst := by
    have hdim : dim = σ.vertices.length - 1 := by rw [h.length_eq, Nat.add_sub_cancel]
    rw [hdim, worst_eq_getLast, ← List.getLast?_eq_getElem?]
    exact List.getLast?_eq_some_getLast _
  obtain ⟨best, hbest, -, hbestValue⟩ := h.exists_slot (r := 0) (v := σ.best) rfl
  obtain ⟨worst, hworst, -, hworstValue⟩ := h.exists_slot hlast
  rw [noteMove, bind_fetch hbest, bind_fetch hbestValue, bind_fetch hworst, bind_fetch hworstValue]
  rfl

end Silent

end InPlace

end Downhill
