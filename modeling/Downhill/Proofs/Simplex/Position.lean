import Mathlib.Algebra.Module.Rat
import Mathlib.LinearAlgebra.AffineSpace.Independent

/-!
# Points in general position

The vertices of a simplex that is none of a lower dimension lie in general position: no one of them
lies in the space that the others span. The moves of the search, carried out on numbers that are not
rounded, keep that: a vertex that is taken through a point of the space that the others span, and not
into that point, stays outside, and a simplex that is drawn towards a point keeps its shape.

What is proved: points in general position are distinct (`InGeneralPosition.nodup`), and they stay in
general position if one of them is moved on a line through the space of the others
(`InGeneralPosition.move`) or all of them are drawn towards a point (`InGeneralPosition.draw`). A point
and its neighbours along the axes are in general position (`inGeneralPosition_corner`).
-/

namespace Downhill

/-- A place in space, by its coordinates. Those beyond the dimension are zero. -/
abbrev Place := ℕ → ℚ

/-- The points are distinct, and no one of them lies in the space that the others span. -/
def InGeneralPosition (ps : List Place) : Prop :=
  ps.Nodup ∧ AffineIndependent ℚ fun p : {p // p ∈ ps} => (p : Place)

/-- The space that the points span. -/
abbrev spanned (ps : List Place) : AffineSubspace ℚ Place := affineSpan ℚ {p | p ∈ ps}

/-- The place at `t` on the way from `a`, at zero, to `b`, at one. -/
abbrev onLine (t : ℚ) (a b : Place) : Place := AffineMap.lineMap a b t

/-- The mean of places. -/
def mean (ps : List Place) : Place := (ps.length : ℚ)⁻¹ • ps.sum

variable {p q m w : Place} {ps qs : List Place} {t : ℚ}

namespace InGeneralPosition

theorem nodup (h : InGeneralPosition ps) : ps.Nodup := h.1

/-- The order does not matter. -/
theorem perm (h : InGeneralPosition ps) (hqs : ps.Perm qs) : InGeneralPosition qs := by
  obtain ⟨hnodup, hindependent⟩ := h
  refine ⟨hqs.nodup hnodup, hindependent.mono ?_⟩
  intro p hp
  exact hqs.mem_iff.mpr hp

end InGeneralPosition

/-- A point is added that does not lie in the space of the others. -/
theorem inGeneralPosition_cons :
    InGeneralPosition (p :: ps) ↔ p ∉ spanned ps ∧ InGeneralPosition ps := by
  constructor
  · rintro ⟨hnodup, hindependent⟩
    obtain ⟨hp, hps⟩ := List.nodup_cons.mp hnodup
    refine ⟨fun hspanned => ?_, hps, hindependent.mono fun q hq => List.mem_cons_of_mem p hq⟩
    -- the others are those that are not `p`
    refine hindependent.notMem_affineSpan_sdiff ⟨p, List.mem_cons_self⟩ Set.univ ?_
    refine affineSpan_mono ℚ ?_ hspanned
    intro q hq
    refine ⟨⟨q, List.mem_cons_of_mem p hq⟩, ⟨trivial, ?_⟩, rfl⟩
    intro heq
    exact hp (Subtype.mk.inj heq ▸ hq)
  · rintro ⟨hp, hps, hindependent⟩
    refine ⟨List.nodup_cons.mpr ⟨fun hmem => hp (subset_affineSpan ℚ _ hmem), hps⟩, ?_⟩
    have hother (q : {q : {q // q ∈ p :: ps} // q ≠ ⟨p, List.mem_cons_self⟩}) : (q : Place) ∈ ps := by
      obtain ⟨⟨q, hq⟩, hne⟩ := q
      exact (List.mem_cons.mp hq).resolve_left fun heq => hne (Subtype.ext heq)
    refine AffineIndependent.affineIndependent_of_notMem_span (i := ⟨p, List.mem_cons_self⟩) ?_ ?_
    · exact hindependent.comp_embedding ⟨fun q => ⟨q, hother q⟩, fun q r hqr =>
        Subtype.ext (Subtype.ext (Subtype.mk.inj hqr))⟩
    · refine fun hspanned => hp (affineSpan_mono ℚ ?_ hspanned)
      rintro q ⟨r, hr, rfl⟩
      exact hother ⟨r, hr⟩

theorem inGeneralPosition_nil : InGeneralPosition [] := by
  have hempty : IsEmpty {p : Place // p ∈ []} := ⟨fun p => by cases p.2⟩
  exact ⟨List.nodup_nil, affineIndependent_of_subsingleton ℚ _⟩

/-- Nothing lies in the space of no points. -/
theorem notMem_spanned_nil (p : Place) : p ∉ spanned [] := by
  have hempty : {p : Place | p ∈ []} = ∅ := by simp
  rw [spanned, hempty, AffineSubspace.span_empty]
  exact AffineSubspace.notMem_bot ℚ Place p

/-- A single point is in general position. -/
theorem inGeneralPosition_singleton (p : Place) : InGeneralPosition [p] :=
  inGeneralPosition_cons.mpr ⟨notMem_spanned_nil p, inGeneralPosition_nil⟩

/-- **A point is moved on a line** through the space of the others, and not into that space. -/
theorem InGeneralPosition.move (h : InGeneralPosition (w :: ps)) (hm : m ∈ spanned ps) (ht : t ≠ 0) :
    InGeneralPosition (onLine t m w :: ps) := by
  rw [inGeneralPosition_cons] at h ⊢
  refine ⟨fun hline => h.1 ?_, h.2⟩
  -- `w` lies on the line as well
  have hw : AffineMap.lineMap m (onLine t m w) t⁻¹ = w := by
    simp [onLine, AffineMap.lineMap_apply, ht]
  rw [← hw]
  exact AffineMap.lineMap_mem _ hm hline

/-- **All points are drawn towards a point.** -/
theorem InGeneralPosition.draw (h : InGeneralPosition ps) (b : Place) (ht : t ≠ 0) :
    InGeneralPosition (ps.map (onLine t b)) := by
  have hfun : onLine t b = AffineMap.homothety b t :=
    funext fun p => (AffineMap.homothety_eq_lineMap b t p).symm
  have hinjective : Function.Injective (AffineMap.homothety b t) := by
    intro p q hpq
    simpa [AffineMap.homothety_apply, ht] using hpq
  rw [hfun]
  induction ps with
  | nil => exact inGeneralPosition_nil
  | cons p ps ih =>
    rw [inGeneralPosition_cons] at h
    rw [List.map_cons, inGeneralPosition_cons]
    refine ⟨fun hspanned => h.1 ?_, ih h.2⟩
    -- the space of the drawn points is the space of the points, drawn
    have himage : {q | q ∈ ps.map (AffineMap.homothety b t)} =
        AffineMap.homothety b t '' {q | q ∈ ps} := by
      ext q
      simp
    rw [spanned, himage, ← AffineSubspace.map_span, AffineSubspace.mem_map] at hspanned
    obtain ⟨q, hq, heq⟩ := hspanned
    rwa [← hinjective heq]

theorem sum_map_sub_const (ps : List Place) (b : Place) :
    (ps.map (· - b)).sum = ps.sum - (ps.length : ℚ) • b := by
  induction ps with
  | nil => simp
  | cons p ps ih =>
    rw [List.map_cons, List.sum_cons, ih, List.sum_cons, List.length_cons, Nat.cast_succ, add_smul,
      one_smul]
    abel

/-- The mean lies in the space of the points. -/
theorem mean_mem_spanned (h : ps ≠ []) : mean ps ∈ spanned ps := by
  obtain ⟨b, qs, rfl⟩ := List.exists_cons_of_ne_nil h
  have hb : b ∈ spanned (b :: qs) := subset_affineSpan ℚ _ List.mem_cons_self
  -- the mean is `b` and the mean of the ways from `b`
  have hways : (((b :: qs).length : ℚ)⁻¹ • ((b :: qs).map (· - b)).sum) ∈
      (spanned (b :: qs)).direction := by
    refine Submodule.smul_mem _ _ (list_sum_mem fun v hv => ?_)
    obtain ⟨q, hq, rfl⟩ := List.mem_map.mp hv
    exact AffineSubspace.vsub_mem_direction (subset_affineSpan ℚ _ hq) hb
  have hmean : mean (b :: qs) = (((b :: qs).length : ℚ)⁻¹ • ((b :: qs).map (· - b)).sum) +ᵥ b := by
    have hlength : ((b :: qs).length : ℚ) ≠ 0 := by simp [Nat.cast_add_one_ne_zero]
    rw [mean, sum_map_sub_const, smul_sub, smul_smul, inv_mul_cancel₀ hlength, one_smul, vadd_eq_add,
      sub_add_cancel]
  rw [hmean]
  exact AffineSubspace.vadd_mem_of_mem_direction hways hb

/-- Points that agree in a coordinate span a space in which all do. -/
theorem eq_of_mem_spanned {j : ℕ} {r : ℚ} (h : ∀ p ∈ ps, p j = r) (hq : q ∈ spanned ps) :
    q j = r := by
  refine affineSpan_induction (p := fun q : Place => q j = r) hq (fun p hp => h p hp) ?_
  intro c u v w hu hv hw
  simp [hu, hv, hw]

/-- **A point and its neighbours along the axes are in general position.** -/
theorem inGeneralPosition_corner {x c : Place} {js : List ℕ} (hjs : js.Nodup)
    (hc : ∀ j ∈ js, c j ≠ x j) :
    InGeneralPosition (js.map (fun j => Function.update x j (c j)) ++ [x]) := by
  induction js with
  | nil => exact inGeneralPosition_singleton x
  | cons j js ih =>
    obtain ⟨hj, hjs⟩ := List.nodup_cons.mp hjs
    rw [List.map_cons, List.cons_append, inGeneralPosition_cons]
    refine ⟨fun hspanned => hc j List.mem_cons_self ?_, ih hjs fun i hi => hc i (by simp [hi])⟩
    -- none of the others is moved along this axis
    have hsame : ∀ p ∈ js.map (fun j => Function.update x j (c j)) ++ [x], p j = x j := by
      intro p hp
      rcases List.mem_append.mp hp with hp | hp
      · obtain ⟨i, hi, rfl⟩ := List.mem_map.mp hp
        have hne : j ≠ i := by
          rintro rfl
          exact hj hi
        simp [hne]
      · rw [List.mem_singleton.mp hp]
    simpa using eq_of_mem_spanned hsame hspanned

end Downhill
