import Downhill.Proofs.Simplex.Run
import Downhill.Proofs.Simplex.Unrounded

/-!
# Distinct vertices

A simplex has as many distinct vertices as it has vertices, and this module asks what becomes of that
where coordinates are doubles. They may round: a simplex that is shrunk often enough falls into one
point (`not_forall_vertices_nodup`). What does not happen is that vertices coincide for any other
reason.

A simplex is proper if its coordinates are finite and its points in general position, no one in the
space that the others span. What is proved: the first simplex is proper if every coordinate is moved
away from where it is (`proper_first`), and a step of which no operation rounds or overflows keeps a
proper simplex so (`Proper.step`). So where two vertices coincide, a coordinate has not been moved for
the first simplex, or a step has made a proper simplex one that is not, and an operation of that step
has rounded or overflowed (`vertices_distinct_unless_rounded`).
-/

namespace Downhill

/-- The points coincide: their coordinates are equal by value. -/
def Coincide (p q : Point) : Prop := List.Forall₂ (fun a b : Float => (a == b) = true) p q

/-- Points with finite coordinates that coincide are at one place. -/
theorem Coincide.placeOf_eq {p q : Point} (h : Coincide p q) (hp : ∀ c ∈ p, c.isFinite = true)
    (hq : ∀ c ∈ q, c.isFinite = true) : placeOf p = placeOf q := by
  induction h with
  | nil => rfl
  | @cons a b p q hab hpq ih =>
    have hrest := ih (fun c hc => hp c (List.mem_cons_of_mem a hc))
      fun c hc => hq c (List.mem_cons_of_mem b hc)
    have hfirst : ratValue a = ratValue b :=
      (ratValue_eq_iff (hp a List.mem_cons_self) (hq b List.mem_cons_self)).mpr hab
    funext i
    cases i with
    | zero => exact hfirst
    | succ i => exact congrFun hrest i

/-- A coordinate that is moved is moved at its axis. -/
theorem placeOf_modify {x : Point} {j : ℕ} (hj : j < x.length) (g : Float → Float) :
    placeOf (x.modify j g) = Function.update (placeOf x) j (ratValue (g (x.getD j 0))) := by
  funext i
  by_cases hij : i = j
  · subst hij
    simp [placeOf, hj]
  · simp [placeOf, hij, Ne.symm hij]

/-- No coefficient takes a point into the one it is moved through or towards. -/
structure Options.KeepsApart (o : Options) : Prop where
  /-- Not by a reflection. -/
  reflection : ratValue o.reflection ≠ 0
  /-- Not by an expansion. -/
  expansion : ratValue o.expansion ≠ 0
  /-- Not by a contraction. -/
  contraction : ratValue o.contraction ≠ 0
  /-- Not by a shrinkage. -/
  shrinkage : ratValue o.shrinkage ≠ 0

/-- The coefficients of the textbook are such. -/
theorem Options.keepsApart_withStandard (o : Options) : o.withStandard.KeepsApart where
  reflection := (ratValue_pos (a := 1) (by decide +kernel)).ne'
  expansion := (ratValue_pos (a := 2) (by decide +kernel)).ne'
  contraction := (ratValue_pos (a := 0.5) (by decide +kernel)).ne'
  shrinkage := (ratValue_pos (a := 0.5) (by decide +kernel)).ne'

/-- The coordinate is moved for the first simplex: to another one that is finite. -/
def Options.MovesOff (o : Options) (c : Float) : Prop :=
  (o.nudge c).isFinite = true ∧ (o.nudge c == c) = false

namespace Simplex

variable {value : Point → Float} {o : Options} {x : Point} {s t : Simplex}

/-- The simplex is one in space: its coordinates are finite, and its points in general position. -/
structure Proper (s : Simplex) : Prop where
  /-- The coordinates are finite. -/
  isFinite : ∀ v ∈ s.vertices, ∀ c ∈ v.point, c.isFinite = true
  /-- No point lies in the space that the others span. -/
  inGeneralPosition : InGeneralPosition s.places

/-- The vertices of a proper simplex are distinct. -/
theorem Proper.pairwise (h : s.Proper) :
    (s.vertices.map Vertex.point).Pairwise fun p q => ¬ Coincide p q := by
  have hne : s.vertices.Pairwise fun v w => placeOf v.point ≠ placeOf w.point :=
    List.pairwise_map.mp h.inGeneralPosition.nodup
  rw [List.pairwise_map]
  refine hne.imp_of_mem fun {v w} hv hw hvw hcoincide => hvw ?_
  exact hcoincide.placeOf_eq (h.isFinite v hv) (h.isFinite w hw)

/-! ### Moves without rounding -/

theorem inGeneralPosition_through {ps : List Place} (h : InGeneralPosition ps) {t : ℚ} (ht : t ≠ 0) :
    InGeneralPosition (through t ps) := by
  rcases List.eq_nil_or_concat' ps with rfl | ⟨front, w, rfl⟩
  · exact inGeneralPosition_singleton _
  · rw [through_concat]
    cases front with
    | nil => exact inGeneralPosition_singleton _
    | cons b front =>
      have hlast := h.perm (List.perm_append_singleton w (b :: front))
      exact (hlast.move (mean_mem_spanned (List.cons_ne_nil b front)) ht).perm
        (List.perm_append_singleton _ _).symm

/-- **Without rounding, a move keeps points in general position.** -/
theorem inGeneralPosition_exactly (ho : o.KeepsApart) {ps : List Place} (h : InGeneralPosition ps)
    (move : Move) : InGeneralPosition (exactly o ps move) := by
  cases move with
  | reflection => exact inGeneralPosition_through h (neg_ne_zero.mpr ho.reflection)
  | expansion =>
    exact inGeneralPosition_through h (mul_ne_zero (neg_ne_zero.mpr ho.reflection) ho.expansion)
  | contraction => exact inGeneralPosition_through h ho.contraction
  | shrinkage => exact h.draw _ ho.shrinkage

/-- **A move that does not round keeps a simplex proper.** -/
theorem Proper.of_movesExactly (h : s.Proper) (ho : o.KeepsApart) (ht : MovesExactly o s t) :
    t.Proper := by
  obtain ⟨hfin, move, hperm⟩ := ht
  exact ⟨hfin, (inGeneralPosition_exactly ho h.inGeneralPosition move).perm hperm.symm⟩

/-- **A step of which no operation rounds keeps a simplex proper.** -/
theorem Proper.step {dim : ℕ} (h : s.Proper) (hs : s.Sound value dim) (ho : o.KeepsApart)
    (hops : ∀ op ∈ operations value o s, op.IsExact) : (s.step value o).simplex.Proper := by
  by_cases hnil : s.others = []
  · rwa [step_of_nil hnil]
  · exact h.of_movesExactly ho (movesExactly_step hs h.isFinite hnil hops)

/-! ### The first simplex -/

/-- The place of a point and those of its neighbours. -/
theorem map_placeOf_corner (o : Options) (x : Point) :
    (x :: Search.neighbours o x).map placeOf =
      placeOf x :: (List.range x.length).map fun j =>
        Function.update (placeOf x) j (ratValue (o.nudge (x.getD j 0))) := by
  rw [List.map_cons, Search.neighbours, List.map_map]
  congr 1
  exact List.map_congr_left fun j hj => placeOf_modify (List.mem_range.mp hj) o.nudge

/-- The points of the first simplex are the first one and its neighbours. -/
theorem perm_points_first (value : Point → Float) (o : Options) (x : Point) :
    ((first value o x).vertices.map Vertex.point).Perm (x :: Search.neighbours o x) := by
  have hperm := (vertices_ranked_perm (vertexAt value x)
    ((Search.neighbours o x).map (vertexAt value))).map Vertex.point
  have hpoint : Vertex.point ∘ vertexAt value = id := rfl
  rwa [List.map_cons, List.map_map, hpoint, List.map_id] at hperm

/-- The coordinates of a neighbour are coordinates of the point, or one of them moved. -/
theorem mem_or_exists_nudge {p : Point} (hp : p ∈ Search.neighbours o x) {c : Float} (hc : c ∈ p) :
    c ∈ x ∨ ∃ d ∈ x, c = o.nudge d := by
  obtain ⟨j, -, rfl⟩ := List.mem_map.mp hp
  obtain ⟨i, hi, rfl⟩ := List.mem_iff_getElem.mp hc
  rw [List.length_modify] at hi
  rw [List.getElem_modify]
  split
  · exact .inr ⟨x[i], List.getElem_mem hi, rfl⟩
  · exact .inl (List.getElem_mem hi)

/-- **The first simplex is proper** if every coordinate is moved. -/
theorem proper_first (hx : ∀ c ∈ x, c.isFinite = true) (ho : ∀ c ∈ x, o.MovesOff c) :
    (first value o x).Proper := by
  have hperm := perm_points_first value o x
  constructor
  · intro v hv c hc
    rcases List.mem_cons.mp (hperm.mem_iff.mp (List.mem_map_of_mem hv)) with hp | hp
    · exact hx c (hp ▸ hc)
    · rcases mem_or_exists_nudge hp hc with hc | ⟨d, hd, rfl⟩
      · exact hx c hc
      · exact (ho d hd).1
  · let c : Place := fun j => ratValue (o.nudge (x.getD j 0))
    have hplaces : (first value o x).places.Perm
        ((List.range x.length).map (fun j => Function.update (placeOf x) j (c j)) ++ [placeOf x]) := by
      have hmap := hperm.map placeOf
      rw [map_placeOf_corner, List.map_map] at hmap
      exact hmap.trans (List.perm_append_singleton _ _).symm
    refine (inGeneralPosition_corner List.nodup_range fun j hj => ?_).perm hplaces.symm
    have hmem : x.getD j 0 ∈ x := by
      rw [List.getD_eq_getElem _ _ (List.mem_range.mp hj)]
      exact List.getElem_mem _
    obtain ⟨hfin, hne⟩ := ho _ hmem
    intro heq
    rw [placeOf, ratValue_eq_iff hfin (hx _ hmem), hne] at heq
    cases heq

/-! ### Along the trajectory -/

/-- **A simplex of a trajectory is proper, or an earlier one has been the last that is**, and an
operation of the step after it has rounded or overflowed. -/
theorem proper_or_exists_rounded (ho : o.KeepsApart) (hfirst : (first value o x).Proper) (k : ℕ) :
    (trajectory value o x k).Proper ∨
      ∃ i < k, (trajectory value o x i).Proper ∧ ¬ (trajectory value o x (i + 1)).Proper ∧
        ∃ op ∈ operations value o (trajectory value o x i), ¬ op.IsExact := by
  induction k with
  | zero => exact .inl hfirst
  | succ k ih =>
    rcases ih with hproper | ⟨i, hi, hrounded⟩
    · by_cases hnext : (trajectory value o x (k + 1)).Proper
      · exact .inl hnext
      · refine .inr ⟨k, Nat.lt_succ_self k, hproper, hnext, ?_⟩
        by_contra hexact
        simp only [not_exists, not_and, not_not] at hexact
        exact hnext (hproper.step (sound_trajectory x k) ho hexact)
    · exact .inr ⟨i, Nat.lt_succ_of_lt hi, hrounded⟩

end Simplex

namespace InPlace

open Simplex

variable {f : Objective} {value : Point → Float} {x : Point}

/-- **Vertices coincide only by rounding.** After one iteration or more there are as many vertices as
there are dimensions and one more. They are distinct, unless a coordinate of the first point has not
been moved off for the first simplex, or up to then an iteration has made a proper simplex one that is
not, and one of the operations by which it computed the points has rounded or overflowed. -/
theorem vertices_distinct_unless_rounded (h : f.Answers value) (hx : x.length = f.dim)
    (hfin : ∀ c ∈ x, c.isFinite = true) (k : ℕ) :
    ∃ t vs, iterations f (k + 1) (start f {} x) = .ok () t ∧ t.slots.vertices? = some vs ∧
      vs.length = f.dim + 1 ∧
      ((vs.map Vertex.point).Pairwise (fun p q => ¬ Coincide p q) ∨
        (∃ c ∈ x, ¬ Options.MovesOff (Options.inEffect {} f.dim) c) ∨
        ∃ i ≤ k, (trajectory value (Options.inEffect {} f.dim) x i).Proper ∧
          ¬ (trajectory value (Options.inEffect {} f.dim) x (i + 1)).Proper ∧
          ∃ op ∈ operations value (Options.inEffect {} f.dim)
            (trajectory value (Options.inEffect {} f.dim) x i), ¬ op.IsExact) := by
  obtain ⟨t, hrun, hvertices, -⟩ := iterations_follow_trajectory h {} hx (k + 1)
  rw [if_neg (Nat.succ_ne_zero k)] at hvertices
  have hsound : (trajectory value (Options.inEffect {} f.dim) x (k + 1)).Sound value f.dim :=
    hx ▸ sound_trajectory x (k + 1)
  refine ⟨t, _, hrun, hvertices, hsound.length_vertices, ?_⟩
  by_cases hmoves : ∀ c ∈ x, Options.MovesOff (Options.inEffect {} f.dim) c
  · rcases proper_or_exists_rounded (Options.keepsApart_withStandard {})
      (proper_first hfin hmoves) (k + 1) with hproper | ⟨i, hi, hrounded⟩
    · exact .inl hproper.pairwise
    · exact .inr (.inr ⟨i, Nat.le_of_lt_succ hi, hrounded⟩)
  · simp only [not_forall, exists_prop] at hmoves
    exact .inr (.inl hmoves)

/-! ### A simplex that falls into a point -/

/-- The same value everywhere. -/
def plateau (_ : Point) : Float := 0

/-- It as an objective on a line. -/
def plateauObjective : Objective := .ofFunction 1 fun p => .ok (plateau p)

/-- The way to one is halved. -/
def halfwayToOne (c : Float) : Float := (c - 1) * 0.5 + 1

/-- Nothing is better than anything where all is flat, so a simplex is shrunk. -/
theorem step_plateau (w : Float) :
    ((⟨⟨[1], 0⟩, [⟨[w], 0⟩]⟩ : Simplex).step plateau (Options.inEffect {} 1)).simplex =
      ⟨⟨[1], 0⟩, [⟨[halfwayToOne w], 0⟩]⟩ := by
  have hvalue (p : Point) : vertexAt plateau p = ⟨p, 0⟩ := by
    rw [vertexAt, plateau, rankedValue_of_isFinite (by decide +kernel)]
  have hnever : ¬ (0 : Float) < 0 := by decide +kernel
  have hothers : (turn plateau (Options.inEffect {} 1) ⟨[1], 0⟩ [] ⟨[w], 0⟩).others =
      [⟨[halfwayToOne w], 0⟩] := by
    simp only [turn, reflected, contracted, hvalue, shrunk, List.getLast?_nil, Option.getD_none,
      hnever, and_false, if_false, List.nil_append, List.map_cons, List.map_nil]
    rfl
  change (ranked ⟨[1], 0⟩ (turn plateau (Options.inEffect {} 1) ⟨[1], 0⟩ [] ⟨[w], 0⟩).others) = _
  rw [hothers]
  exact ranked_of_pairwise (by simp [Vertex.noWorse]; decide +kernel)

/-- The first simplex is halved again and again. -/
theorem trajectory_plateau (k : ℕ) :
    trajectory plateau (Options.inEffect {} 1) [1] k = ⟨⟨[1], 0⟩, [⟨[halfwayToOne^[k] 1.05], 0⟩]⟩ := by
  induction k with
  | zero =>
    have hfirst : vertexAt plateau [1] = ⟨[1], 0⟩ := by decide +kernel
    have hneighbours : (Search.neighbours (Options.inEffect {} 1) [1]).map (vertexAt plateau) =
        [⟨[1.05], 0⟩] := by decide +kernel
    rw [trajectory, first, hfirst, hneighbours]
    exact ranked_of_pairwise (by decide +kernel)
  | succ k ih => rw [trajectory, ih, step_plateau, Function.iterate_succ_apply']

/-- After 49 halvings the rest of the way is rounded off. -/
theorem halfwayToOne_iterate : halfwayToOne^[49] 1.05 = 1 := by decide +kernel

theorem answers_plateau : plateauObjective.Answers plateau := fun _ _ hp => if_pos hp

/-- After 49 iterations from one on, both vertices are at one. -/
theorem iterations_plateau :
    ∃ t, iterations plateauObjective 49 (start plateauObjective {} [1]) = .ok () t ∧
      t.slots.vertices? = some [⟨[1], 0⟩, ⟨[1], 0⟩] := by
  have hx : ([1] : Point).length = plateauObjective.dim := rfl
  obtain ⟨t, hrun, hvertices, -⟩ := iterations_follow_trajectory answers_plateau {} hx 49
  refine ⟨t, hrun, ?_⟩
  rw [hvertices, if_neg (by decide), show plateauObjective.dim = 1 from rfl, trajectory_plateau,
    halfwayToOne_iterate]
  rfl

/-- Between the first simplex, from one on, and the one after 49 iterations, where both vertices are
at one, an operation has rounded, and a proper simplex has become one that is not. -/
theorem vertices_distinct_unless_rounded_plateau :
    ∃ i ≤ 48, (trajectory plateau (Options.inEffect {} 1) [1] i).Proper ∧
      ¬ (trajectory plateau (Options.inEffect {} 1) [1] (i + 1)).Proper ∧
      ∃ op ∈ operations plateau (Options.inEffect {} 1)
        (trajectory plateau (Options.inEffect {} 1) [1] i), ¬ op.IsExact := by
  have hfin : ∀ c ∈ ([1] : Point), c.isFinite = true := by decide +kernel
  have hmoves : Options.MovesOff (Options.inEffect {} 1) 1 := ⟨by decide +kernel, by decide +kernel⟩
  have hx : ([1] : Point).length = plateauObjective.dim := rfl
  obtain ⟨t, vs, hrun, hvs, -, hcases⟩ := vertices_distinct_unless_rounded answers_plateau hx hfin 48
  obtain ⟨t', hrun', hvs'⟩ := iterations_plateau
  obtain rfl : t = t' := (EStateM.Result.ok.inj (hrun.symm.trans hrun')).2
  obtain rfl := Option.some.inj (hvs.symm.trans hvs')
  rcases hcases with hdistinct | ⟨c, hc, hstays⟩ | hrounded
  · have hne : ¬ Coincide [1] [1] := (List.pairwise_cons.mp hdistinct).1 [1] (by simp)
    exact absurd (.cons (by decide +kernel) .nil) hne
  · rw [List.mem_singleton.mp hc] at hstays
    exact absurd hmoves hstays
  · exact hrounded

/-- **Vertices may coincide**: shrinkages that go on until they round bring them into one point. -/
theorem not_forall_vertices_nodup :
    ¬ ∀ (f : Objective) (value : Point → Float) (x : Point) (k : ℕ), f.Answers value → 1 ≤ f.dim →
      x.length = f.dim → (∀ c ∈ x, c.isFinite = true) →
      ∃ t vs, iterations f (k + 1) (start f {} x) = .ok () t ∧ t.slots.vertices? = some vs ∧
        vs.length = f.dim + 1 ∧ (vs.map Vertex.point).Nodup := by
  intro h
  obtain ⟨t, vs, hrun, hvs, -, hnodup⟩ :=
    h plateauObjective plateau [1] 48 answers_plateau (by decide) rfl (by decide +kernel)
  obtain ⟨t', hrun', hvs'⟩ := iterations_plateau
  obtain rfl : t = t' := (EStateM.Result.ok.inj (hrun.symm.trans hrun')).2
  obtain rfl := Option.some.inj (hvs.symm.trans hvs')
  exact (List.nodup_cons.mp hnodup).1 List.mem_cons_self

end InPlace

end Downhill
