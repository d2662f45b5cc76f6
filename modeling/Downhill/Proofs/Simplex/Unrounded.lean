import Downhill.Proofs.Float.Operation
import Downhill.Proofs.Simplex.Machine
import Downhill.Proofs.Simplex.Position

/-!
# Moves without rounding

A move computes the points it leaves by sums, differences, products and quotients of doubles. This
module lists these operations (`operations`) and asks where the points are if none of them rounds or
overflows.

What is proved: a point on a line is then at the place on the line (`isAt_along`), a centroid at the
mean (`isAt_centroid`), and a step takes the vertices of a simplex where its move takes them in space
(`movesExactly_step`).
-/

namespace Downhill

/-- The place of a point. -/
def placeOf (p : Point) : Place := fun i => ratValue (p.getD i 0)

/-- The point is at the place: its coordinates are finite, and those of the place. -/
structure IsAt (p : Point) (q : Place) : Prop where
  /-- The coordinates are finite. -/
  isFinite : ∀ c ∈ p, c.isFinite = true
  /-- They are those of the place. -/
  placeOf_eq : placeOf p = q

variable {a b p q : Point} {c d t : Float} {ps : List Point} {dim : ℕ}

@[simp] theorem placeOf_nil : placeOf [] = 0 := by
  funext i
  simp [placeOf]

@[simp] theorem placeOf_cons_zero (c : Float) (p : Point) : placeOf (c :: p) 0 = ratValue c := rfl

@[simp] theorem placeOf_cons_succ (c : Float) (p : Point) (i : ℕ) :
    placeOf (c :: p) (i + 1) = placeOf p i := rfl

@[simp] theorem placeOf_replicate_zero (n : ℕ) : placeOf (List.replicate n 0) = 0 := by
  funext i
  by_cases hi : i < n <;> simp [placeOf, hi]

/-- Without coordinates a point is at the origin. -/
theorem isAt_nil {q : Place} : IsAt [] q ↔ q = 0 := by
  rw [← placeOf_nil, eq_comm]
  exact ⟨fun h => h.placeOf_eq, fun h => ⟨fun _ hc => absurd hc List.not_mem_nil, h⟩⟩

/-- A point is at a place if its first coordinate is, and the others are. -/
theorem isAt_cons {q : Place} :
    IsAt (c :: p) q ↔ (c.isFinite = true ∧ ratValue c = q 0) ∧ IsAt p fun i => q (i + 1) := by
  constructor
  · rintro ⟨hfin, rfl⟩
    rw [List.forall_mem_cons] at hfin
    exact ⟨⟨hfin.1, rfl⟩, hfin.2, rfl⟩
  · rintro ⟨⟨hc, hvalue⟩, hp, hplace⟩
    refine ⟨List.forall_mem_cons.mpr ⟨hc, hp⟩, funext fun i => ?_⟩
    cases i with
    | zero => exact hvalue
    | succ i => exact congrFun hplace i

/-- Points of which each is at its place have finite coordinates, and the places are theirs. -/
theorem isFinite_and_map_placeOf_of_forall₂ {qs : List Place} (h : List.Forall₂ IsAt ps qs) :
    (∀ p ∈ ps, ∀ c ∈ p, c.isFinite = true) ∧ ps.map placeOf = qs := by
  induction h with
  | nil => exact ⟨fun _ hp => absurd hp List.not_mem_nil, rfl⟩
  | cons hp _ ih =>
    exact ⟨List.forall_mem_cons.mpr ⟨hp.isFinite, ih.1⟩, congrArg₂ List.cons hp.placeOf_eq ih.2⟩

/-- A point computed coordinate by coordinate from two others is where it should be if each of its
coordinates is. -/
theorem isAt_zipWith {f : Float → Float → Float} {r : ℚ → ℚ → ℚ} (hr : r 0 0 = 0)
    (hab : a.length = b.length)
    (h : ∀ e ∈ a.zip b, (f e.1 e.2).isFinite = true ∧
      ratValue (f e.1 e.2) = r (ratValue e.1) (ratValue e.2)) :
    IsAt (List.zipWith f a b) fun i => r (placeOf a i) (placeOf b i) := by
  induction a generalizing b with
  | nil =>
    rw [List.length_nil, eq_comm, List.length_eq_zero_iff] at hab
    subst hab
    exact isAt_nil.mpr (funext fun i => by simpa using hr)
  | cons c a ih =>
    obtain ⟨d, b, rfl⟩ := List.exists_cons_of_length_eq_add_one hab.symm
    rw [List.zip_cons_cons, List.forall_mem_cons] at h
    exact isAt_cons.mpr ⟨h.1, ih (Nat.succ.inj hab) h.2⟩

/-! ### Points on lines -/

/-- The operations by which the point at `t` on the way from `a` to `b` is computed. -/
def lineOperations (t : Float) (a b : Point) : List Operation :=
  (a.zip b).flatMap fun (c, d) => [.sub d c, .mul (d - c) t, .add ((d - c) * t) c]

theorem onLine_apply (r : ℚ) (a b : Place) (i : ℕ) : onLine r a b i = (b i - a i) * r + a i := by
  simp [onLine, AffineMap.lineMap_apply, mul_comm]

/-- **A point on a line is there** if no operation rounds. -/
theorem isAt_along (hab : a.length = b.length) (h : ∀ op ∈ lineOperations t a b, op.IsExact) :
    IsAt (along t a b) (onLine (ratValue t) (placeOf a) (placeOf b)) := by
  have hline : onLine (ratValue t) (placeOf a) (placeOf b) =
      fun i => (placeOf b i - placeOf a i) * ratValue t + placeOf a i := funext (onLine_apply _ _ _)
  rw [hline]
  refine isAt_zipWith (r := fun u v => (v - u) * ratValue t + u) (by simp) hab ?_
  rintro ⟨c, d⟩ hcd
  have hops (op : Operation) (hop : op ∈ [.sub d c, .mul (d - c) t, .add ((d - c) * t) c]) :
      op.IsExact := h op (List.mem_flatMap_of_mem hcd hop)
  obtain ⟨-, hsub⟩ := hops (.sub d c) (by simp)
  obtain ⟨-, hmul⟩ := hops (.mul (d - c) t) (by simp)
  obtain ⟨hfin, hadd⟩ := hops (.add ((d - c) * t) c) (by simp)
  refine ⟨hfin, ?_⟩
  calc ratValue ((d - c) * t + c)
    _ = ratValue ((d - c) * t) + ratValue c := hadd
    _ = ratValue (d - c) * ratValue t + ratValue c := congrArg (· + _) hmul
    _ = (ratValue d - ratValue c) * ratValue t + ratValue c := congrArg (· * _ + _) hsub

/-! ### Centroids -/

/-- The operations by which points are added to a sum that has begun. -/
def sumOperations (q : Point) : List Point → List Operation
  | [] => []
  | p :: ps =>
    ((q.zip p).map fun (c, d) => .add c d) ++ sumOperations (List.zipWith (· + ·) q p) ps

/-- The operations by which the mean of points of one dimension is computed. -/
def centroidOperations (dim : ℕ) (ps : List Point) : List Operation :=
  sumOperations (List.replicate dim 0) ps ++
    .ofNat ps.length :: (pointSum dim ps).map (.div · (Float.ofNat ps.length))

theorem isAt_add (hqp : q.length = p.length)
    (h : ∀ op ∈ (q.zip p).map fun (c, d) => Operation.add c d, op.IsExact) :
    IsAt (List.zipWith (· + ·) q p) (placeOf q + placeOf p) :=
  isAt_zipWith (add_zero 0) hqp (List.forall_mem_map.mp h)

/-- A sum that has begun goes on to the sum of all. -/
theorem isAt_foldl_add (hlen : ∀ p ∈ ps, p.length = q.length) (hq : ∀ c ∈ q, c.isFinite = true)
    (h : ∀ op ∈ sumOperations q ps, op.IsExact) :
    IsAt (ps.foldl (List.zipWith (· + ·)) q) (placeOf q + (ps.map placeOf).sum) := by
  induction ps generalizing q with
  | nil => exact ⟨hq, (add_zero _).symm⟩
  | cons p ps ih =>
    rw [List.forall_mem_cons] at hlen
    rw [sumOperations, List.forall_mem_append] at h
    obtain ⟨hfin, hplace⟩ := isAt_add hlen.1.symm h.1
    rw [List.map_cons, List.sum_cons, ← add_assoc, ← hplace]
    refine ih (fun r hr => ?_) hfin h.2
    rw [hlen.2 r hr, List.length_zipWith, hlen.1, Nat.min_self]

theorem isAt_div (h : ∀ op ∈ p.map (Operation.div · d), op.IsExact) :
    IsAt (p.map (· / d)) ((ratValue d)⁻¹ • placeOf p) := by
  induction p with
  | nil => exact isAt_nil.mpr (by simp)
  | cons c p ih =>
    rw [List.map_cons, List.forall_mem_cons] at h
    refine isAt_cons.mpr ⟨⟨h.1.1, h.1.2.trans ?_⟩, ih h.2⟩
    exact div_eq_inv_mul (ratValue c) (ratValue d)

/-- **A centroid is at the mean** if no operation rounds. -/
theorem isAt_centroid (hlen : ∀ p ∈ ps, p.length = dim)
    (h : ∀ op ∈ centroidOperations dim ps, op.IsExact) :
    IsAt (centroid dim ps) (mean (ps.map placeOf)) := by
  rw [centroidOperations, List.forall_mem_append, List.forall_mem_cons] at h
  obtain ⟨hsum, ⟨-, hcount⟩, hdiv⟩ := h
  have hzero : ∀ c ∈ List.replicate dim (0 : Float), c.isFinite = true := by
    intro c hc
    rw [List.eq_of_mem_replicate hc]
    decide +kernel
  have hplace : placeOf (pointSum dim ps) = (ps.map placeOf).sum := by
    have hfold := isAt_foldl_add (by simpa using hlen) hzero hsum
    rw [placeOf_replicate_zero, zero_add] at hfold
    exact hfold.placeOf_eq
  have hlength : ratValue (Float.ofNat ps.length) = (ps.map placeOf).length := by
    rw [List.length_map]
    exact hcount
  have hmean := isAt_div hdiv
  rwa [hplace, hlength] at hmean

namespace Simplex

/-- The places of the vertices by rank. -/
def places (s : Simplex) : List Place := s.vertices.map fun v => placeOf v.point

/-! ### Moves in space -/

/-- The last of the points is moved on its line through the mean of the others. -/
def through (t : ℚ) (ps : List Place) : List Place :=
  ps.dropLast ++ [onLine t (mean ps.dropLast) (ps.getLastD 0)]

/-- Where a move takes the points, from the best to the worst, if nothing is rounded. -/
def exactly (o : Options) (ps : List Place) : Move → List Place
  | .reflection => through (-ratValue o.reflection) ps
  | .expansion => through (-ratValue o.reflection * ratValue o.expansion) ps
  | .contraction => through (ratValue o.contraction) ps
  | .shrinkage => ps.map (onLine (ratValue o.shrinkage) (ps.headD 0))

/-- The second simplex is one that a move makes of the first one without rounding, whichever move it
is and in whatever order the vertices are. -/
structure MovesExactly (o : Options) (s t : Simplex) : Prop where
  /-- The coordinates are finite. -/
  isFinite : ∀ v ∈ t.vertices, ∀ c ∈ v.point, c.isFinite = true
  /-- The points are where a move takes them. -/
  exists_move : ∃ move, t.places.Perm (exactly o s.places move)

@[simp] theorem through_concat (t : ℚ) (ps : List Place) (w : Place) :
    through t (ps ++ [w]) = ps ++ [onLine t (mean ps) w] := by
  rw [through, List.dropLast_concat, List.getLastD_concat]

/-- A point on a line is taken further on it. -/
theorem onLine_onLine (r t : ℚ) (m w : Place) : onLine r m (onLine t m w) = onLine (t * r) m w := by
  funext i
  simp only [onLine_apply]
  ring

/-! ### Moves of doubles -/

/-- The operations by which the point at `t` on the way from the center to `p` is computed. -/
def centerOperations (best : Vertex) (middle : List Vertex) (t : Float) (p : Point) :
    List Operation :=
  centroidOperations best.point.length ((best :: middle).map Vertex.point) ++
    lineOperations t (center best middle) p

/-- The operations by which the points are computed that a move leaves. -/
def moveOperations (o : Options) (best : Vertex) (middle : List Vertex) (worst : Vertex) :
    Move → List Operation
  | .reflection => centerOperations best middle (-o.reflection) worst.point
  | .expansion =>
    centerOperations best middle (-o.reflection) worst.point ++
      lineOperations o.expansion (center best middle)
        (along (-o.reflection) (center best middle) worst.point)
  | .contraction => centerOperations best middle o.contraction worst.point
  | .shrinkage =>
    (middle ++ [worst]).flatMap fun v => lineOperations o.shrinkage best.point v.point

/-- The operations by which the points are computed that a step leaves. A simplex of one vertex has
nothing to move. -/
def operations (value : Point → Float) (o : Options) (s : Simplex) : List Operation :=
  match s.others.getLast? with
  | none => []
  | some worst =>
    moveOperations o s.best s.others.dropLast worst (turn value o s.best s.others.dropLast worst).move

section Points

variable {value : Point → Float} {o : Options} {best worst : Vertex} {middle : List Vertex} {r : ℚ}

/-- A vertex beside the best one is replaced by one that is on its line through the mean. -/
theorem forall₂_isAt_through {v : Vertex}
    (hfin : ∀ u ∈ best :: middle, ∀ c ∈ u.point, c.isFinite = true)
    (hv : IsAt v.point
      (onLine r (mean ((best :: middle).map (placeOf ·.point))) (placeOf worst.point))) :
    List.Forall₂ IsAt ((best :: (middle ++ [v])).map Vertex.point)
      (through r ((best :: (middle ++ [worst])).map (placeOf ·.point))) := by
  rw [← List.cons_append, ← List.cons_append, List.map_append, List.map_append, List.map_singleton,
    List.map_singleton, through_concat]
  refine List.rel_append ?_ (.cons hv .nil)
  rw [List.forall₂_map_left_iff, List.forall₂_map_right_iff, List.forall₂_same]
  exact fun u hu => ⟨hfin u hu, rfl⟩

variable (hb : best.point.length = dim) (hm : ∀ v ∈ middle, v.point.length = dim)
include hb hm

/-- The center is at the mean. -/
theorem placeOf_center (h : ∀ op ∈ centerOperations best middle t p, op.IsExact) :
    placeOf (center best middle) = mean ((best :: middle).map (placeOf ·.point)) := by
  rw [centerOperations, List.forall_mem_append, hb] at h
  have hcenter := isAt_centroid (length_of_mem_points hb hm) h.1
  rw [List.map_map] at hcenter
  rw [center, hb]
  exact hcenter.placeOf_eq

/-- A point on the line from the center is on the line from the mean. -/
theorem isAt_along_center (hp : p.length = dim)
    (h : ∀ op ∈ centerOperations best middle t p, op.IsExact) :
    IsAt (along t (center best middle) p)
      (onLine (ratValue t) (mean ((best :: middle).map (placeOf ·.point))) (placeOf p)) := by
  rw [← placeOf_center hb hm h]
  exact isAt_along ((length_center hb hm).trans hp.symm) (List.forall_mem_append.mp h).2

variable (hw : worst.point.length = dim)
include hw

theorem isAt_reflected (h : ∀ op ∈ moveOperations o best middle worst .reflection, op.IsExact) :
    IsAt (reflected value o best middle worst).point
      (onLine (-ratValue o.reflection) (mean ((best :: middle).map (placeOf ·.point)))
        (placeOf worst.point)) := by
  rw [← ratValue_neg]
  exact isAt_along_center hb hm hw h

theorem isAt_expanded (h : ∀ op ∈ moveOperations o best middle worst .expansion, op.IsExact) :
    IsAt (expanded value o best middle worst).point
      (onLine (-ratValue o.reflection * ratValue o.expansion)
        (mean ((best :: middle).map (placeOf ·.point))) (placeOf worst.point)) := by
  obtain ⟨hreflected, hexpanded⟩ := List.forall_mem_append.mp h
  have hplace : placeOf (reflected value o best middle worst).point = _ :=
    (isAt_reflected hb hm hw hreflected).placeOf_eq
  have hlength : (center best middle).length = (reflected value o best middle worst).point.length :=
    (length_center hb hm).trans (length_reflected hb hm hw).symm
  have hline := isAt_along hlength hexpanded
  rwa [placeOf_center hb hm hreflected, hplace, onLine_onLine] at hline

theorem isAt_contracted (h : ∀ op ∈ moveOperations o best middle worst .contraction, op.IsExact) :
    IsAt (contracted value o best middle worst).point
      (onLine (ratValue o.contraction) (mean ((best :: middle).map (placeOf ·.point)))
        (placeOf worst.point)) :=
  isAt_along_center hb hm hw h

/-- The best vertex and those that are taken towards it. -/
theorem forall₂_isAt_shrunk (hfin : ∀ c ∈ best.point, c.isFinite = true)
    (h : ∀ op ∈ moveOperations o best middle worst .shrinkage, op.IsExact) :
    List.Forall₂ IsAt ((best :: shrunk value o best (middle ++ [worst])).map Vertex.point)
      (((best :: (middle ++ [worst])).map (placeOf ·.point)).map
        (onLine (ratValue o.shrinkage) (placeOf best.point))) := by
  refine .cons ⟨hfin, (AffineMap.lineMap_same_apply _ _).symm⟩ ?_
  rw [shrunk, List.map_map, List.map_map, List.forall₂_map_left_iff, List.forall₂_map_right_iff,
    List.forall₂_same]
  have hlength : ∀ v ∈ middle ++ [worst], v.point.length = dim :=
    List.forall_mem_append.mpr ⟨hm, List.forall_mem_singleton.mpr hw⟩
  intro v hv
  exact isAt_along (hb.trans (hlength v hv).symm) fun op hop => h op (List.mem_flatMap_of_mem hv hop)

/-- **A move takes the vertices where it takes them in space** if no operation rounds. -/
theorem IsTurn.forall₂_isAt {turn : Turn} (ht : IsTurn value o best middle worst turn)
    (hfin : ∀ u ∈ best :: (middle ++ [worst]), ∀ c ∈ u.point, c.isFinite = true)
    (h : ∀ op ∈ moveOperations o best middle worst turn.move, op.IsExact) :
    List.Forall₂ IsAt ((best :: turn.others).map Vertex.point)
      (exactly o ((best :: (middle ++ [worst])).map (placeOf ·.point)) turn.move) := by
  rw [← List.cons_append, List.forall_mem_append] at hfin
  cases ht with
  | accept hbest hsecond | hold hbest hbetter =>
    exact forall₂_isAt_through hfin.1 (isAt_reflected hb hm hw h)
  | expand hbest hbetter => exact forall₂_isAt_through hfin.1 (isAt_expanded hb hm hw h)
  | contract hbest hworst => exact forall₂_isAt_through hfin.1 (isAt_contracted hb hm hw h)
  | shrink hbest hworst => exact forall₂_isAt_shrunk hb hm hw (hfin.1 best List.mem_cons_self) h

end Points

/-- **A step of which no operation rounds moves a simplex exactly.** -/
theorem movesExactly_step {value : Point → Float} {o : Options} {s : Simplex}
    (hs : s.Sound value dim) (hfin : ∀ v ∈ s.vertices, ∀ c ∈ v.point, c.isFinite = true)
    (hne : s.others ≠ []) (h : ∀ op ∈ operations value o s, op.IsExact) :
    MovesExactly o s (s.step value o).simplex := by
  obtain ⟨middle, worst, hothers⟩ := (List.eq_nil_or_concat' s.others).resolve_left hne
  have hplaces : s.places = (s.best :: (middle ++ [worst])).map fun v => placeOf v.point := by
    rw [places, vertices, hothers]
  rw [vertices, hothers] at hfin
  rw [operations, hothers, List.getLast?_concat, List.dropLast_concat] at h
  obtain ⟨hfinite, hat⟩ := isFinite_and_map_placeOf_of_forall₂ <|
    (isTurn_turn value o s.best middle worst).forall₂_isAt hs.length_best
      (hs.length_middle hothers) (hs.length_last hothers) hfin h
  have hperm := vertices_ranked_perm s.best (turn value o s.best middle worst).others
  rw [step_of_append hothers]
  constructor
  · intro v hv
    exact hfinite v.point (List.mem_map_of_mem (hperm.mem_iff.mp hv))
  · refine ⟨(turn value o s.best middle worst).move, ?_⟩
    rw [hplaces, ← hat, List.map_map]
    exact hperm.map _

/-- Where all is flat, the way from one to two is halved, and no operation rounds. Half way between one
and the double behind it there is none. -/
example : (∀ op ∈ operations (fun _ => 0) (.inEffect {} 1) ⟨⟨[1], 0⟩, [⟨[2], 0⟩]⟩, op.IsExact) ∧
    ∃ op ∈ operations (fun _ => 0) (.inEffect {} 1) ⟨⟨[1], 0⟩, [⟨[1.0000000000000002], 0⟩]⟩,
      ¬ op.IsExact := by decide +kernel

end Simplex

end Downhill
