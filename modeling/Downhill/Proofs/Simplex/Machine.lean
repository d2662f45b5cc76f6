import Downhill.Proofs.Simplex.Ranking
import Downhill.Simplex.Search
import Mathlib.Data.List.Infix

/-!
# The search as a machine on ranked lists

Where every point has a value, an iteration is a function of the simplex alone. This module writes
that function down (`first`, `turn`, `step`), with the points asked for and the notes taken on the
way, and follows it from the first simplex on (`trajectory`).

What is proved: the machine keeps its simplices sound (`Sound`): a best vertex and as many others as
there are dimensions, each with the value of its own point, ranked in order. The first simplex is
sound (`sound_first`), one step keeps a sound simplex so, whichever of the moves it makes
(`Sound.step`), and hence all steps do (`sound_trajectory`).
-/

namespace Downhill

/-! ### Dimensions -/

theorem length_along_of_eq {dim : Nat} {a b : Point} (t : Float) (ha : a.length = dim)
    (hb : b.length = dim) : (along t a b).length = dim := by
  rw [length_along, ha, hb, Nat.min_self]

theorem length_pointSum {dim : Nat} {ps : List Point} (h : ∀ p ∈ ps, p.length = dim) :
    (pointSum dim ps).length = dim := by
  -- a sum that has begun has the dimension already
  have hfold : ∀ q : Point, q.length = dim →
      (ps.foldl (List.zipWith (· + ·)) q).length = dim := by
    induction ps with
    | nil => intro q hq; exact hq
    | cons p ps ih =>
      intro q hq
      refine ih (fun r hr => h r (List.mem_cons_of_mem _ hr)) _ ?_
      rw [List.length_zipWith, hq, h p List.mem_cons_self, Nat.min_self]
  exact hfold _ List.length_replicate

theorem length_centroid {dim : Nat} {ps : List Point} (h : ∀ p ∈ ps, p.length = dim) :
    (centroid dim ps).length = dim := by
  rw [centroid, List.length_map, length_pointSum h]

theorem length_of_mem_neighbours {o : Options} {x p : Point} (h : p ∈ Search.neighbours o x) :
    p.length = x.length := by
  obtain ⟨j, -, rfl⟩ := List.mem_map.mp h
  exact List.length_modify _ _ _

theorem length_neighbours (o : Options) (x : Point) :
    (Search.neighbours o x).length = x.length := by
  rw [Search.neighbours, List.length_map, List.length_range]

/-! ### The machine -/

namespace Simplex

/-- What one iteration comes to. -/
structure Step where
  /-- What it does. A simplex of one vertex has nothing to move. -/
  move : Option Move
  /-- The simplex after it. -/
  simplex : Simplex
  /-- The points asked for, in order. -/
  asked : List Point
  /-- The notes taken, in order. -/
  notes : List Note

/-- What one move comes to. -/
structure Turn where
  /-- The move. -/
  move : Move
  /-- The vertices that then stand beside the best one. -/
  others : List Vertex
  /-- The points asked for, in order. -/
  asked : List Point

variable (value : Point → Float) (o : Options)

/-- The vertex at a point. -/
def vertexAt (p : Point) : Vertex := ⟨p, rankedValue (value p)⟩

/-- The mean of all vertices but the worst. -/
def center (best : Vertex) (middle : List Vertex) : Point :=
  centroid best.point.length ((best :: middle).map Vertex.point)

/-- The worst vertex reflected. -/
def reflected (best : Vertex) (middle : List Vertex) (worst : Vertex) : Vertex :=
  vertexAt value (along (-o.reflection) (center best middle) worst.point)

/-- The reflected vertex taken further. -/
def expanded (best : Vertex) (middle : List Vertex) (worst : Vertex) : Vertex :=
  vertexAt value
    (along o.expansion (center best middle) (reflected value o best middle worst).point)

/-- The worst vertex taken towards the center. -/
def contracted (best : Vertex) (middle : List Vertex) (worst : Vertex) : Vertex :=
  vertexAt value (along o.contraction (center best middle) worst.point)

/-- Vertices taken towards the best one. -/
def shrunk (best : Vertex) (vs : List Vertex) : List Vertex :=
  vs.map fun v => vertexAt value (along o.shrinkage best.point v.point)

/-- The move of a simplex with the vertices `best`, `middle` and `worst` by rank. -/
def turn (best : Vertex) (middle : List Vertex) (worst : Vertex) : Turn :=
  let r := reflected value o best middle worst
  let e := expanded value o best middle worst
  let c := contracted value o best middle worst
  let s := shrunk value o best (middle ++ [worst])
  if best.value ≤ r.value ∧ r.value < (middle.getLast?.getD best).value then
    ⟨.reflection, middle ++ [r], [r.point]⟩
  else if r.value < best.value then
    if e.value < r.value then ⟨.expansion, middle ++ [e], [r.point, e.point]⟩
    else ⟨.reflection, middle ++ [r], [r.point, e.point]⟩
  else if c.value < worst.value then ⟨.contraction, middle ++ [c], [r.point, c.point]⟩
  else ⟨.shrinkage, s, r.point :: c.point :: s.map Vertex.point⟩

/-- What a move may come to, with the comparisons that lead there. -/
inductive IsTurn (best : Vertex) (middle : List Vertex) (worst : Vertex) : Turn → Prop
  /-- The reflected vertex is neither the best nor the worst one. -/
  | accept (hbest : best.value ≤ (reflected value o best middle worst).value)
      (hsecond : (reflected value o best middle worst).value <
        (middle.getLast?.getD best).value) :
      IsTurn best middle worst ⟨.reflection, middle ++ [reflected value o best middle worst],
        [(reflected value o best middle worst).point]⟩
  /-- The reflected vertex is the best one, and the expanded vertex better still. -/
  | expand (hbest : (reflected value o best middle worst).value < best.value)
      (hbetter : (expanded value o best middle worst).value <
        (reflected value o best middle worst).value) :
      IsTurn best middle worst ⟨.expansion, middle ++ [expanded value o best middle worst],
        [(reflected value o best middle worst).point, (expanded value o best middle worst).point]⟩
  /-- The reflected vertex is the best one, and the expanded vertex is no better. -/
  | hold (hbest : (reflected value o best middle worst).value < best.value)
      (hbetter : ¬ (expanded value o best middle worst).value <
        (reflected value o best middle worst).value) :
      IsTurn best middle worst ⟨.reflection, middle ++ [reflected value o best middle worst],
        [(reflected value o best middle worst).point, (expanded value o best middle worst).point]⟩
  /-- The reflected vertex is not the best one, and the contracted vertex is better than the worst. -/
  | contract (hbest : ¬ (reflected value o best middle worst).value < best.value)
      (hworst : (contracted value o best middle worst).value < worst.value) :
      IsTurn best middle worst ⟨.contraction, middle ++ [contracted value o best middle worst],
        [(reflected value o best middle worst).point,
          (contracted value o best middle worst).point]⟩
  /-- The reflected vertex is not the best one, and the contracted vertex is no better than the
  worst. -/
  | shrink (hbest : ¬ (reflected value o best middle worst).value < best.value)
      (hworst : ¬ (contracted value o best middle worst).value < worst.value) :
      IsTurn best middle worst ⟨.shrinkage, shrunk value o best (middle ++ [worst]),
        (reflected value o best middle worst).point ::
          (contracted value o best middle worst).point ::
            (shrunk value o best (middle ++ [worst])).map Vertex.point⟩

theorem isTurn_turn (best : Vertex) (middle : List Vertex) (worst : Vertex) :
    IsTurn value o best middle worst (turn value o best middle worst) := by
  simp only [turn]
  split
  · next h => exact .accept h.1 h.2
  split
  · next hbest =>
    split
    · next hbetter => exact .expand hbest hbetter
    · next hbetter => exact .hold hbest hbetter
  · next hbest =>
    split
    · next hworst => exact .contract hbest hworst
    · next hworst => exact .shrink hbest hworst

/-- One iteration on a simplex. -/
def step (s : Simplex) : Step :=
  match s.others.getLast? with
  | none => ⟨none, s, [], []⟩
  | some worst =>
    let t := turn value o s.best s.others.dropLast worst
    let new := ranked s.best t.others
    ⟨some t.move, new, t.asked,
      [.centroid (center s.best s.others.dropLast),
        .performed t.move new.best.value new.worst.value]⟩

/-- The first simplex, around `x`. -/
def first (x : Point) : Simplex :=
  ranked (vertexAt value x) ((Search.neighbours o x).map (vertexAt value))

/-- The simplex after so many steps from the first one. -/
def trajectory (x : Point) : Nat → Simplex
  | 0 => first value o x
  | k + 1 => ((trajectory x k).step value o).simplex

/-- What is noted when the first simplex is laid. -/
def firstNotes (x : Point) : List Note :=
  let vs := (x :: Search.neighbours o x).map (vertexAt value)
  let count := vs.countP (!·.value.isFinite)
  if 0 < count then [.invalid count vs.length] else []

/-! ### Steps by the number of vertices -/

variable {value o}

section Step

variable {s : Simplex}

theorem mem_vertices_of_append {middle : List Vertex} {worst v : Vertex}
    (h : s.others = middle ++ [worst]) (hv : v ∈ middle) : v ∈ s.vertices := by
  rw [vertices, h]
  exact List.mem_cons_of_mem _ (List.mem_append_left _ hv)

theorem last_mem_vertices {middle : List Vertex} {worst : Vertex}
    (h : s.others = middle ++ [worst]) : worst ∈ s.vertices := by
  rw [vertices, h]
  exact List.mem_cons_of_mem _ (List.mem_append_right _ List.mem_cons_self)

/-- A simplex of one vertex stays as it is. -/
theorem step_of_nil (h : s.others = []) : s.step value o = ⟨none, s, [], []⟩ := by
  rw [step, h]
  rfl

/-- Any other simplex is moved by the place of its worst vertex, and ranked again. -/
theorem step_of_append {middle : List Vertex} {worst : Vertex}
    (h : s.others = middle ++ [worst]) :
    s.step value o =
      ⟨some (turn value o s.best middle worst).move,
        ranked s.best (turn value o s.best middle worst).others,
        (turn value o s.best middle worst).asked,
        [.centroid (center s.best middle),
          .performed (turn value o s.best middle worst).move
            (ranked s.best (turn value o s.best middle worst).others).best.value
            (ranked s.best (turn value o s.best middle worst).others).worst.value]⟩ := by
  rw [step, h, List.getLast?_concat, List.dropLast_concat]

end Step

/-! ### Sound simplices -/

/-- The values are those of the points, as they rank, and the vertices stand in order. -/
structure Sound (value : Point → Float) (dim : Nat) (s : Simplex) : Prop where
  /-- There is one vertex more than there are dimensions. -/
  length_others : s.others.length = dim
  /-- The points have the dimension. -/
  length_point : ∀ v ∈ s.vertices, v.point.length = dim
  /-- Each vertex holds the value of its own point. -/
  eq_vertexAt : ∀ v ∈ s.vertices, v = vertexAt value v.point
  /-- The values do not fall from one vertex to a later one. -/
  ordered : s.Ordered

theorem isRanked_vertexAt (p : Point) : IsRanked (vertexAt value p).value :=
  isRanked_rankedValue _

variable {dim : Nat} {s : Simplex}

theorem Sound.isRanked (hs : s.Sound value dim) {v : Vertex} (hv : v ∈ s.vertices) :
    IsRanked v.value := by
  rw [hs.eq_vertexAt v hv]
  exact isRanked_vertexAt _

theorem Sound.length_vertices (hs : s.Sound value dim) : s.vertices.length = dim + 1 := by
  rw [vertices, List.length_cons, hs.length_others]

/-- Where the values are within a finite tolerance, all of them are finite. -/
theorem Sound.isFinite_of_spread_le (hs : s.Sound value dim) {tolerance : Float}
    (ht : tolerance.isFinite = true) (h : s.worst.value - s.best.value ≤ tolerance) {v : Vertex}
    (hv : v ∈ s.vertices) : v.value.isFinite = true := by
  have hworst : s.worst.value.isFinite = true := by
    rcases hs.isRanked s.worst_mem with hw | hw
    · exact hw
    · rw [hw] at h
      exact absurd h (not_infinity_sub_le (hs.isRanked s.best_mem) ht)
  exact (hs.isRanked hv).isFinite_of_le hworst (hs.ordered.le_worst hv)

/-- A vertex whose value is finite holds the value of its point as it is. -/
theorem Sound.value_eq (hs : s.Sound value dim) {v : Vertex} (hv : v ∈ s.vertices)
    (hfin : v.value.isFinite = true) : value v.point = v.value := by
  have hval : v.value = rankedValue (value v.point) :=
    congrArg Vertex.value (hs.eq_vertexAt v hv)
  rw [hval] at hfin ⊢
  exact (rankedValue_of_isFinite_rankedValue hfin).symm

/-- A simplex ranked from the vertices at points of the dimension is sound. -/
theorem sound_ranked {v : Vertex} {vs : List Vertex} (hlen : vs.length = dim)
    (h : ∀ w ∈ v :: vs, ∃ p, p.length = dim ∧ w = vertexAt value p) :
    (ranked v vs).Sound value dim where
  length_others := (length_others_ranked v vs).trans hlen
  length_point w hw := by
    obtain ⟨p, hp, rfl⟩ := h w (mem_ranked.mp hw)
    exact hp
  eq_vertexAt w hw := by
    obtain ⟨p, -, rfl⟩ := h w (mem_ranked.mp hw)
    rfl
  ordered := ordered_ranked fun w hw => by
    obtain ⟨p, -, rfl⟩ := h w hw
    exact (isRanked_vertexAt p).isNaN

/-- **The first simplex is sound.** -/
theorem sound_first (x : Point) : (first value o x).Sound value x.length := by
  refine sound_ranked (by rw [List.length_map, length_neighbours]) fun w hw => ?_
  rcases List.mem_cons.mp hw with rfl | hw
  · exact ⟨x, rfl, rfl⟩
  · obtain ⟨p, hp, rfl⟩ := List.mem_map.mp hw
    exact ⟨p, length_of_mem_neighbours hp, rfl⟩

section Points

variable {best worst : Vertex} {middle : List Vertex} (hb : best.point.length = dim)
  (hm : ∀ v ∈ middle, v.point.length = dim) (hw : worst.point.length = dim)
include hb hm

theorem length_of_mem_points : ∀ p ∈ (best :: middle).map Vertex.point, p.length = dim := by
  intro p hp
  obtain ⟨v, hv, rfl⟩ := List.mem_map.mp hp
  rcases List.mem_cons.mp hv with rfl | hv
  · exact hb
  · exact hm v hv

theorem length_center : (center best middle).length = dim := by
  rw [center, hb]
  exact length_centroid (length_of_mem_points hb hm)

include hw

theorem length_reflected : (reflected value o best middle worst).point.length = dim :=
  length_along_of_eq _ (length_center hb hm) hw

theorem length_expanded : (expanded value o best middle worst).point.length = dim :=
  length_along_of_eq _ (length_center hb hm) (length_reflected hb hm hw)

theorem length_contracted : (contracted value o best middle worst).point.length = dim :=
  length_along_of_eq _ (length_center hb hm) hw

theorem length_of_mem_shrunk {v : Vertex}
    (hv : v ∈ shrunk value o best (middle ++ [worst])) : v.point.length = dim := by
  obtain ⟨u, hu, rfl⟩ := List.mem_map.mp hv
  refine length_along_of_eq _ hb ?_
  exact List.forall_mem_append.mpr ⟨hm, List.forall_mem_singleton.mpr hw⟩ u hu

/-- The points asked for are of the dimension. -/
theorem IsTurn.length_of_mem_asked {t : Turn} (ht : IsTurn value o best middle worst t) {p : Point}
    (hp : p ∈ t.asked) : p.length = dim := by
  have hr : (reflected value o best middle worst).point.length = dim := length_reflected hb hm hw
  have he : (expanded value o best middle worst).point.length = dim := length_expanded hb hm hw
  have hc : (contracted value o best middle worst).point.length = dim := length_contracted hb hm hw
  cases ht with
  | accept hbest hsecond =>
    rw [List.mem_singleton] at hp
    exact hp ▸ hr
  | expand hbest hbetter | hold hbest hbetter =>
    rw [List.mem_pair] at hp
    rcases hp with rfl | rfl
    · exact hr
    · exact he
  | contract hbest hworst =>
    rw [List.mem_pair] at hp
    rcases hp with rfl | rfl
    · exact hr
    · exact hc
  | shrink hbest hworst =>
    rw [List.mem_cons, List.mem_cons] at hp
    rcases hp with rfl | rfl | hp
    · exact hr
    · exact hc
    · obtain ⟨v, hv, rfl⟩ := List.mem_map.mp hp
      exact length_of_mem_shrunk hb hm hw hv

end Points

section Turn

variable {best worst : Vertex} {middle : List Vertex} {t : Turn}
  (ht : IsTurn value o best middle worst t)
include ht

/-- After a move a vertex beside the best one is one of those kept, or the vertex at a point that has
been asked for. -/
theorem IsTurn.mem_others {v : Vertex} (hv : v ∈ t.others) :
    v ∈ middle ∨ v.point ∈ t.asked ∧ v = vertexAt value v.point := by
  cases ht with
  | shrink hbest hworst =>
    have hasked := List.mem_map_of_mem (f := Vertex.point) hv
    obtain ⟨u, -, rfl⟩ := List.mem_map.mp hv
    exact .inr ⟨List.mem_cons_of_mem _ (List.mem_cons_of_mem _ hasked), rfl⟩
  | _ =>
    rw [List.mem_append, List.mem_singleton] at hv
    rcases hv with hv | rfl
    · exact .inl hv
    · exact .inr ⟨by simp, rfl⟩

/-- A move keeps the number of vertices. -/
theorem IsTurn.length_others : t.others.length = middle.length + 1 := by
  cases ht with
  | shrink hbest hworst =>
    rw [shrunk, List.length_map]
    exact List.length_append
  | _ => exact List.length_append

end Turn

theorem Sound.length_best (hs : s.Sound value dim) : s.best.point.length = dim :=
  hs.length_point _ s.best_mem

theorem Sound.length_middle (hs : s.Sound value dim) {middle : List Vertex} {worst : Vertex}
    (h : s.others = middle ++ [worst]) : ∀ v ∈ middle, v.point.length = dim := fun v hv =>
  hs.length_point v (mem_vertices_of_append h hv)

theorem Sound.length_last (hs : s.Sound value dim) {middle : List Vertex} {worst : Vertex}
    (h : s.others = middle ++ [worst]) : worst.point.length = dim :=
  hs.length_point worst (last_mem_vertices h)

/-- **A step keeps a sound simplex sound.** -/
theorem Sound.step (hs : s.Sound value dim) : (s.step value o).simplex.Sound value dim := by
  rcases List.eq_nil_or_concat' s.others with h | ⟨middle, worst, h⟩
  · rw [step_of_nil h]
    exact hs
  · have ht := isTurn_turn value o s.best middle worst
    have old : ∀ v ∈ s.vertices, ∃ p, p.length = dim ∧ v = vertexAt value p := fun v hv =>
      ⟨v.point, hs.length_point v hv, hs.eq_vertexAt v hv⟩
    rw [step_of_append h]
    refine sound_ranked ?_ fun v hv => ?_
    · rw [ht.length_others, ← hs.length_others, h, List.length_append]
      rfl
    · rcases List.mem_cons.mp hv with rfl | hv
      · exact old _ s.best_mem
      · rcases ht.mem_others hv with hv | ⟨hasked, heq⟩
        · exact old v (mem_vertices_of_append h hv)
        · exact ⟨v.point, ht.length_of_mem_asked hs.length_best (hs.length_middle h)
            (hs.length_last h) hasked, heq⟩

/-- **Every simplex of a trajectory is sound.** -/
theorem sound_trajectory (x : Point) (k : Nat) :
    (trajectory value o x k).Sound value x.length := by
  induction k with
  | zero => exact sound_first x
  | succ k ih => exact ih.step

end Simplex

end Downhill
