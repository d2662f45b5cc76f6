import Downhill.Proofs.Simplex.Run

/-!
# Only comparisons matter

A search never computes with a value: it asks which of two is less. So two functions that rank the
points alike lead it the same way, however far apart their values are.

The second function is read at the points of a simplex of the first one (`Simplex.under`). What is
proved: ranking, a move (`turn_under`), a step (`step_under`) and the first simplex go on as before
when this is done, and so does a whole run, which asks for the same points and makes the same moves
(`trajectory_under`, `questions_eq`, `moves_eq`). Hence two searches in place on objectives that rank
the points alike cannot be told apart but by the values they return (`iterations_rank_alike`).
-/

namespace Downhill

/-- The move that a note tells of, if any. -/
def Note.move? : Note → Option Move
  | .performed move _ _ => some move
  | _ => none

/-- The two functions rank the points of the dimension alike: where one of two points is better for
the first function, it is better for the second, and the other way round. -/
def RankAlike (dim : Nat) (u v : Point → Float) : Prop :=
  ∀ p q : Point, p.length = dim → q.length = dim →
    (rankedValue (u p) < rankedValue (u q) ↔ rankedValue (v p) < rankedValue (v q))

/-- The vertex at the same point of another function. -/
def Vertex.under (v : Point → Float) (w : Vertex) : Vertex := Simplex.vertexAt v w.point

/-- The vertex is one of the function, in the dimension. -/
structure Vertex.IsOf (w : Vertex) (value : Point → Float) (dim : Nat) : Prop where
  /-- The point has the dimension. -/
  length_point : w.point.length = dim
  /-- The value is that of the point. -/
  eq_vertexAt : w = Simplex.vertexAt value w.point

namespace Simplex

variable {u v : Point → Float} {o : Options} {dim : Nat} {s : Simplex} {a b best worst : Vertex}
  {middle : List Vertex} {x : Point}

/-- The simplex at the same points of another function. -/
def under (v : Point → Float) (s : Simplex) : Simplex :=
  ⟨s.best.under v, s.others.map (Vertex.under v)⟩

theorem isOf_vertexAt {p : Point} (hp : p.length = dim) : (vertexAt u p).IsOf u dim := ⟨hp, rfl⟩

theorem Sound.isOf (hs : s.Sound u dim) {w : Vertex} (hw : w ∈ s.vertices) : w.IsOf u dim :=
  ⟨hs.length_point w hw, hs.eq_vertexAt w hw⟩

theorem map_point_under (ws : List Vertex) :
    (ws.map (Vertex.under v)).map Vertex.point = ws.map Vertex.point := by
  rw [List.map_map]
  rfl

/-! ### Comparisons -/

section Comparisons

variable (h : RankAlike dim u v)
include h

theorem lt_under (ha : a.IsOf u dim) (hb : b.IsOf u dim) :
    (a.under v).value < (b.under v).value ↔ a.value < b.value := by
  rw [ha.eq_vertexAt, hb.eq_vertexAt]
  exact (h _ _ ha.length_point hb.length_point).symm

theorem le_under (ha : a.IsOf u dim) (hb : b.IsOf u dim) :
    (a.under v).value ≤ (b.under v).value ↔ a.value ≤ b.value := by
  have hnum : ∀ w : Vertex, w.IsOf u dim → w.value.isNaN = false := by
    intro w hw
    rw [hw.eq_vertexAt]
    exact (isRanked_vertexAt _).isNaN
  rw [← float_not_lt_iff (hnum b hb) (hnum a ha), ← lt_under h hb ha]
  exact (float_not_lt_iff (isRanked_vertexAt _).isNaN (isRanked_vertexAt _).isNaN).symm

/-- **Ranking keeps its order**, ties included. -/
theorem ranked_under {ws : List Vertex} (hws : ∀ w ∈ a :: ws, w.IsOf u dim) :
    ranked (a.under v) (ws.map (Vertex.under v)) = (ranked a ws).under v := by
  have hcompare : ∀ b ∈ a :: ws, ∀ c ∈ a :: ws,
      b.noWorse c = (b.under v).noWorse (c.under v) := by
    intro b hb c hc
    rw [Vertex.noWorse, Vertex.noWorse, decide_eq_decide]
    exact (le_under h (hws b hb) (hws c hc)).symm
  apply eq_of_vertices_eq
  calc (ranked (a.under v) (ws.map (Vertex.under v))).vertices
      = ((a :: ws).map (Vertex.under v)).mergeSort Vertex.noWorse := vertices_ranked _ _
    _ = ((a :: ws).mergeSort Vertex.noWorse).map (Vertex.under v) :=
      (List.map_mergeSort hcompare).symm
    _ = (ranked a ws).vertices.map (Vertex.under v) := by rw [vertices_ranked]

end Comparisons

/-! ### Points on the way -/

theorem center_under : center (best.under v) (middle.map (Vertex.under v)) = center best middle := by
  rw [center, List.map_cons, map_point_under]
  rfl

theorem reflected_under :
    reflected v o (best.under v) (middle.map (Vertex.under v)) (worst.under v) =
      (reflected u o best middle worst).under v := by
  rw [reflected, center_under]
  rfl

theorem expanded_under :
    expanded v o (best.under v) (middle.map (Vertex.under v)) (worst.under v) =
      (expanded u o best middle worst).under v := by
  rw [expanded, center_under, reflected_under (u := u)]
  rfl

theorem contracted_under :
    contracted v o (best.under v) (middle.map (Vertex.under v)) (worst.under v) =
      (contracted u o best middle worst).under v := by
  rw [contracted, center_under]
  rfl

theorem shrunk_under (ws : List Vertex) :
    shrunk v o (best.under v) (ws.map (Vertex.under v)) =
      (shrunk u o best ws).map (Vertex.under v) := by
  rw [shrunk, shrunk, List.map_map, List.map_map]
  rfl

/-! ### Steps -/

/-- The notes of a step tell of its move. -/
theorem filterMap_move?_step :
    (s.step u o).notes.filterMap Note.move? = (s.step u o).move.toList := by
  rcases List.eq_nil_or_concat' s.others with h | ⟨middle, worst, h⟩
  · rw [step_of_nil h]
    rfl
  · rw [step_of_append h]
    rfl

/-- No move is made when the first simplex is laid. -/
theorem filterMap_move?_firstNotes : (firstNotes u o x).filterMap Note.move? = [] := by
  unfold firstNotes
  dsimp only
  split <;> rfl

section Steps

variable (h : RankAlike dim u v)
include h

/-- **The search moves as before**, asks for the same points, and keeps the same vertices. -/
theorem turn_under (hb : best.IsOf u dim) (hm : ∀ w ∈ middle, w.IsOf u dim)
    (hw : worst.IsOf u dim) :
    turn v o (best.under v) (middle.map (Vertex.under v)) (worst.under v) =
      ⟨(turn u o best middle worst).move, (turn u o best middle worst).others.map (Vertex.under v),
        (turn u o best middle worst).asked⟩ := by
  have hml : ∀ w ∈ middle, w.point.length = dim := fun w hw => (hm w hw).length_point
  have hr : (reflected u o best middle worst).IsOf u dim :=
    ⟨length_reflected hb.length_point hml hw.length_point, rfl⟩
  have he : (expanded u o best middle worst).IsOf u dim :=
    ⟨length_expanded hb.length_point hml hw.length_point, rfl⟩
  have hc : (contracted u o best middle worst).IsOf u dim :=
    ⟨length_contracted hb.length_point hml hw.length_point, rfl⟩
  have hsecond : (middle.getLast?.getD best).IsOf u dim := by
    cases hlast : middle.getLast? with
    | none => exact hb
    | some w => exact hm w (List.mem_of_getLast? hlast)
  have hgetD : (middle.map (Vertex.under v)).getLast?.getD (best.under v) =
      (middle.getLast?.getD best).under v := by
    rw [List.getLast?_map, Option.getD_map]
  have hall : middle.map (Vertex.under v) ++ [worst.under v] =
      (middle ++ [worst]).map (Vertex.under v) := by
    rw [List.map_append, List.map_singleton]
  simp only [turn, reflected_under (u := u), expanded_under (u := u), contracted_under (u := u), hall,
    shrunk_under (u := u), hgetD, le_under h hb hr, lt_under h hr hsecond, lt_under h hr hb,
    lt_under h he hr, lt_under h hc hw]
  split_ifs <;> simp [Vertex.under, vertexAt]

/-- **A step goes on as before.** -/
theorem step_under (hs : s.Sound u dim) :
    ((s.under v).step v o).simplex = (s.step u o).simplex.under v ∧
      ((s.under v).step v o).asked = (s.step u o).asked ∧
      ((s.under v).step v o).move = (s.step u o).move := by
  rcases List.eq_nil_or_concat' s.others with hothers | ⟨middle, worst, hothers⟩
  · have hunder : (s.under v).others = [] := by rw [under, hothers, List.map_nil]
    rw [step_of_nil hothers, step_of_nil hunder]
    exact ⟨rfl, rfl, rfl⟩
  · have hunder : (s.under v).others = middle.map (Vertex.under v) ++ [worst.under v] := by
      rw [under, hothers, List.map_append, List.map_singleton]
    have hb : s.best.IsOf u dim := hs.isOf s.best_mem
    have hm : ∀ w ∈ middle, w.IsOf u dim := fun w hw =>
      hs.isOf (mem_vertices_of_append hothers hw)
    have hw : worst.IsOf u dim := hs.isOf (last_mem_vertices hothers)
    have hturn : turn v o (s.under v).best (middle.map (Vertex.under v)) (worst.under v) = _ :=
      turn_under h hb hm hw
    rw [step_of_append hothers, step_of_append hunder, hturn]
    refine ⟨ranked_under h ?_, rfl, rfl⟩
    intro w hmem
    rcases List.mem_cons.mp hmem with rfl | hmem
    · exact hb
    · have ht := isTurn_turn u o s.best middle worst
      rcases ht.mem_others hmem with hmem | ⟨hasked, heq⟩
      · exact hm w hmem
      · exact ⟨ht.length_of_mem_asked hs.length_best (hs.length_middle hothers)
          (hs.length_last hothers) hasked, heq⟩

/-! ### Whole runs -/

theorem first_under (hx : x.length = dim) : first v o x = (first u o x).under v := by
  have hmap : (Search.neighbours o x).map (vertexAt v) =
      ((Search.neighbours o x).map (vertexAt u)).map (Vertex.under v) := by
    rw [List.map_map]
    rfl
  rw [first, first, hmap]
  show ranked ((vertexAt u x).under v) _ = _
  refine ranked_under h fun w hw => ?_
  rcases List.mem_cons.mp hw with rfl | hw
  · exact isOf_vertexAt hx
  · obtain ⟨p, hp, rfl⟩ := List.mem_map.mp hw
    exact isOf_vertexAt ((length_of_mem_neighbours hp).trans hx)

/-- **A run goes through the same simplices.** -/
theorem trajectory_under (hx : x.length = dim) (k : Nat) :
    trajectory v o x k = (trajectory u o x k).under v := by
  induction k with
  | zero => exact first_under h hx
  | succ k ih =>
    rw [trajectory, ih]
    exact (step_under h (hx ▸ sound_trajectory x k)).1

/-- It asks for the same points. -/
theorem questions_eq (hx : x.length = dim) (k : Nat) :
    questions v o x k = questions u o x k := by
  induction k with
  | zero => rfl
  | succ k ih =>
    rw [questions, questions, ih, trajectory_under h hx]
    rw [(step_under h (hx ▸ sound_trajectory x k)).2.1]

/-- It makes the same moves. -/
theorem moves_eq (hx : x.length = dim) (k : Nat) :
    (noted v o x k).filterMap Note.move? = (noted u o x k).filterMap Note.move? := by
  induction k with
  | zero => rw [noted, noted, filterMap_move?_firstNotes, filterMap_move?_firstNotes]
  | succ k ih =>
    rw [noted, noted, List.filterMap_append, List.filterMap_append, ih, filterMap_move?_step,
      filterMap_move?_step, trajectory_under h hx, (step_under h (hx ▸ sound_trajectory x k)).2.2]

end Steps

end Simplex

namespace InPlace

open Simplex

variable {f g : Objective} {u v : Point → Float} {x : Point}

/-- **Values guide a search through their order alone.** Let two objectives of one dimension answer
every call and rank the points alike, and start two searches at one point with the same options. After
any number of iterations the two have asked for the same points in the same order and made the same
moves, their vertices are the same points by rank, and their callers have been given the same point. -/
theorem iterations_rank_alike (hf : f.Answers u) (hg : g.Answers v) (hdim : g.dim = f.dim)
    (h : RankAlike f.dim u v) (o : Options) (hx : x.length = f.dim) (k : Nat) :
    ∃ t t' vs vs', iterations f k (start f o x) = .ok () t ∧
      iterations g k (start g o x) = .ok () t' ∧ t'.asked = t.asked ∧
      t'.notes.toList.filterMap Note.move? = t.notes.toList.filterMap Note.move? ∧
      t.slots.vertices? = some vs ∧ t'.slots.vertices? = some vs' ∧
      vs'.map Vertex.point = vs.map Vertex.point ∧ t'.point = t.point := by
  obtain ⟨t, ht, hst⟩ := exists_iterations hf o hx k
  obtain ⟨t', ht', hst'⟩ := exists_iterations hg o (hx.trans hdim.symm) k
  rw [hdim] at hst'
  refine ⟨t, t', _, _, ht, ht', ?_, ?_, hst.vertices?, hst'.vertices?, ?_, ?_⟩
  · rw [← Array.toList_inj, hst.asked, hst'.asked, questions_eq h hx]
  · rw [hst.notes, hst'.notes]
    split
    · rfl
    · exact moves_eq h hx k
  · split
    · rfl
    · rw [trajectory_under h hx]
      exact map_point_under (trajectory u (o.inEffect f.dim) x k).vertices
  · cases k with
    | zero => exact Tracks.point hst'.toTracks |>.trans (Tracks.point hst.toTracks).symm
    | succ k =>
      rw [hst.point, hst'.point, trajectory_under h hx]
      rfl

/-- Whether a search meets one and two, or seven and nothing at all, on the two sides of an edge, it
takes the same way. -/
theorem iterations_rank_alike_edge :
    let f : Objective := .ofFunction 1 fun p => .ok (if p.headD 0 < 1 then 1 else 2)
    let g : Objective := .ofFunction 1 fun p => .ok (if p.headD 0 < 1 then 7 else 0 / 0)
    ∃ t t', iterations f 3 (start f {} [1]) = .ok () t ∧
      iterations g 3 (start g {} [1]) = .ok () t' ∧ t'.asked = t.asked ∧ t'.point = t.point := by
  intro f g
  have hf : f.Answers fun p => if p.headD 0 < 1 then 1 else 2 := fun call p hp => if_pos hp
  have hg : g.Answers fun p => if p.headD 0 < 1 then 7 else 0 / 0 := fun call p hp => if_pos hp
  have hfd : f.dim = 1 := rfl
  have hgd : g.dim = 1 := rfl
  have hrank : RankAlike f.dim (fun p => if p.headD 0 < 1 then 1 else 2)
      (fun p => if p.headD 0 < 1 then 7 else 0 / 0) := by
    intro p q _ _
    by_cases hp : p.headD 0 < 1 <;> by_cases hq : q.headD 0 < 1 <;>
      simp only [hp, hq, if_true, if_false] <;> decide +kernel
  obtain ⟨t, t', -, -, ht, ht', hasked, -, -, -, -, hpoint⟩ :=
    iterations_rank_alike hf hg (hgd.trans hfd.symm) hrank {} (x := [1]) hfd.symm 3
  exact ⟨t, t', ht, ht', hasked, hpoint⟩

end InPlace

end Downhill
