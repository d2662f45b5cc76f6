import Downhill.Objective.Benchmark
import Downhill.Proofs.Float.Difference
import Downhill.Proofs.Simplex.Lockstep

/-!
# Runs in place

A run in place on an objective that answers follows the machine on ranked lists. This module puts
together what each iteration in place is (`iterate_alike`) and what it is to the machine.

What is proved: after every number of iterations the slots hold, by rank, the simplex of the
trajectory, and the points asked for and the notes taken are those of the machine, in order
(`exists_iterations`, `iterations_follow_trajectory`); only before the first iteration there are no
vertices yet. And what one may rely on after an iteration (`iterate_leaves_ranked`): the vertices stand
in order and hold the values of their points, the best one is what the caller is given, and the spread
is no less than zero unless no vertex is finite, and then no number.
-/

namespace Downhill

namespace Simplex

variable {value : Point → Float} {o : Options} {dim : Nat} {s : Simplex}

/-- The points asked for up to a simplex of the trajectory, in order. -/
def questions (value : Point → Float) (o : Options) (x : Point) : Nat → List Point
  | 0 => x :: Search.neighbours o x
  | k + 1 => questions value o x k ++ ((trajectory value o x k).step value o).asked

/-- The notes taken up to a simplex of the trajectory, in order. -/
def noted (value : Point → Float) (o : Options) (x : Point) : Nat → List Note
  | 0 => firstNotes value o x
  | k + 1 => noted value o x k ++ ((trajectory value o x k).step value o).notes

/-! ### Values and their spread -/

theorem Sound.ne_neg_infinity (hs : s.Sound value dim) {v : Vertex} (hv : v ∈ s.vertices) :
    v.value ≠ -infinity :=
  (hs.isRanked hv).ne_neg_infinity

/-- The best value is finite if any is. -/
theorem Sound.isFinite_best (hs : s.Sound value dim) {v : Vertex} (hv : v ∈ s.vertices)
    (hfin : v.value.isFinite = true) : s.best.value.isFinite = true :=
  (hs.isRanked s.best_mem).isFinite_of_le hfin (hs.ordered.best_le hv)

/-- **The spread is not below zero** if a value is finite. -/
theorem Sound.zero_le_spread (hs : s.Sound value dim) {v : Vertex} (hv : v ∈ s.vertices)
    (hne : v.value ≠ infinity) : 0 ≤ s.spread := by
  have hfin : v.value.isFinite = true := (hs.isRanked hv).resolve_right hne
  exact zero_le_sub (hs.isFinite_best hv hfin) (hs.ordered.best_le s.worst_mem)

/-- **The spread is no number** if no value is finite. -/
theorem isNaN_spread (h : ∀ v ∈ s.vertices, v.value = infinity) : s.spread.isNaN = true := by
  rw [spread, h _ s.worst_mem, h _ s.best_mem]
  exact isNaN_infinity_sub_infinity

end Simplex

namespace InPlace

open Simplex

variable {f : Objective} {value : Point → Float} {o : Options} {x : Point} {dim k : Nat} {t : Store}

/-! ### Along the trajectory -/

/-- The search stands where the machine stands after so many steps, and has asked and noted what the
machine has. Before the first one it has not begun. -/
def Stands (value : Point → Float) (o : Options) (x : Point) (dim : Nat) : Nat → Store → Prop
  | 0, t => Keeps o x dim t {}
  | k + 1, t => ∃ s, Keeps o (trajectory value o x (k + 1)).best.point dim t s ∧
      s.simplex = some (trajectory value o x (k + 1)) ∧
      s.asked.toList = questions value o x (k + 1) ∧ s.notes.toList = noted value o x (k + 1)

theorem stands_start (f : Objective) (value : Point → Float) (o : Options) (x : Point) :
    Stands value (o.inEffect f.dim) x f.dim 0 (start f o x) where
  options := rfl
  point := rfl
  drafts d := by cases d <;> exact List.length_replicate
  asked := rfl
  notes := rfl
  simplex := rfl

/-- What ends alike with a result has a result. -/
theorem Alike.exists_of_ok {α β : Type} {onFault : Store → Search → Prop}
    {onValue : α → Store → β → Search → Prop} {r : EStateM.Result Halt Store α} {b : β} {s : Search}
    (h : Alike onFault onValue r (.ok b s)) : ∃ a t, r = .ok a t ∧ onValue a t b s := by
  cases h with
  | value hv => exact ⟨_, _, rfl, hv⟩

/-- What ends alike with a fault meets that fault. -/
theorem Alike.exists_of_fault {α β : Type} {onFault : Store → Search → Prop}
    {onValue : α → Store → β → Search → Prop} {r : EStateM.Result Halt Store α} {why : Fault}
    {s : Search} (h : Alike onFault onValue r (.error (.fault why) s)) :
    ∃ t, r = .error (.fault why) t ∧ onFault t s := by
  cases h with
  | fault hf => exact ⟨_, rfl, hf⟩

/-- **One more iteration is one more step.** -/
theorem exists_iterate (h : f.Answers value) (hx : x.length = f.dim)
    (ht : Stands value o x f.dim k t) :
    ∃ t', iterate f t = .ok (trajectory value o x (k + 1)).best.value t' ∧
      Stands value o x f.dim (k + 1) t' := by
  cases k with
  | zero =>
    have halike := iterate_alike ht hx
    rw [Search.iterate_of_answers_of_none h rfl hx] at halike
    obtain ⟨y, t', hrun, rfl, hkeeps, -⟩ := halike.exists_of_ok
    refine ⟨t', hrun, _, hkeeps, rfl, ?_, ?_⟩
    · simp [questions, trajectory]
    · simp [noted, trajectory]
  | succ k =>
    obtain ⟨s, hkeeps, hσ, hasked, hnoted⟩ := ht
    have hsound : (trajectory value o x (k + 1)).Sound value f.dim := hx ▸ sound_trajectory x (k + 1)
    have hlen : (trajectory value o x (k + 1)).best.point.length = f.dim := hsound.length_best
    have halike := iterate_alike (f := f) hkeeps hlen
    rw [Search.iterate_of_answers_of_some h hsound hσ hlen] at halike
    obtain ⟨y, t', hrun, rfl, hkeeps', -⟩ := halike.exists_of_ok
    refine ⟨t', hrun, _, hkeeps', rfl, ?_, ?_⟩
    · simp [questions, hasked]
    · simp [noted, hnoted]

/-- **A run stands where the machine does.** -/
theorem exists_iterations (h : f.Answers value) (o : Options) (hx : x.length = f.dim) (k : Nat) :
    ∃ t, iterations f k (start f o x) = .ok () t ∧
      Stands value (o.inEffect f.dim) x f.dim k t := by
  induction k with
  | zero => exact ⟨_, rfl, stands_start f value o x⟩
  | succ k ih =>
    obtain ⟨t, hrun, ht⟩ := ih
    obtain ⟨t', hnext, ht'⟩ := exists_iterate h hx ht
    refine ⟨t', ?_, ht'⟩
    rw [iterations, bind_of_ok hrun, bind_of_ok hnext]
    rfl

theorem Stands.vertices? {t : Store} (ht : Stands value o x dim k t) :
    t.slots.vertices? = some (if k = 0 then [] else (trajectory value o x k).vertices) := by
  cases k with
  | zero =>
    have hempty : t.slots = {} := ht.simplex
    rw [hempty, if_pos rfl]
    rfl
  | succ k =>
    obtain ⟨s, hkeeps, hσ, -⟩ := ht
    rw [(hkeeps.holds hσ).vertices?_eq, if_neg (Nat.succ_ne_zero k)]

theorem Stands.asked {t : Store} (ht : Stands value o x dim k t) :
    t.asked.toList = if k = 0 then [] else questions value o x k := by
  cases k with
  | zero =>
    have hempty : t.asked = #[] := Tracks.asked ht.toTracks
    rw [hempty, if_pos rfl]
  | succ k =>
    obtain ⟨s, hkeeps, -, hasked, -⟩ := ht
    rw [hkeeps.asked, hasked, if_neg (Nat.succ_ne_zero k)]

theorem Stands.notes {t : Store} (ht : Stands value o x dim k t) :
    t.notes.toList = if k = 0 then [] else noted value o x k := by
  cases k with
  | zero =>
    have hempty : t.notes = #[] := Tracks.notes ht.toTracks
    rw [hempty, if_pos rfl]
  | succ k =>
    obtain ⟨s, hkeeps, -, -, hnoted⟩ := ht
    rw [hkeeps.notes, hnoted, if_neg (Nat.succ_ne_zero k)]

/-- The caller has been given the best point. -/
theorem Stands.point (ht : Stands value o x dim (k + 1) t) :
    t.point = (trajectory value o x (k + 1)).best.point := by
  obtain ⟨s, hkeeps, -⟩ := ht
  exact hkeeps.point

theorem Stands.spread? (ht : Stands value o x dim (k + 1) t) :
    t.slots.spread? = some (trajectory value o x (k + 1)).spread := by
  obtain ⟨s, hkeeps, hσ, -⟩ := ht
  rw [spread, worst_eq_getLast]
  exact (hkeeps.holds hσ).spread?_eq

/-- **A run in place is the machine.** After every number of iterations the vertices by rank are the
simplex of the machine after as many steps, and the points asked for are those the machine asks for,
in order. Before the first iteration there are no vertices and nothing has been asked. -/
theorem iterations_follow_trajectory (h : f.Answers value) (o : Options) (hx : x.length = f.dim)
    (k : Nat) :
    ∃ t, iterations f k (start f o x) = .ok () t ∧
      t.slots.vertices? =
        some (if k = 0 then [] else (trajectory value (o.inEffect f.dim) x k).vertices) ∧
      t.asked.toList = if k = 0 then [] else questions value (o.inEffect f.dim) x k := by
  obtain ⟨t, hrun, ht⟩ := exists_iterations h o hx k
  exact ⟨t, hrun, ht.vertices?, ht.asked⟩

/-- It takes an iteration until there are vertices: before the first one the machine has a simplex
already, and the search has none. -/
theorem not_forall_vertices_eq_trajectory :
    let value : Point → Float := fun p => Benchmark.laneSum (p.map Benchmark.square)
    let f : Objective := .ofFunction 1 fun p => .ok (value p)
    ¬ ∀ k, ∃ t, iterations f k (start f {} [1]) = .ok () t ∧
      t.slots.vertices? = some (trajectory value (Options.inEffect {} 1) [1] k).vertices := by
  intro value f h
  obtain ⟨t, hrun, hvertices⟩ := h 0
  obtain rfl : start f {} [1] = t := EStateM.Result.ok.inj hrun |>.2
  have hnone : (start f {} [1]).slots.vertices? = some [] := rfl
  rw [hnone] at hvertices
  exact List.cons_ne_nil _ _ (Option.some.inj hvertices).symm

/-- A parabola, from its least point on: the first simplex is contracted. -/
theorem iterations_follow_trajectory_parabola :
    let f : Objective := .ofFunction 1 fun p => .ok ((p.headD 0 - 1) * (p.headD 0 - 1))
    ∃ t, iterations f 1 (start f {} [1]) = .ok () t ∧
      t.slots.vertices? = some [⟨[1], 0⟩, ⟨[1.025], (1.025 - 1) * (1.025 - 1)⟩] ∧
      t.asked.toList = [[1], [1.05], [0.95], [1.025]] := by
  intro f
  let value : Point → Float := fun p => (p.headD 0 - 1) * (p.headD 0 - 1)
  let o : Options := Options.inEffect {} 1
  let worst : Vertex := ⟨[1.05], (1.05 - 1) * (1.05 - 1)⟩
  let σ : Simplex := ⟨⟨[1], 0⟩, [worst]⟩
  have hf : f.Answers value := fun call p hp => if_pos hp
  have hfirst : first value o [1] = σ := by
    have hv : vertexAt value [1] = σ.best := by decide +kernel
    have hvs : (Search.neighbours o [1]).map (vertexAt value) = σ.others := by decide +kernel
    rw [first, hv, hvs]
    exact ranked_of_pairwise (by decide +kernel)
  have hturn : (turn value o σ.best [] worst).others =
      [⟨[1.025], (1.025 - 1) * (1.025 - 1)⟩] := by decide +kernel
  have hasked : (σ.step value o).asked = [[0.95], [1.025]] := by decide +kernel
  have hstep : (σ.step value o).simplex = ⟨σ.best, [⟨[1.025], (1.025 - 1) * (1.025 - 1)⟩]⟩ := by
    change ranked σ.best (turn value o σ.best [] worst).others = _
    rw [hturn]
    exact ranked_of_pairwise (by decide +kernel)
  have hx : ([1] : Point).length = f.dim := rfl
  obtain ⟨t, hrun, hvertices, hquestions⟩ := iterations_follow_trajectory hf {} hx 1
  refine ⟨t, hrun, ?_, ?_⟩
  · rw [hvertices, if_neg Nat.one_ne_zero, trajectory, trajectory]
    change some ((first value o [1]).step value o).simplex.vertices = _
    rw [hfirst, hstep]
    rfl
  · rw [hquestions, if_neg Nat.one_ne_zero, questions, questions, trajectory]
    change [1] :: Search.neighbours o [1] ++ ((first value o [1]).step value o).asked = _
    rw [hfirst, hasked]
    decide +kernel

/-! ### What an iteration leaves -/

/-- **After an iteration the vertices are ranked**: there is one more than there are dimensions, and
their values do not fall from one to a later one. A value is that of its point as it ranks, hence
neither below all numbers nor no number, and the best one is finite if any is. The caller is given the
best point and the best value. The spread is the last value less the first: not below zero, or no
number where no value is finite. -/
theorem iterate_leaves_ranked (h : f.Answers value) (o : Options) (hx : x.length = f.dim) (k : Nat) :
    ∃ t t' best others d, iterations f k (start f o x) = .ok () t ∧
      iterate f t = .ok best.value t' ∧ t'.point = best.point ∧
      t'.slots.vertices? = some (best :: others) ∧ others.length = f.dim ∧
      ((best :: others).Pairwise fun v w => v.value ≤ w.value) ∧
      (∀ v ∈ best :: others, v.value.isNaN = false ∧ v.value ≠ -infinity ∧
        ∀ call, ∃ y, f.apply call v.point = .ok y ∧ v.value = rankedValue y) ∧
      ((∃ v ∈ best :: others, v.value.isFinite = true) → best.value.isFinite = true) ∧
      t'.slots.spread? = some d ∧
      d = ((best :: others).getLast (List.cons_ne_nil _ _)).value - best.value ∧
      ((∃ v ∈ best :: others, v.value ≠ infinity) → 0 ≤ d) ∧
      ((∀ v ∈ best :: others, v.value = infinity) → d.isNaN = true) := by
  obtain ⟨t, hrun, ht⟩ := exists_iterations h o hx k
  obtain ⟨t', hnext, ht'⟩ := exists_iterate h hx ht
  have hpoint := ht'.point
  have hvertices := ht'.vertices?
  have hspread := ht'.spread?
  rw [if_neg (Nat.succ_ne_zero k)] at hvertices
  have hsound : (trajectory value (o.inEffect f.dim) x (k + 1)).Sound value f.dim :=
    hx ▸ sound_trajectory x (k + 1)
  generalize trajectory value (o.inEffect f.dim) x (k + 1) = σ at hnext hpoint hvertices hspread hsound
  refine ⟨t, t', σ.best, σ.others, σ.spread, hrun, hnext, hpoint, hvertices, hsound.length_others,
    hsound.ordered.pairwise, ?_, ?_, hspread, ?_, ?_, fun hall => isNaN_spread hall⟩
  · intro v hv
    refine ⟨hsound.ordered.isNaN v hv, hsound.ne_neg_infinity hv, fun call => ?_⟩
    exact ⟨_, h call v.point (hsound.length_point v hv),
      congrArg Vertex.value (hsound.eq_vertexAt v hv)⟩
  · rintro ⟨v, hv, hfin⟩
    exact hsound.isFinite_best hv hfin
  · rw [spread, worst_eq_getLast]
    rfl
  · rintro ⟨v, hv, hne⟩
    exact hsound.zero_le_spread hv hne

/-- Where nothing has a finite value, all vertices are infinite and the spread is no number. -/
theorem iterate_leaves_ranked_nowhere_finite :
    let f : Objective := .ofFunction 1 fun _ => .ok (0 / 0)
    ∃ t t' d, iterations f 2 (start f {} [1]) = .ok () t ∧ iterate f t = .ok infinity t' ∧
      t'.slots.spread? = some d ∧ d.isNaN = true := by
  intro f
  have hf : f.Answers fun _ => 0 / 0 := fun call p hp => if_pos hp
  have hx : ([1] : Point).length = f.dim := rfl
  obtain ⟨t, t', best, others, d, hrun, hnext, -, -, -, -, hvalues, -, hspread, -, -, hnan⟩ :=
    iterate_leaves_ranked hf {} hx 2
  have hinfinite : ∀ v ∈ best :: others, v.value = infinity := by
    intro v hv
    obtain ⟨y, hy, hvalue⟩ := (hvalues v hv).2.2 0
    by_cases hp : v.point.length = 1
    · have hzero : f.apply 0 v.point = .ok (0 / 0) := if_pos hp
      rw [hzero] at hy
      rw [hvalue, ← Except.ok.inj hy]
      exact rankedValue_of_not_isFinite (by decide +kernel)
    · have hrefused : f.apply 0 v.point = .error (.dimension 1 v.point.length) := if_neg hp
      rw [hrefused] at hy
      cases hy
  rw [hinfinite best List.mem_cons_self] at hnext
  exact ⟨t, t', d, hrun, hnext, hspread, hnan hinfinite⟩

end InPlace

end Downhill
