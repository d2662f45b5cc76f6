import Downhill.Proofs.Simplex.Unanswered

/-!
# Results after faults

A shrinkage that gets no answer leaves a vertex with the value of another point. A caller that goes on
has such a vertex ranked with the others, and if it became the best one, the next result would not be
the value of the point that comes with it.

One such vertex does no harm. As long as no shrinkage has been broken off, no vertex is better than
the best one, which holds an answer (`Settled`). The vertex that is left with an old value is therefore
no better than the best one either (`Guarded`), and as equal vertices keep their order, it does not
come before it. Once an iteration is completed the simplex is settled again.

What is proved: where a completed iteration lies between any two that are broken off in a shrinkage
(`Spaced`), every result is the value of the point that comes with it (`result_of_spaced`). Without
that condition it need not be: a vertex that has been shrunk once may hold a value below the best one,
and if the next shrinkage is broken off at this vertex, it keeps that value at another point
(`not_forall_result_eq_value`).
-/

namespace Downhill

/-- Every answer of the objective is the value of the point, but there need not be one. -/
def Objective.AnswersAt (f : Objective) (value : Point → Float) : Prop :=
  ∀ call p y, f.apply call p = .ok y → y = value p

namespace Simplex

variable {f : Objective} {o : Options} {σ σ' : Simplex} {others : List Vertex}

/-! ### Where values of other points may stand -/

/-- The best vertex holds an answer, and no other one is better. -/
structure Settled (f : Objective) (σ : Simplex) : Prop where
  /-- The best value is an answer. -/
  best : σ.best.AnsweredBy f
  /-- It is the least. -/
  least : ∀ v ∈ σ.others, σ.best.value ≤ v.value

/-- The best vertex holds an answer, and one that holds none is no better. -/
structure Guarded (f : Objective) (σ : Simplex) : Prop where
  /-- The best value is an answer. -/
  best : σ.best.AnsweredBy f
  /-- So is every value below it. -/
  answered : ∀ v ∈ σ.others, v.AnsweredBy f ∨ σ.best.value ≤ v.value

theorem Laid.settled (h : Laid f σ) : Settled f σ where
  best := h.answered _ σ.best_mem
  least _ hv := h.ordered.best_le (List.mem_cons_of_mem _ hv)

theorem Settled.guarded (h : Settled f σ) : Guarded f σ where
  best := h.best
  answered v hv := .inr (h.least v hv)

/-- A vertex whose value is that of one from before is no better than the best one. -/
theorem Settled.guarded_of_torn (h : Settled f σ) {n : Nat} (htorn : Torn f o σ n σ') :
    Guarded f σ' where
  best := by
    rw [htorn.best_eq]
    exact h.best
  answered w hw := by
    rcases htorn.mem hw with hw | ⟨v, hv, heq⟩
    · exact .inl hw
    · rw [htorn.best_eq, heq]
      exact .inr (h.least v hv)

/-- **A completed move settles the simplex.** -/
theorem Guarded.settled_of_moves (h : Guarded f σ) (hmoves : Moves f o σ others) :
    Settled f (ranked σ.best others) := by
  have hcases : ∀ w ∈ σ.best :: others, w = σ.best ∨ w.AnsweredBy f ∨ σ.best.value ≤ w.value := by
    intro w hw
    rcases List.mem_cons.mp hw with rfl | hw
    · exact .inl rfl
    rcases hmoves.mem hw with hw | hw
    · exact .inr (h.answered w hw)
    · exact .inr (.inl hw)
  have hnum : ∀ w ∈ σ.best :: others, w.value.isNaN = false := by
    intro w hw
    rcases hcases w hw with rfl | hw | hw
    · exact h.best.isRanked.isNaN
    · exact hw.isRanked.isNaN
    · exact (isNaN_of_le hw).2
  have hordered := ordered_ranked hnum
  refine ⟨?_, fun w hw => hordered.best_le (List.mem_cons_of_mem _ hw)⟩
  rcases best_ranked hnum with heq | hlt
  · rw [heq]
    exact h.best
  · have hmem : (ranked σ.best others).best ∈ σ.best :: others := mem_ranked.mp (best_mem _)
    rcases hcases _ hmem with heq | hw | hle
    · rw [heq]
      exact h.best
    · exact hw
    · -- it is strictly better than the best one was
      exact absurd hlt ((float_not_lt_iff (hnum _ hmem) h.best.isRanked.isNaN).mpr hle)

/-- What is so of a simplex in a run: it is guarded, and settled unless it may be torn. -/
def Kept (f : Objective) (torn : Bool) (σ : Simplex) : Prop :=
  if torn then Guarded f σ else Settled f σ

theorem Kept.guarded {torn : Bool} (h : Kept f torn σ) : Guarded f σ := by
  cases torn with
  | false => exact Settled.guarded h
  | true => exact h

theorem Laid.kept (h : Laid f σ) (torn : Bool) : Kept f torn σ := by
  cases torn with
  | false => exact h.settled
  | true => exact h.settled.guarded

end Simplex

namespace Search

open Simplex

variable {f : Objective} {o : Options} {x : Point} {s s' : Search} {σ : Simplex}

/-! ### One iteration -/

/-- A completed iteration settles the simplex, and its best vertex holds an answer. -/
theorem Completed.settled {reached : Reached} (h : Completed f o σ reached s') (hσ : Guarded f σ) :
    s'.Obeys (Settled f) ∧ reached.best.AnsweredBy f := by
  obtain ⟨others, hmoves, hs', hbest⟩ := h
  have hsettled := hσ.settled_of_moves hmoves
  refine ⟨obeys_of_some hs' hsettled, ?_⟩
  rw [hbest]
  exact hsettled.best

theorem BrokenOff.guarded (h : BrokenOff f o σ s s') (hs : s.simplex = some σ) (hσ : Settled f σ) :
    s'.Obeys (Guarded f) := by
  rcases h with ⟨hs', -⟩ | ⟨n, τ, htorn, hs', -⟩
  · exact obeys_of_some (hs'.trans hs) hσ.guarded
  · exact obeys_of_some hs' (hσ.guarded_of_torn htorn)

/-- Only a shrinkage asks for more than two points before it ends. -/
theorem BrokenOff.simplex_eq (h : BrokenOff f o σ s s') (hle : s'.asked.size ≤ s.asked.size + 2) :
    s'.simplex = s.simplex := by
  rcases h with ⟨hs', -⟩ | ⟨n, τ, -, -, hsize⟩
  · exact hs'
  · omega

/-- **A guarded simplex is settled by an iteration with a result**, which is an answer. -/
theorem iterate_settles (h : s.Obeys (Guarded f)) :
    Ends (fun reached s' => s'.Obeys (Settled f) ∧ reached.best.AnsweredBy f) (fun _ => True)
      (iterate f o x s) := by
  cases hs : s.simplex with
  | some σ =>
    exact (iterate_ends_of_some hs).mono (fun _ _ hend => hend.settled (h σ hs)) fun _ _ => trivial
  | none =>
    refine (iterate_ends_of_none hs).mono ?_ fun _ _ => trivial
    rintro reached s' ⟨σ, hσ, hend⟩
    exact hend.settled hσ.settled.guarded

/-- **A settled simplex is left guarded** by an iteration that gets no answer. -/
theorem iterate_guards (h : s.Obeys (Settled f)) :
    Ends (fun _ _ => True) (fun s' => s'.Obeys (Guarded f)) (iterate f o x s) := by
  cases hs : s.simplex with
  | some σ =>
    exact (iterate_ends_of_some hs).mono (fun _ _ _ => trivial) fun _ hend => hend.guarded hs (h σ hs)
  | none =>
    refine (iterate_ends_of_none hs).mono (fun _ _ _ => trivial) ?_
    rintro s' (⟨hs', -⟩ | ⟨σ, s₁, hσ, hs₁, -, hend⟩)
    · exact obeys_of_none hs'
    · exact hend.guarded hs₁ hσ.settled

end Search

namespace InPlace

open Simplex

variable {f : Objective} {value : Point → Float} {o : Options} {t t' : Store} {torn : Bool}
  {P : Simplex → Prop}

/-! ### Runs -/

/-- The number of questions before a shrinkage: for the first simplex, where it is still to be laid,
and two for other moves. -/
def Store.before (t : Store) (dim : Nat) : Nat :=
  (if t.slots.points.isEmpty then dim + 1 else 0) + 2

/-- The stores that callers come to, whose points have the dimension, where a completed iteration lies
between any two that are broken off in a shrinkage. It is kept in mind whether there has been one
since. -/
inductive Spaced (f : Objective) (o : Options) : Bool → Store → Prop
  /-- A search is started. -/
  | start {x : Point} (hx : x.length = f.dim) : Spaced f o false (start f o x)
  /-- An iteration has a result. -/
  | completed {torn : Bool} {t t' : Store} {y : Float} (ht : Spaced f o torn t)
      (h : iterate f t = .ok y t') : Spaced f o false t'
  /-- An iteration gets no answer before a shrinkage. -/
  | unanswered {torn : Bool} {t t' : Store} {e : Halt} (ht : Spaced f o torn t)
      (h : iterate f t = .error e t') (hle : t'.asked.size ≤ t.asked.size + t.before f.dim) :
      Spaced f o torn t'
  /-- An iteration gets no answer, and may be broken off in a shrinkage. -/
  | tears {t t' : Store} {e : Halt} (ht : Spaced f o false t) (h : iterate f t = .error e t') :
      Spaced f o true t'
  /-- The search is reset. -/
  | reset {torn : Bool} {t : Store} (ht : Spaced f o torn t) : Spaced f o false t.reset
  /-- The caller moves its point. -/
  | moved {torn : Bool} {t : Store} {x : Point} (ht : Spaced f o torn t) (hx : x.length = f.dim) :
      Spaced f o torn { t with point := x }

/-- A result is an answer, and the simplex is settled after it. -/
theorem Follows.settled_of_ok (h : Follows o f.dim (Guarded f) t) (hx : t.point.length = f.dim)
    {y : Float} (hr : iterate f t = .ok y t') :
    Follows o f.dim (Settled f) t' ∧ t'.point.length = f.dim ∧
      ∃ call z, f.apply call t'.point = .ok z ∧ y = rankedValue z := by
  obtain ⟨s, hkeeps, hs⟩ := h
  obtain ⟨reached, s', hr', hkeeps', hy, hpoint, hlen⟩ := hkeeps.of_ok hx hr
  have hend := Search.iterate_settles (f := f) (o := o) (x := t.point) hs
  rw [hr'] at hend
  obtain ⟨hsettled, call, z, hz, hvalue⟩ := hend
  refine ⟨⟨s', hkeeps', hsettled⟩, hlen, call, z, ?_, ?_⟩
  · rw [hpoint]
    exact hz
  · rw [hy]
    exact hvalue

/-- Where there is no answer, a settled simplex is left guarded. -/
theorem Follows.guarded_of_error (h : Follows o f.dim (Settled f) t) (hx : t.point.length = f.dim)
    {e : Halt} (hr : iterate f t = .error e t') :
    Follows o f.dim (Guarded f) t' ∧ t'.point = t.point := by
  obtain ⟨s, hkeeps, hs⟩ := h
  obtain ⟨why, s', -, hr', hkeeps', hpoint⟩ := hkeeps.of_error hx hr
  have hend := Search.iterate_guards (f := f) (o := o) (x := t.point) hs
  rw [hr'] at hend
  exact ⟨⟨s', hkeeps', hend⟩, hpoint⟩

/-- Where it is no shrinkage that gets no answer, the simplex stays, or one has been laid. -/
theorem Follows.of_unanswered (h : Follows o f.dim P t) (hlaid : ∀ σ, Laid f σ → P σ)
    (hx : t.point.length = f.dim) {e : Halt} (hr : iterate f t = .error e t')
    (hle : t'.asked.size ≤ t.asked.size + t.before f.dim) :
    Follows o f.dim P t' ∧ t'.point = t.point := by
  obtain ⟨s, hkeeps, hs⟩ := h
  obtain ⟨why, s', -, hr', hkeeps', hpoint⟩ := hkeeps.of_error hx hr
  refine ⟨⟨s', hkeeps', ?_⟩, hpoint⟩
  rw [Store.before, hkeeps.isEmpty_points, hkeeps.asked, hkeeps'.asked] at hle
  cases hσ : s.simplex with
  | some σ =>
    have hend := Search.iterate_ends_of_some (f := f) (o := o) (x := t.point) hσ
    rw [hr'] at hend
    rw [hσ, Option.isNone_some, if_neg Bool.false_ne_true] at hle
    exact Search.obeys_of_some ((hend.simplex_eq hle).trans hσ) (hs σ hσ)
  | none =>
    have hend := Search.iterate_ends_of_none (f := f) (o := o) (x := t.point) hσ
    rw [hr', hx] at hend
    rw [hσ, Option.isNone_none, if_pos rfl] at hle
    rcases hend with ⟨hs', -⟩ | ⟨σ, s₁, hσ, hs₁, hsize, hend⟩
    · exact Search.obeys_of_none hs'
    · have htwo : s'.asked.size ≤ s₁.asked.size + 2 := by omega
      exact Search.obeys_of_some ((hend.simplex_eq htwo).trans hs₁) (hlaid σ hσ)

/-- **In such a run the simplex is guarded**, and settled where it is not torn. -/
theorem Spaced.follows (ht : Spaced f o torn t) :
    Follows (o.inEffect f.dim) f.dim (Kept f torn) t ∧ t.point.length = f.dim := by
  induction ht with
  | start hx => exact ⟨follows_start f o _, hx⟩
  | completed _ hr ih =>
    obtain ⟨hsettled, hlen, -⟩ := (ih.1.mono fun _ => Kept.guarded).settled_of_ok ih.2 hr
    exact ⟨hsettled, hlen⟩
  | unanswered _ hr hle ih =>
    obtain ⟨hfollows, hpoint⟩ := ih.1.of_unanswered (fun _ h => h.kept _) ih.2 hr hle
    exact ⟨hfollows, hpoint ▸ ih.2⟩
  | tears _ hr ih =>
    obtain ⟨hguarded, hpoint⟩ := Follows.guarded_of_error ih.1 ih.2 hr
    exact ⟨hguarded, hpoint ▸ ih.2⟩
  | reset _ ih => exact ⟨ih.1.reset, ih.2⟩
  | moved _ hx ih => exact ⟨ih.1.move _, hx⟩

/-- **A result is the value of the point that comes with it**, as it ranks, if the objective gives
each point one value whenever it answers, and a completed iteration lies between any two that are
broken off in a shrinkage. There is such a value, as some call was answered with it. -/
theorem result_of_spaced (hf : f.AnswersAt value) (ht : Spaced f o torn t) {y : Float}
    (hr : iterate f t = .ok y t') :
    (∃ call, f.apply call t'.point = .ok (value t'.point)) ∧ y = rankedValue (value t'.point) := by
  obtain ⟨hfollows, hx⟩ := ht.follows
  obtain ⟨-, -, call, z, hz, hy⟩ := (hfollows.mono fun _ => Kept.guarded).settled_of_ok hx hr
  obtain rfl := hf _ _ _ hz
  exact ⟨⟨call, hz⟩, hy⟩

/-! ### Two runs -/

/-- The torn search on the flat objective after its next move. -/
def flatMoved : Store :=
  { flatTorn with
    slots := ⟨#[[0], [2]], #[0, 0], #[0, 1]⟩
    drafts := ⟨[0], [-4], [0], [0]⟩
    asked := flatTorn.asked ++ #[[-4], [2], [2]]
    notes := #[.centroid [0], .centroid [0], .centroid [0]] }

/-- The next iteration is completed. -/
def flatMended : Store :=
  { flatMoved with notes := flatMoved.notes.push (.performed .shrinkage 0 0) }

theorem iterate_flatTorn : iterate flat flatTorn = .ok 0 flatMended := by
  have hmove : transform flat 0 flatTorn = .ok .shrinkage flatMoved := by decide +kernel
  have hrank : rank flatMoved = .ok () flatMoved :=
    rank_of_pairwise (by decide +kernel) (by decide +kernel)
  rw [iterate_of_moved rfl rfl hmove hrank]
  decide +kernel

/-- A run with a fault before the first move and one in a shrinkage. -/
theorem result_of_spaced_flat :
    flat.AnswersAt (fun _ => 0) ∧ Spaced flat { zeroStep := 8 } true flatTorn ∧
      iterate flat flatTorn = .ok 0 flatMended ∧
      (∃ call, flat.apply call flatMended.point = .ok 0) ∧ 0 = rankedValue 0 := by
  have hf : flat.AnswersAt fun _ => 0 := by
    intro call p y hy
    simp only [flat] at hy
    split at hy
    · cases hy
    split at hy
    · cases hy
    · exact (Except.ok.inj hy).symm
  have ht : Spaced flat { zeroStep := 8 } true flatTorn :=
    .tears (.unanswered (.start rfl) iterate_flat (by decide)) iterate_flatUnanswered
  exact ⟨hf, ht, iterate_flatTorn, result_of_spaced hf ht iterate_flatTorn⟩

/-- A value of two coordinates that falls towards four and towards negative numbers. -/
def dipValue : Point → Float
  | [a, b] => a * (a - 8) - a * b + b * (8 - b) * (b + 4)
  | _ => 0

/-- An objective of this value, without an answer to two of its calls. -/
def dip : Objective := (Objective.ofFunction 2 fun p => .ok (dipValue p)).failingOn [7, 10]

theorem dip_answersAt : dip.AnswersAt dipValue := by
  intro call p y hy
  simp only [dip, Objective.failingOn, Objective.ofFunction] at hy
  split at hy
  · cases hy
  split at hy
  · exact (Except.ok.inj hy).symm
  · cases hy

/-- The search on it from zero, with a first simplex. -/
def dipLaid : Store where
  options := { zeroStep := 8 }
  slots := ⟨#[[0, 0], [8, 0], [0, 8]], #[0, 0, 0], #[0, 1, 2]⟩
  drafts := ⟨[0, 0], [0, 0], [0, 0], [0, 0]⟩
  point := [0, 0]
  asked := #[[0, 0], [8, 0], [0, 8]]

/-- Its first shrinkage has been broken off at the second vertex. The first one has become better than
the best. -/
def dipTorn : Store :=
  { dipLaid with
    slots := ⟨#[[0, 0], [4, 0], [0, 4]], #[0, -16, 0], #[0, 1, 2]⟩
    drafts := ⟨[4, 0], [8, -8], [0, 0], [0, 0]⟩
    asked := dipLaid.asked ++ #[[8, -8], [2, 4], [4, 0], [0, 4]]
    notes := #[.centroid [4, 0]] }

/-- The second one has been broken off at that vertex, which keeps its value at another point. -/
def dipTornAgain : Store :=
  { dipTorn with
    slots := ⟨#[[0, 0], [2, 0], [0, 4]], #[0, -16, 0], #[0, 1, 2]⟩
    drafts := ⟨[2, 0], [4, -4], [0, 0], [0, 0]⟩
    asked := dipTorn.asked ++ #[[4, -4], [1, 2], [2, 0]]
    notes := #[.centroid [4, 0], .centroid [2, 0]] }

/-- The third move has been completed. -/
def dipMoved : Store :=
  { dipTornAgain with
    slots := ⟨#[[0, 0], [2, 0], [2, -4]], #[0, -16, -4], #[0, 1, 2]⟩
    drafts := ⟨[1, 0], [2, -4], [3, -8], [0, 0]⟩
    asked := dipTornAgain.asked ++ #[[2, -4], [3, -8]]
    notes := #[.centroid [4, 0], .centroid [2, 0], .centroid [1, 0]] }

/-- The vertices have been ranked. -/
def dipRanked : Store :=
  { dipMoved with slots := { dipMoved.slots with order := #[1, 2, 0] } }

/-- The caller has been given the best point. -/
def dipDone : Store :=
  { dipRanked with
    point := [2, 0]
    notes := dipMoved.notes.push (.performed .reflection (-16) 0) }

theorem iterate_dip :
    iterate dip (start dip { zeroStep := 8 } [0, 0]) =
      .error (.fault (.stuck (.malformed 7))) dipTorn := by
  have hlay : layPoints dip (start dip { zeroStep := 8 } [0, 0]) =
      .ok () { dipLaid with slots := { dipLaid.slots with order := #[] } } := by decide +kernel
  have hrank : rank dipLaid = .ok () dipLaid :=
    rank_of_pairwise (by decide +kernel) (by decide +kernel)
  rw [iterate_of_laid rfl hlay rfl hrank]
  decide +kernel

theorem iterate_dipTorn :
    iterate dip dipTorn = .error (.fault (.stuck (.malformed 10))) dipTornAgain := by
  decide +kernel

theorem iterate_dipTornAgain : iterate dip dipTornAgain = .ok (-16) dipDone := by
  have hmove : transform dip 1 dipTornAgain = .ok .reflection dipMoved := by decide +kernel
  -- the values compare as the places of their slots in the result do
  have hsort : dipMoved.slots.order.toList.mergeSort dipMoved.slots.notAfter = [1, 2, 0] := by
    change [0, 1, 2].mergeSort dipMoved.slots.notAfter = [1, 2, 0]
    rw [mergeSort_congr (s := fun i j => decide ((i + 2) % 3 ≤ (j + 2) % 3)) (by decide +kernel)]
    cbv
  have hrank : rank dipMoved = .ok () dipRanked := by
    rw [rank_of_forall_lt (by decide +kernel), hsort]
    rfl
  rw [iterate_of_moved rfl rfl hmove hrank]
  decide +kernel

/-- **A result need not be the value of the point that comes with it.** -/
theorem not_forall_result_eq_value :
    ¬ ∀ (f : Objective) (value : Point → Float) (o : Options) (t t' : Store) (y : Float),
      f.AnswersAt value → Reachable f o t → t.point.length = f.dim → iterate f t = .ok y t' →
      (∃ call, f.apply call t'.point = .ok (value t'.point)) ∧ y = rankedValue (value t'.point) := by
  intro h
  have ht : Reachable dip { zeroStep := 8 } dipTornAgain :=
    .unanswered (.unanswered (.start (.inl rfl)) iterate_dip) iterate_dipTorn
  obtain ⟨-, heq⟩ := h dip dipValue _ _ _ _ dip_answersAt ht rfl iterate_dipTornAgain
  exact absurd heq (by decide +kernel)

end InPlace

end Downhill
