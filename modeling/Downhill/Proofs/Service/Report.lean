import Downhill.Proofs.Service.Leeway

/-!
# What the log of a query tells

A query leaves its lines in the log layer by layer: the service opens and closes, the compiler says
whether the text is a formula, the search tells of its first simplex and of every move. Each layer
may end the query early.

What is proved: the lines tell the same story as the outcome (`lines_tell_outcome`). A query that is
wrong has one line, or two if it is its text that is wrong. Any other query has an opening line, a
line on its formula, one on the points without a finite value exactly if there are such points, two
lines for each iteration, provided there is a coordinate to move, and one closing line that names the
outcome and the number of iterations. The best values in the lines never rise, and the last one is
the value of the outcome.
-/

namespace Downhill

/-- A line of the log. -/
abbrev Line := Level × String

/-- An event as a line of its level. -/
def Event.line (e : Event) : Line := (e.level, e.text)

/-! ### The notes of a run -/

/-- A value is finite as it ranks exactly if it is finite. -/
theorem isFinite_rankedValue (y : Float) : (rankedValue y).isFinite = y.isFinite := by
  cases h : y.isFinite with
  | true => rw [rankedValue_of_isFinite h, h]
  | false => rw [rankedValue_of_not_isFinite h, not_isFinite_infinity]

namespace Simplex

variable {value : Point → Float} {o : Options} {dim : Nat} {s : Simplex} {x : Point}

/-- The notes of a run are those on the first simplex and then those of each step. -/
theorem noted_eq (value : Point → Float) (o : Options) (x : Point) (k : Nat) :
    noted value o x k = firstNotes value o x ++
      (List.range k).flatMap fun i => ((trajectory value o x i).step value o).notes := by
  induction k with
  | zero => exact (List.append_nil _).symm
  | succ k ih => rw [noted, ih, List.range_succ, List.flatMap_append, List.append_assoc,
      List.flatMap_singleton]

/-- The note on the first simplex counts its points without a finite value. -/
theorem firstNotes_eq (value : Point → Float) (o : Options) (x : Point) :
    firstNotes value o x =
      if (x :: Search.neighbours o x).countP (fun p => !(value p).isFinite) = 0 then []
      else [.invalid ((x :: Search.neighbours o x).countP fun p => !(value p).isFinite)
        (x.length + 1)] := by
  have hcount : ((x :: Search.neighbours o x).map (vertexAt value)).countP (!·.value.isFinite) =
      (x :: Search.neighbours o x).countP fun p => !(value p).isFinite := by
    rw [List.countP_map]
    congr 1
    funext p
    exact congrArg not (isFinite_rankedValue _)
  have hlength : ((x :: Search.neighbours o x).map (vertexAt value)).length = x.length + 1 := by
    simp [length_neighbours]
  rw [firstNotes, hcount, hlength]
  split
  · next h => rw [if_neg (Nat.ne_of_gt h)]
  · next h => rw [if_pos (Nat.eq_zero_of_not_pos h)]

/-- Without a coordinate there is nothing to move and nothing to note. -/
theorem notes_step_of_dim_zero (hs : s.Sound value 0) : (s.step value o).notes = [] := by
  rw [step_of_nil (List.eq_nil_of_length_eq_zero hs.length_others)]

/-- Every move is noted by the centroid before and by the best and the worst value after it. -/
theorem exists_notes_step (hs : s.Sound value dim) (hdim : dim ≠ 0) :
    ∃ t, (s.step value o).move = some t ∧ (s.step value o).notes =
      [.centroid (center s.best s.others.dropLast),
        .performed t (s.step value o).simplex.best.value (s.step value o).simplex.worst.value] := by
  rcases List.eq_nil_or_concat' s.others with h | ⟨middle, worst, h⟩
  · exact absurd (hs.length_others.symm.trans (congrArg List.length h)) hdim
  · rw [step_of_append h, h, List.dropLast_concat]
    exact ⟨_, rfl, rfl⟩

end Simplex

namespace Descent

variable {f : Objective} {value : Point → Float} {d : Descent}

/-- After each iteration the search has taken the notes of the machine. -/
theorem notes_after (h : f.Answers value) (hs : d.search.simplex = none)
    (hp : d.point.length = f.dim) (hn : d.search.notes = #[]) (k : Nat) :
    (after f d (k + 1)).search.notes.toList =
      Simplex.noted value d.options d.point (k + 1) := by
  induction k with
  | zero =>
    obtain ⟨moves, history, hi⟩ :=
      iterate_of_ok (Search.iterate_of_answers_of_none (o := d.options) h hs hp)
    have hafter : after f d (0 + 1) = _ := after_succ_of_ok hi
    rw [hafter]
    simp [hn, Simplex.noted, Simplex.trajectory]
  | succ k ih =>
    obtain ⟨-, hst, ho, -⟩ := iterate_after h hs hp k
    have hlen : (after f d (k + 1)).point.length = f.dim := hst.point ▸ hst.sound.length_best
    obtain ⟨moves, history, hi⟩ := iterate_of_ok
      (Search.iterate_of_answers_of_some (o := (after f d (k + 1)).options) h hst.sound hst.simplex
        hlen)
    rw [after_succ_of_ok hi, Simplex.noted, ← ih, ho]
    simp

end Descent

namespace Service

variable {s : Service} {q : Query} {c : Cancellation} {f : Formula}

/-! ### The log and its parts -/

/-- The log of a query, line by line. -/
def lines (s : Service) (q : Query) (c : Cancellation) : List Line :=
  (s.answer q c).2.map Event.line

/-- The line that opens the log. -/
def openingLine (q : Query) : Line :=
  (.info, "optimizing `" ++ q.function ++ "` (tolerance = " ++ Decimal.plain q.tolerance
    ++ ", max iterations = " ++ toString q.maxIterations.toInt ++ ")")

/-- The line on a formula. -/
def formulaLine (q : Query) (f : Formula) : Line :=
  (.debug, "compiled `" ++ q.function ++ "` into `" ++ f.text ++ "` with " ++ toString f.dim
    ++ " variable(s)")

/-- The points of the first simplex. -/
def firstPoints (s : Service) (f : Formula) : List Point :=
  List.replicate f.dim s.startingCoordinate ::
    Search.neighbours (s.search.inEffect f.dim) (List.replicate f.dim s.startingCoordinate)

/-- How many points of the first simplex have no finite value. -/
def invalidCount (s : Service) (f : Formula) : Nat :=
  (s.firstPoints f).countP fun p => !(f.valueAt p).isFinite

/-- The line on the points without a finite value, if there are any. -/
def invalidLines (s : Service) (f : Formula) : List Line :=
  if s.invalidCount f = 0 then []
  else [(.debug, s!"{s.invalidCount f} out of {f.dim + 1} points in initial simplex have invalid value")]

/-- The first simplex, and the simplex after each iteration. -/
def simplexAfter (s : Service) (f : Formula) (k : Nat) : Simplex :=
  Simplex.trajectory f.valueAt (s.search.inEffect f.dim)
    (List.replicate f.dim s.startingCoordinate) k

/-- The two lines of a move: the centroid of all vertices but the worst before it, and its name with
the best and the worst value after it. -/
def moveLines (t : Move) (before after : Simplex) : List Line :=
  [(.debug, "centroid of simplex: " ++
      pointText (Simplex.center before.best before.others.dropLast)),
    (.debug, "performed " ++ t.name ++ ",\tf(x) = " ++ Decimal.plain after.best.value ++ " - "
      ++ Decimal.plain after.worst.value)]

/-- The line that closes the log of a query with such an outcome, after so many iterations and with
such a spread. -/
inductive Closes (K : Nat) (value spread : Float) : Except Refusal Minimum → Line → Prop
  /-- The minimum has been found. -/
  | converged {m : Minimum} (h : m.value = value) : Closes K value spread (.ok m)
      (.info, s!"converged in {K} iterations, f(x) = " ++ Decimal.plain value)
  /-- The query has been cancelled. -/
  | cancelled : Closes K value spread (.error (.cancelled K))
      (.warn, s!"optimization cancelled after {K} iterations")
  /-- The iterations did not suffice. -/
  | notConverged : Closes K value spread (.error (.unconverged K value))
      (.warn, s!"optimization did not converge in {K} iterations, spread = "
        ++ Decimal.plain spread)

/-! ### Line by line -/

section Search

variable {text : String} (hf : Formula.ofText text = .ok f) (s : Service)

theorem sound_simplexAfter (s : Service) (f : Formula) (k : Nat) :
    (s.simplexAfter f k).Sound f.valueAt f.dim := by
  have h : (s.simplexAfter f k).Sound f.valueAt (List.replicate f.dim s.startingCoordinate).length :=
    Simplex.sound_trajectory _ k
  rwa [List.length_replicate] at h

/-- The notes on the first simplex are the line on its points. -/
theorem map_line_firstNotes :
    ((Simplex.firstNotes f.valueAt (s.search.inEffect f.dim)
      (List.replicate f.dim s.startingCoordinate)).map Event.searching).map Event.line =
      s.invalidLines f := by
  have hcount : (List.replicate f.dim s.startingCoordinate ::
      Search.neighbours (s.search.inEffect f.dim)
        (List.replicate f.dim s.startingCoordinate)).countP
          (fun p => !(f.valueAt p).isFinite) = s.invalidCount f := rfl
  rw [Simplex.firstNotes_eq, List.length_replicate, hcount, invalidLines]
  split <;> rfl

/-- The lines on an iteration: none without a coordinate, otherwise two. -/
theorem exists_map_line_notes_step (i : Nat) :
    ∃ t, (((s.simplexAfter f i).step f.valueAt (s.search.inEffect f.dim)).notes.map
        Event.searching).map Event.line =
      if f.dim = 0 then [] else moveLines t (s.simplexAfter f i) (s.simplexAfter f (i + 1)) := by
  have hsound := sound_simplexAfter s f i
  by_cases hdim : f.dim = 0
  · rw [hdim] at hsound
    refine ⟨.reflection, ?_⟩
    rw [if_pos hdim, Simplex.notes_step_of_dim_zero hsound]
    rfl
  · obtain ⟨t, -, hnotes⟩ := Simplex.exists_notes_step (o := s.search.inEffect f.dim) hsound hdim
    refine ⟨t, ?_⟩
    rw [if_neg hdim, hnotes]
    rfl

include hf

/-- The notes of a descent after each iteration. -/
theorem notes_stateAfter (k : Nat) :
    (s.stateAfter f (k + 1)).search.notes.toList =
      Simplex.noted f.valueAt (s.search.inEffect f.dim)
        (List.replicate f.dim s.startingCoordinate) (k + 1) := by
  obtain ⟨tokens, -, ht⟩ := Formula.exists_scan_of_ofText hf
  exact Descent.notes_after (Formula.answers_ofFormula ht)
    (rfl : (s.descent f).search.simplex = none) List.length_replicate rfl k

/-- The lines on the search: those on the first simplex, and then those on each iteration. -/
theorem exists_map_line_notes_stateAfter {K : Nat} (hK : 1 ≤ K) :
    ∃ moves : Nat → Move, ((s.stateAfter f K).search.notes.toList.map Event.searching).map
        Event.line =
      s.invalidLines f ++ if f.dim = 0 then [] else
        (List.range K).flatMap fun i =>
          moveLines (moves i) (s.simplexAfter f i) (s.simplexAfter f (i + 1)) := by
  obtain ⟨k, rfl⟩ := Nat.exists_eq_add_of_le' hK
  choose moves hmoves using exists_map_line_notes_step (f := f) s
  refine ⟨moves, ?_⟩
  rw [notes_stateAfter hf s k, Simplex.noted_eq, List.map_append, List.map_append,
    map_line_firstNotes, List.map_flatMap, List.map_flatMap]
  congr 1
  refine (List.flatMap_congr fun i _ => hmoves i).trans ?_
  split
  · exact List.flatMap_eq_nil_iff.mpr fun _ _ => rfl
  · rfl

end Search

/-- A descent that has run leaves its notes between the line on the formula and a closing one. -/
theorem lines_of_run {d : Descent} (h : q.formula = .ok f)
    (hrun : Descent.run (.ofFormula f) (stops q c) q.maxIterations.toInt.toNat (s.descent f) =
      .ok () d) :
    s.lines q c = openingLine q :: formulaLine q f ::
      ((d.search.notes.toList.map Event.searching).map Event.line ++
        [(conclude q c f d.progress).2.line]) := by
  have hdescend : (s.descend q c f).2 =
      d.search.notes.toList.map Event.searching ++ [(conclude q c f d.progress).2] := by
    rw [descend, EStateM.run, hrun]
  have hanswer : (s.answer q c).2 =
      .received q :: .compiled q.function f :: (s.descend q c f).2 := by
    rw [answer, h]
  rw [lines, hanswer, hdescend, List.map_cons, List.map_cons, List.map_append]
  rfl

/-- The closing line names the outcome. -/
theorem closes_conclude (q : Query) (c : Cancellation) (f : Formula) (p : Progress) :
    Closes p.iterations p.value p.spread (conclude q c f p).1 (conclude q c f p).2.line := by
  rw [conclude]
  split
  · exact .converged rfl
  split
  · exact .cancelled
  · exact .notConverged

/-- A query that is wrong has no line but the opening one, and one more if its text is wrong. -/
theorem lines_of_firstFault {r : Refusal} (h : q.FirstFault r) (s : Service) (c : Cancellation) :
    s.lines q c = openingLine q :: match r with
      | .notAFormula defect =>
        [(.debug, "cannot compile `" ++ q.function ++ "`: " ++ defect.message)]
      | _ => [] := by
  rw [lines, answer, Query.formula_eq_error_iff.mpr h]
  cases h <;> rfl

/-- **The log tells the same story as the outcome.** Its first line says what is being minimized. If
the tolerance or the number of iterations is wrong there is no other line, and if the text is wrong
there is exactly one, with its defect. Otherwise the descent runs for `K` iterations, the least number
after which it may end, and there follow: a line on the formula; a line on the points of the first
simplex without a finite value, with their count and that of all points, if and only if there are any;
two lines for each of the `K` iterations, on the centroid and on the move, or none if the formula has
no variables; and one line that closes the log as the outcome does, with the number of iterations.
The best value of a later move is never above that of an earlier one, and the best value of the last
move is the value where the descent stands, which the outcome gives. -/
theorem lines_tell_outcome (s : Service) (q : Query) (c : Cancellation) :
    (∃ t, s.minimizeUnlessCancelled q c = .error (.badTolerance t) ∧
      s.lines q c = [openingLine q]) ∨
    (∃ m, s.minimizeUnlessCancelled q c = .error (.badLimit m) ∧
      s.lines q c = [openingLine q]) ∨
    (∃ defect, s.minimizeUnlessCancelled q c = .error (.notAFormula defect) ∧
      s.lines q c = [openingLine q,
        (.debug, "cannot compile `" ++ q.function ++ "`: " ++ defect.message)]) ∨
    ∃ (f : Formula) (K : Nat) (moves : Nat → Move) (closing : Line), q.formula = .ok f ∧
      IsLeast {k | s.EndsAt q c f k} K ∧
      Descent.run (.ofFormula f) (stops q c) q.maxIterations.toInt.toNat (s.descent f) =
        .ok () (s.stateAfter f K) ∧
      (s.stateAfter f K).iterations = K ∧
      s.lines q c = openingLine q :: formulaLine q f :: (s.invalidLines f ++
        (if f.dim = 0 then [] else
          (List.range K).flatMap fun i =>
            moveLines (moves i) (s.simplexAfter f i) (s.simplexAfter f (i + 1))) ++ [closing]) ∧
      Closes K (s.stateAfter f K).value (s.stateAfter f K).spread
        (s.minimizeUnlessCancelled q c) closing ∧
      (s.simplexAfter f K).best.value = (s.stateAfter f K).value ∧
      ∀ i j, i ≤ j → (s.simplexAfter f j).best.value ≤ (s.simplexAfter f i).best.value := by
  rcases q.exists_formula_or_firstFault with ⟨f, hq⟩ | ⟨r, hr⟩
  · obtain ⟨-, -, hf⟩ := Query.formula_eq_ok_iff.mp hq
    obtain ⟨K, hK, hrun⟩ := exists_isLeast_endsAt hq s c
    obtain ⟨moves, hmoves⟩ := exists_map_line_notes_stateAfter hf s hK.1.1
    have hcount : (s.stateAfter f K).progress.iterations = K := iterations_stateAfter hf s K
    have hcloses := closes_conclude q c f (s.stateAfter f K).progress
    rw [hcount, ← minimizeUnlessCancelled_of_run hq hrun] at hcloses
    have hlines := lines_of_run hq hrun
    rw [hmoves] at hlines
    exact .inr (.inr (.inr ⟨f, K, moves, _, hq, hK, hrun, hcount, hlines, hcloses,
      (standsAt_stateAfter hf s hK.1.1).value.symm, fun i j hij => Simplex.best_trajectory_le hij⟩))
  · have houtcome := (answer_of_firstFault hr s c).1
    have hlines := lines_of_firstFault hr s c
    cases hr with
    | tolerance h => exact .inl ⟨_, houtcome, hlines⟩
    | limit ht h => exact .inr (.inl ⟨_, houtcome, hlines⟩)
    | function ht hi h => exact .inr (.inr (.inl ⟨_, houtcome, hlines⟩))

end Service

end Downhill
