import Downhill.Proofs.Service.Outcome

/-!
# What a minimum says

A query that succeeds is answered by a list of variables with their coordinates and by a value. The
coordinates come from the best vertex of the last simplex, the names from the formula, and the value
is the one the vertex holds.

What is proved: names and coordinates fit together, the value is that of the formula at the
coordinates, bit by bit, and the simplex behind it has finite values only, which are nowhere below
the value and nowhere further above it than the tolerance
(`minimizeUnlessCancelled_ok_sound`).
-/

namespace Downhill

namespace Minimum

/-- The coordinates give each variable the value found by its name. -/
theorem ofList_coordinates (m : Minimum) :
    Bindings.ofList (m.coordinates.map fun v => (v.name, v.value)) = m.coordinate? := by
  funext x
  rw [Bindings.ofList, coordinate?, List.find?_map, Option.map_map]
  rfl

/-- In a list of distinct names each is found with the value listed. -/
theorem coordinate?_of_mem {m : Minimum} (hn : (m.coordinates.map Coordinate.name).Nodup)
    {v : Coordinate} (hv : v ∈ m.coordinates) : m.coordinate? v.name = some v.value := by
  have hnames : ((m.coordinates.map fun w => (w.name, w.value)).map Prod.fst).Nodup := by
    rwa [List.map_map]
  rw [← ofList_coordinates]
  exact Bindings.ofList_of_mem hnames (List.mem_map.mpr ⟨v, hv, rfl⟩)

/-- No other name is found. -/
theorem coordinate?_of_not_mem {m : Minimum} {x : String}
    (hx : x ∉ m.coordinates.map Coordinate.name) : m.coordinate? x = none := by
  rw [coordinate?, List.find?_eq_none.mpr, Option.map_none]
  intro v hv heq
  exact hx (List.mem_map.mpr ⟨v, hv, of_decide_eq_true heq⟩)

end Minimum

namespace Service

variable {s : Service} {q : Query} {c : Cancellation} {f : Formula}

/-- The list pairs the variables with the coordinates of the point. -/
theorem map_pair_minimum (f : Formula) (p : Progress) :
    (minimum f p).coordinates.map (fun v => (v.name, v.value)) = f.unknowns.names.zip p.point := by
  rw [minimum, List.map_zipWith]
  rfl

theorem map_name_minimum {p : Progress} (hp : p.point.length = f.dim) :
    (minimum f p).coordinates.map Coordinate.name = f.unknowns.names := by
  have h := congrArg (List.map Prod.fst) (map_pair_minimum f p)
  rw [List.map_map, List.map_fst_zip hp.ge] at h
  exact h

/-- The names are those of the variables, in the order of their first appearance. -/
theorem firstAppearances_minimum {tokens : List Token} (hf : Formula.ofTokens tokens = .ok f)
    {p : Progress} (hp : p.point.length = f.dim) :
    FirstAppearances (tokens.filterMap Token.name?)
      ((minimum f p).coordinates.map Coordinate.name) := by
  obtain ⟨program, -, -, rfl⟩ := Formula.ofTokens_eq_ok_iff.mp hf
  rw [map_name_minimum hp]
  exact firstAppearances_names tokens

/-- If the value is finite, it is that of the formula where its variables are as listed. -/
theorem value_minimum {tokens : List Token} (hf : Formula.ofTokens tokens = .ok f) {d : Descent}
    {σ : Simplex} (hd : d.StandsAt f.valueAt f.dim σ) (hfin : σ.best.value.isFinite = true) :
    f.value (.ofList ((minimum f d.progress).coordinates.map fun v => (v.name, v.value))) =
      .ok (minimum f d.progress).value := by
  have hpoint : d.progress.point = σ.best.point := hd.point
  have hvalue : (minimum f d.progress).value = σ.best.value := hd.value
  rw [map_pair_minimum, ← Bindings.ofPoint_eq_ofList, hvalue, hpoint,
    ← hd.sound.value_eq σ.best_mem hfin]
  exact Formula.value_ofPoint hf hd.sound.length_best

/-- A success is a descent whose last simplex is within the tolerance. -/
theorem exists_stateAfter_of_ok {m : Minimum} (h : s.minimizeUnlessCancelled q c = .ok m) :
    ∃ f K, q.formula = .ok f ∧ 1 ≤ K ∧
      Descent.run (.ofFormula f) (stops q c) q.maxIterations.toInt.toNat (s.descent f) =
        .ok () (s.stateAfter f K) ∧
      (s.stateAfter f K).progress.spread ≤ q.tolerance ∧
      m = minimum f (s.stateAfter f K).progress := by
  cases hq : q.formula with
  | error refusal =>
    rw [minimizeUnlessCancelled, answer, hq] at h
    cases refusal <;> cases h
  | ok f =>
    obtain ⟨K, hK, hrun⟩ := exists_isLeast_endsAt hq s c
    rw [minimizeUnlessCancelled_of_run hq hrun] at h
    refine ⟨f, K, rfl, hK.1.1, hrun, ?_⟩
    by_cases hspread : (s.stateAfter f K).progress.spread ≤ q.tolerance
    · rw [conclude_of_spread_le hspread] at h
      exact ⟨hspread, (Except.ok.inj h).symm⟩
    · rw [conclude, if_neg hspread] at h
      split at h <;> cases h

/-- **What a success says.** The names listed are the distinct variables of the text, in the order
of their first appearance. Each is given the value listed with it, and no other name is given one.
The value is finite, and is the value of the formula where its variables are as listed. In the last
simplex of the descent every vertex has a finite value, not below the value of the minimum, and the
worst of them is above it by no more than the tolerance. -/
theorem minimizeUnlessCancelled_ok_sound {m : Minimum}
    (h : s.minimizeUnlessCancelled q c = .ok m) :
    ∃ tokens f d σ, scan q.function = .ok tokens ∧ Formula.ofTokens tokens = .ok f ∧
      FirstAppearances (tokens.filterMap Token.name?) (m.coordinates.map Coordinate.name) ∧
      (∀ v ∈ m.coordinates, m.coordinate? v.name = some v.value) ∧
      (∀ x, .var x ∉ tokens → m.coordinate? x = none) ∧
      m.value.isFinite = true ∧
      f.value (.ofList (m.coordinates.map fun v => (v.name, v.value))) = .ok m.value ∧
      Descent.run (.ofFormula f) (stops q c) q.maxIterations.toInt.toNat (s.descent f) =
        .ok () d ∧
      d.search.simplex = some σ ∧ σ.vertices.length = f.dim + 1 ∧
      (∀ v ∈ σ.vertices, v.value.isFinite = true ∧ m.value ≤ v.value) ∧
      ∃ w ∈ σ.vertices, (∀ v ∈ σ.vertices, v.value ≤ w.value) ∧
        w.value - m.value ≤ q.tolerance := by
  obtain ⟨f, K, hq, hK, hrun, hspread, rfl⟩ := exists_stateAfter_of_ok h
  obtain ⟨ht, -, hf⟩ := Query.formula_eq_ok_iff.mp hq
  obtain ⟨tokens, hs, hft⟩ := Formula.exists_scan_of_ofText hf
  have hσ := standsAt_stateAfter hf s hK
  generalize Simplex.trajectory f.valueAt (s.search.inEffect f.dim)
    (List.replicate f.dim s.startingCoordinate) K = σ at hσ
  have hvalue : (minimum f (s.stateAfter f K).progress).value = σ.best.value := hσ.value
  have hpoint : (s.stateAfter f K).progress.point = σ.best.point := hσ.point
  have hlen : (s.stateAfter f K).progress.point.length = f.dim := hpoint ▸ hσ.sound.length_best
  have happear := firstAppearances_minimum hft hlen
  have hwithin : σ.worst.value - σ.best.value ≤ q.tolerance := hσ.spread ▸ hspread
  have hfin : ∀ v ∈ σ.vertices, v.value.isFinite = true := fun v hv =>
    hσ.sound.isFinite_of_spread_le (Bool.and_eq_true_iff.mp ht).1 hwithin hv
  refine ⟨tokens, f, s.stateAfter f K, σ, hs, hft, happear,
    fun v hv => Minimum.coordinate?_of_mem happear.nodup hv, fun x hx => ?_, ?_,
    value_minimum hft hσ (hfin _ σ.best_mem), hrun, hσ.simplex, hσ.sound.length_vertices, ?_,
    σ.worst, σ.worst_mem, fun v hv => hσ.sound.ordered.le_worst hv, hvalue ▸ hwithin⟩
  · refine Minimum.coordinate?_of_not_mem fun hmem => hx ?_
    exact Token.mem_filterMap_name?.mp ((happear.mem_iff x).mp hmem)
  · rw [hvalue]
    exact hfin _ σ.best_mem
  · intro v hv
    rw [hvalue]
    exact ⟨hfin v hv, hσ.sound.ordered.best_le hv⟩

/-- The difference of a variable with itself is zero wherever the search asks for it, and one
iteration will do. -/
theorem minimizeUnlessCancelled_difference_ok :
    ∃ m, minimizeUnlessCancelled {} ⟨"x1-x1", 1, 1⟩ .never = .ok m ∧
      m.coordinate? "x2" = none ∧ m.value.isFinite = true := by
  let f : Formula := ⟨[.var "x1", .var "x1", .operator .sub], ⟨["x1"]⟩⟩
  let o : Options := Options.inEffect {} 1
  have hf : Formula.ofText "x1-x1" = .ok f := rfl
  have hq : Query.formula ⟨"x1-x1", 1, 1⟩ = .ok f :=
    Query.formula_eq_ok_iff.mpr ⟨by decide, by decide, hf⟩
  have hfirst : Simplex.first f.valueAt o [1] = ⟨⟨[1], 0⟩, [⟨[1.05], 0⟩]⟩ := by
    have hv : Simplex.vertexAt f.valueAt [1] = ⟨[1], 0⟩ := by decide +kernel
    have hvs : (Search.neighbours o [1]).map (Simplex.vertexAt f.valueAt) = [⟨[1.05], 0⟩] := by
      decide +kernel
    rw [Simplex.first, hv, hvs]
    exact Simplex.ranked_of_pairwise (by decide +kernel)
  -- neither the reflected nor the contracted vertex is better, and the simplex is shrunk
  have hstep : (Simplex.step f.valueAt o ⟨⟨[1], 0⟩, [⟨[1.05], 0⟩]⟩).simplex =
      ⟨⟨[1], 0⟩, [⟨[1.025], 0⟩]⟩ := by
    have hturn : (Simplex.turn f.valueAt o ⟨[1], 0⟩ [] ⟨[1.05], 0⟩).others = [⟨[1.025], 0⟩] := by
      decide +kernel
    change Simplex.ranked _ (Simplex.turn f.valueAt o ⟨[1], 0⟩ [] ⟨[1.05], 0⟩).others = _
    rw [hturn]
    exact Simplex.ranked_of_pairwise (by decide +kernel)
  have hσ : Simplex.trajectory f.valueAt o [1] 1 = ⟨⟨[1], 0⟩, [⟨[1.025], 0⟩]⟩ := by
    rw [Simplex.trajectory, Simplex.trajectory, hfirst, hstep]
  obtain ⟨K, hK, hrun⟩ := exists_isLeast_endsAt hq {} .never
  have hone : EndsAt {} ⟨"x1-x1", 1, 1⟩ .never f 1 := ⟨le_rfl, .inr (.inl (by decide))⟩
  obtain rfl : K = 1 := le_antisymm (hK.2 hone) hK.1.1
  have hst := standsAt_stateAfter hf {} (le_refl 1)
  have hx : List.replicate f.dim ({} : Service).startingCoordinate = [1] := rfl
  have ho : ({} : Service).search.inEffect f.dim = o := rfl
  rw [hx, ho, hσ] at hst
  have hspread : (stateAfter {} f 1).progress.spread ≤ 1 := by
    have hs : (stateAfter {} f 1).progress.spread = _ := hst.spread
    rw [hs]
    decide +kernel
  have hm := (minimizeUnlessCancelled_of_run hq hrun).trans (conclude_of_spread_le hspread)
  obtain ⟨tokens, -, -, -, htokens, -, -, -, hnone, hfin, -⟩ :=
    minimizeUnlessCancelled_ok_sound hm
  refine ⟨_, hm, hnone _ ?_, hfin⟩
  have hscan : scan "x1-x1" = .ok [.var "x1", .operator .sub, .var "x1"] := rfl
  rw [hscan] at htokens
  rw [← Except.ok.inj htokens]
  simp

end Service

end Downhill
