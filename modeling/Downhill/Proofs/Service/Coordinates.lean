import Downhill.Proofs.Formula.Exposed
import Downhill.Proofs.Service.Minimum
import Downhill.Service.Wire

/-!
# Coordinates of a minimum

A search ranks by values, and only values are screened: a point may run off to infinity as long as the
formula has a finite value there. The last simplex of a descent that has converged has finite values,
so what is not finite in its best point is what the formula makes finite.

What is proved: a coordinate is a number if its variable is under no power somewhere in the formula,
and finite if it is in no divisor there either, and so all are where there is no division and no power
(`minimizeUnlessCancelled_exposed_finite`). Others need not be, and one iteration from a great starting
point is enough (`not_forall_coordinate_finite`).
-/

namespace Downhill

/-- All numbers among the options are finite. -/
def Options.AreFinite (o : Options) : Prop :=
  ∀ c ∈ [o.reflection, o.expansion, o.contraction, o.shrinkage, o.relativeStep, o.zeroStep],
    c.isFinite = true

namespace Minimum

section Shown

variable {m : Minimum} {t : Tree} {y : Float} {v : Coordinate}

/-- In a tree whose value is a number, bare variables have numbers. -/
theorem isNaN_of_bare (hm : (m.coordinates.map (·.name)).Nodup)
    (hvalue : t.value m.coordinate? = some y) (hy : y.isNaN = false) (hv : v ∈ m.coordinates)
    (hx : t.Bare v.name) : v.value.isNaN = false := by
  obtain ⟨w, hw, hnum⟩ := hx.isNaN hvalue hy
  rw [coordinate?_of_mem hm hv] at hw
  exact Option.some.inj hw ▸ hnum

/-- In a tree of finite value, exposed variables have finite values. -/
theorem isFinite_of_exposed (hm : (m.coordinates.map (·.name)).Nodup)
    (hvalue : t.value m.coordinate? = some y) (hy : y.isFinite = true) (hv : v ∈ m.coordinates)
    (hx : t.Exposed v.name) : v.value.isFinite = true := by
  obtain ⟨w, hw, hfin⟩ := hx.isFinite hvalue hy
  rw [coordinate?_of_mem hm hv] at hw
  exact Option.some.inj hw ▸ hfin

end Shown

end Minimum

namespace Service

variable {s : Service} {q : Query} {c : Cancellation} {f : Formula} {t : Tree} {tokens : List Token}

/-! ### Variables that show -/

/-- Where the best value is finite, the coordinates of a success are the values of the variables in a
tree of finite value. -/
theorem value_minimum_tree (hf : Formula.ofTokens tokens = .ok f) (ht : Parse .sum tokens t)
    {d : Descent} {σ : Simplex} (hd : d.StandsAt f.valueAt f.dim σ)
    (hfin : σ.best.value.isFinite = true) :
    t.value (minimum f d.progress).coordinate? = some σ.best.value := by
  have hvalue := value_minimum hf hd hfin
  have hbest : (minimum f d.progress).value = σ.best.value := hd.value
  obtain ⟨u, hu, rfl⟩ := Formula.exists_parse_of_ofTokens hf
  obtain rfl := ht.unique hu
  rw [Minimum.ofList_coordinates, hbest] at hvalue
  exact Tree.value_of_value_listing hvalue

/-- **The coordinates of a success are finite where they show.** A variable that has an occurrence
under no power has a number for its coordinate. If the occurrence is in no divisor either, the number
is finite, and is written as one. Hence all coordinates are numbers if there are no powers, and finite
if there is no division as well. -/
theorem minimizeUnlessCancelled_exposed_finite {m : Minimum}
    (h : s.minimizeUnlessCancelled q c = .ok m) :
    ∃ tokens t, scan q.function = .ok tokens ∧ Parse .sum tokens t ∧
      (∀ v ∈ m.coordinates, t.Bare v.name → v.value.isNaN = false) ∧
      (∀ v ∈ m.coordinates, t.Exposed v.name → v.value.isFinite = true ∧
        Json.doubleText v.value = Json.doubleLayout.write v.value) ∧
      (.operator .pow ∉ tokens → ∀ v ∈ m.coordinates, v.value.isNaN = false ∧
        (.operator .div ∉ tokens → v.value.isFinite = true ∧
          Json.doubleText v.value = Json.doubleLayout.write v.value)) := by
  obtain ⟨f, K, hq, hK, -, hspread, rfl⟩ := exists_stateAfter_of_ok h
  obtain ⟨htol, -, hf⟩ := Query.formula_eq_ok_iff.mp hq
  obtain ⟨tokens, hs, hft⟩ := Formula.exists_scan_of_ofText hf
  obtain ⟨t, ht, -⟩ := Formula.exists_parse_of_ofTokens hft
  have hσ := standsAt_stateAfter hf s hK
  generalize Simplex.trajectory f.valueAt (s.search.inEffect f.dim)
    (List.replicate f.dim s.startingCoordinate) K = σ at hσ
  have hwithin : σ.worst.value - σ.best.value ≤ q.tolerance := hσ.spread ▸ hspread
  have hfin : σ.best.value.isFinite = true :=
    hσ.sound.isFinite_of_spread_le (Bool.and_eq_true_iff.mp htol).1 hwithin σ.best_mem
  have hvalue := value_minimum_tree hft ht hσ hfin
  have hpoint : (s.stateAfter f K).progress.point = σ.best.point := hσ.point
  have happear := firstAppearances_minimum hft (hpoint ▸ hσ.sound.length_best)
  generalize minimum f (s.stateAfter f K).progress = m at hvalue happear ⊢
  have hbare : ∀ v ∈ m.coordinates, t.Bare v.name → v.value.isNaN = false := fun v hv hx =>
    Minimum.isNaN_of_bare happear.nodup hvalue (isNaN_of_isFinite hfin) hv hx
  have hexposed : ∀ v ∈ m.coordinates, t.Exposed v.name → v.value.isFinite = true ∧
      Json.doubleText v.value = Json.doubleLayout.write v.value := by
    intro v hv hx
    have hvfin := Minimum.isFinite_of_exposed happear.nodup hvalue hfin hv hx
    exact ⟨hvfin, if_pos hvfin⟩
  -- the coordinates are those of the variables in the formula
  have hname : ∀ v ∈ m.coordinates, v.name ∈ t.names := by
    intro v hv
    rw [ht.names_eq]
    exact (happear.mem_iff v.name).mp (List.mem_map_of_mem hv)
  refine ⟨tokens, t, hs, ht, hbare, hexposed, fun hpow v hv => ?_⟩
  have hpow' : .pow ∉ t.operators := fun hop => hpow (ht.mem_of_mem_operators hop)
  refine ⟨hbare v hv (Tree.bare_of_mem_names hpow' (hname v hv)), fun hdiv => ?_⟩
  have hdiv' : .div ∉ t.operators := fun hop => hdiv (ht.mem_of_mem_operators hop)
  exact hexposed v hv (Tree.exposed_of_mem_names hpow' hdiv' (hname v hv))

/-! ### One iteration -/

/-- In one dimension the simplex after one iteration is known by the first one and its move. -/
theorem trajectory_one {value : Point → Float} {o : Options} {x : Point} {best worst : Vertex}
    {others : List Vertex} (hfirst : Simplex.first value o x = ⟨best, [worst]⟩)
    (hturn : (Simplex.turn value o best [] worst).others = others) :
    Simplex.trajectory value o x 1 = Simplex.ranked best others :=
  calc Simplex.trajectory value o x 1
      = (Simplex.step value o (Simplex.first value o x)).simplex := rfl
    _ = (Simplex.step value o ⟨best, [worst]⟩).simplex := by rw [hfirst]
    _ = Simplex.ranked best (Simplex.turn value o best [] worst).others := rfl
    _ = Simplex.ranked best others := by rw [hturn]

/-- A query of one iteration that is enough is answered by the simplex after it. -/
theorem minimizeUnlessCancelled_of_trajectory_one (hq : q.formula = .ok f)
    (hone : q.maxIterations.toInt = 1) (c : Cancellation) {σ : Simplex}
    (hσ : Simplex.trajectory f.valueAt (s.search.inEffect f.dim)
      (List.replicate f.dim s.startingCoordinate) 1 = σ) (hspread : σ.spread ≤ q.tolerance) :
    s.minimizeUnlessCancelled q c =
      .ok ⟨List.zipWith Coordinate.mk f.unknowns.names σ.best.point, σ.best.value⟩ := by
  obtain ⟨-, -, hf⟩ := Query.formula_eq_ok_iff.mp hq
  obtain ⟨K, hK, hrun⟩ := exists_isLeast_endsAt hq s c
  have hends : s.EndsAt q c f 1 := ⟨le_rfl, .inr (.inl hone.le)⟩
  obtain rfl : K = 1 := le_antisymm (hK.2 hends) hK.1.1
  have hst := standsAt_stateAfter hf s (le_refl 1)
  rw [hσ] at hst
  have hpoint : (s.stateAfter f 1).progress.point = σ.best.point := hst.point
  have hvalue : (s.stateAfter f 1).progress.value = σ.best.value := hst.value
  have hwithin : (s.stateAfter f 1).progress.spread ≤ q.tolerance := by
    have heq : (s.stateAfter f 1).progress.spread = σ.spread := hst.spread
    rw [heq]
    exact hspread
  rw [minimizeUnlessCancelled_of_run hq hrun, conclude_of_spread_le hwithin, minimum, hpoint,
    hvalue]

/-- The formula `1/x1`. -/
def reciprocal : Formula := ⟨[.number 1, .var "x1", .operator .div], ⟨["x1"]⟩⟩

theorem ofText_reciprocal : Formula.ofText "1/x1" = .ok reciprocal := by
  have hcut : cut (condense "1/x1") =
      [.run ['1'], .separator (.operator .div), .run ['x', '1']] := rfl
  have hone : Decimal.readNumeral? ['1'] = some 1 := by decide +kernel
  have hscan : scan "1/x1" = .ok [.number 1, .operator .div, .var "x1"] := by
    rw [scan, hcut]
    simp [Piece.token, operand?, isVariableName, hone]
    rfl
  rw [Formula.ofText_of_scan hscan]
  rfl

/-- From a great starting point the reflected vertex is infinite, and the reciprocal is least there. -/
theorem trajectory_reciprocal :
    Simplex.trajectory reciprocal.valueAt (Options.inEffect {} 1) [1.7e308] 1 =
      ⟨⟨[infinity], 0⟩, [⟨[1.785e308], 1 / 1.785e308⟩]⟩ := by
  let o : Options := Options.inEffect {} 1
  let far : Vertex := ⟨[1.785e308], 1 / 1.785e308⟩
  have hfirst : Simplex.first reciprocal.valueAt o [1.7e308] =
      ⟨far, [⟨[1.7e308], 1 / 1.7e308⟩]⟩ := by
    have hv : Simplex.vertexAt reciprocal.valueAt [1.7e308] = ⟨[1.7e308], 1 / 1.7e308⟩ := by
      decide +kernel
    have hvs : (Search.neighbours o [1.7e308]).map (Simplex.vertexAt reciprocal.valueAt) = [far] := by
      decide +kernel
    rw [Simplex.first, hv, hvs]
    exact Simplex.ranked_pair_of_not_noWorse (by decide +kernel)
  have hturn : (Simplex.turn reciprocal.valueAt o far [] ⟨[1.7e308], 1 / 1.7e308⟩).others =
      [⟨[infinity], 0⟩] := by decide +kernel
  rw [trajectory_one hfirst hturn]
  exact Simplex.ranked_pair_of_not_noWorse (by decide +kernel)

/-- **A coordinate of a success need not be finite.** -/
theorem not_forall_coordinate_finite :
    ¬ ∀ (s : Service) (q : Query) (c : Cancellation) (m : Minimum), s.search.AreFinite →
      s.startingCoordinate.isFinite = true → s.minimizeUnlessCancelled q c = .ok m →
      ∀ v ∈ m.coordinates, v.value.isFinite = true := by
  intro h
  let s : Service := { startingCoordinate := 1.7e308 }
  let q : Query := ⟨"1/x1", 1e-6, 1⟩
  have hq : q.formula = .ok reciprocal :=
    Query.formula_eq_ok_iff.mpr ⟨by decide +kernel, by decide, ofText_reciprocal⟩
  have hok := minimizeUnlessCancelled_of_trajectory_one (s := s) hq rfl .never
    trajectory_reciprocal (by decide +kernel)
  have hoptions : s.search.AreFinite := by
    rw [Options.AreFinite]
    decide +kernel
  have hinfinite := h s q .never _ hoptions (by decide +kernel) hok ⟨"x1", infinity⟩
    List.mem_cons_self
  exact absurd hinfinite (by decide)

/-- The formula `x1-1/x1`, whose variable is exposed by its first occurrence. -/
def slope : Formula :=
  ⟨[.var "x1", .number 1, .var "x1", .operator .div, .operator .sub], ⟨["x1"]⟩⟩

theorem scan_slope :
    scan "x1-1/x1" =
      .ok [.var "x1", .operator .sub, .number 1, .operator .div, .var "x1"] := by
  have hcut : cut (condense "x1-1/x1") = [.run ['x', '1'], .separator (.operator .sub), .run ['1'],
    .separator (.operator .div), .run ['x', '1']] := rfl
  have hone : Decimal.readNumeral? ['1'] = some 1 := by decide +kernel
  rw [scan, hcut]
  simp [Piece.token, operand?, isVariableName, hone]
  rfl

theorem parse_slope :
    Parse .sum [.var "x1", .operator .sub, .number 1, .operator .div, .var "x1"]
      (.node .sub (.var "x1") (.node .div (.number 1) (.var "x1"))) := by
  have hfirst : Parse .sum [.var "x1"] (.var "x1") := .pass (.pass (.pass (.var "x1")))
  have hone : Parse .product [.number 1] (.number 1) := .pass (.pass (.number 1))
  have hlast : Parse Layer.product.next [.var "x1"] (.var "x1") := .pass (.var "x1")
  have hsub : Operator.sub ∈ Layer.sum.operators := by decide
  have hdiv : Operator.div ∈ Layer.product.operators := by decide
  exact .row hsub hfirst (.row hdiv hone hlast)

/-- Its reflected vertex has no value, and the contracted one replaces the worst. -/
theorem trajectory_slope :
    Simplex.trajectory slope.valueAt (Options.inEffect { relativeStep := 1 } 1) [1] 1 =
      ⟨⟨[1], 0⟩, [⟨[1.5], 1.5 - 1 / 1.5⟩]⟩ := by
  let o : Options := Options.inEffect { relativeStep := 1 } 1
  have hfirst : Simplex.first slope.valueAt o [1] = ⟨⟨[1], 0⟩, [⟨[2], 1.5⟩]⟩ := by
    have hv : Simplex.vertexAt slope.valueAt [1] = ⟨[1], 0⟩ := by decide +kernel
    have hvs : (Search.neighbours o [1]).map (Simplex.vertexAt slope.valueAt) = [⟨[2], 1.5⟩] := by
      decide +kernel
    rw [Simplex.first, hv, hvs]
    exact Simplex.ranked_of_pairwise (by decide +kernel)
  have hturn : (Simplex.turn slope.valueAt o ⟨[1], 0⟩ [] ⟨[2], 1.5⟩).others =
      [⟨[1.5], 1.5 - 1 / 1.5⟩] := by decide +kernel
  rw [trajectory_one hfirst hturn]
  exact Simplex.ranked_of_pairwise (by decide +kernel)

/-- A variable that is exposed and is in a divisor as well. -/
theorem minimizeUnlessCancelled_exposed_finite_slope :
    minimizeUnlessCancelled { search := { relativeStep := 1 } } ⟨"x1-1/x1", 1, 1⟩ .never =
        .ok ⟨[⟨"x1", 1⟩], 0⟩ ∧
      Tree.Exposed (.node .sub (.var "x1") (.node .div (.number 1) (.var "x1"))) "x1" ∧
      (1 : Float).isFinite = true ∧ Json.doubleText 1 = Json.doubleLayout.write 1 := by
  have hf : Formula.ofText "x1-1/x1" = .ok slope := by
    rw [Formula.ofText_of_scan scan_slope]
    rfl
  have hq : Query.formula ⟨"x1-1/x1", 1, 1⟩ = .ok slope :=
    Query.formula_eq_ok_iff.mpr ⟨by decide, by decide, hf⟩
  have hok := minimizeUnlessCancelled_of_trajectory_one (s := { search := { relativeStep := 1 } })
    hq rfl .never trajectory_slope (by decide +kernel)
  obtain ⟨tokens, t, hs, ht, -, hexposed, -⟩ := minimizeUnlessCancelled_exposed_finite hok
  obtain rfl := Except.ok.inj (scan_slope.symm.trans hs)
  obtain rfl := ht.unique parse_slope
  have hx : Tree.Exposed (.node .sub (.var "x1") (.node .div (.number 1) (.var "x1"))) "x1" :=
    .left (by decide) (.var "x1")
  exact ⟨hok, hx, hexposed ⟨"x1", 1⟩ List.mem_cons_self hx⟩

end Service

end Downhill
