import Downhill.Proofs.Formula.Meaning
import Downhill.Proofs.Simplex.Answered

/-!
# The variables of a formula and the points of its objective

The variables of a formula are listed once each, in the order of their first appearance, and a point
gives them its coordinates in that order.

What is proved: the list is what its description says (`firstAppearances_names`). Every point of the
right dimension gives a value to every variable, so the objective of a formula answers every call
(`answers_ofFormula`), with the value of the formula where its variables have the coordinates.
-/

namespace Downhill

/-- The second list holds what the first holds, once each, in the order of first appearance. -/
structure FirstAppearances (xs ys : List String) : Prop where
  /-- Nothing is lost or added. -/
  mem_iff : ∀ x, x ∈ ys ↔ x ∈ xs
  /-- Nothing is listed twice. -/
  nodup : ys.Nodup
  /-- What appears first is listed first. -/
  ordered : ys.Pairwise fun x y => xs.idxOf x < xs.idxOf y

/-- One more entry is new or is not listed again. -/
theorem eraseDups_concat (xs : List String) (x : String) :
    (xs ++ [x]).eraseDups = if x ∈ xs then xs.eraseDups else xs.eraseDups ++ [x] := by
  rw [List.eraseDups_append]
  by_cases hx : x ∈ xs
  · simp [List.removeAll, hx]
  · simp [List.removeAll, hx, List.eraseDups_cons]

/-- Without its repetitions a list is in the order of first appearance. -/
theorem pairwise_idxOf_eraseDups (xs : List String) :
    xs.eraseDups.Pairwise fun x y => xs.idxOf x < xs.idxOf y := by
  induction xs using List.reverseRecOn with
  | nil => exact List.Pairwise.nil
  | append_singleton xs x ih =>
    have earlier : ∀ y ∈ xs, (xs ++ [x]).idxOf y = xs.idxOf y := by
      intro y hy
      rw [List.idxOf_append, if_pos hy]
    have hxs : xs.eraseDups.Pairwise fun y z => (xs ++ [x]).idxOf y < (xs ++ [x]).idxOf z := by
      refine ih.imp_of_mem fun {y z} hy hz hlt => ?_
      rw [earlier y (List.mem_eraseDups.mp hy), earlier z (List.mem_eraseDups.mp hz)]
      exact hlt
    rw [eraseDups_concat]
    by_cases hx : x ∈ xs
    · rw [if_pos hx]
      exact hxs
    · rw [if_neg hx, List.pairwise_append]
      refine ⟨hxs, List.pairwise_singleton _ _, fun y hy z hz => ?_⟩
      have hy := List.mem_eraseDups.mp hy
      obtain rfl := List.mem_singleton.mp hz
      have hlt := List.idxOf_lt_length_of_mem hy
      rw [earlier y hy, List.idxOf_append, if_neg hx]
      omega

theorem firstAppearances_eraseDups (xs : List String) : FirstAppearances xs xs.eraseDups where
  mem_iff _ := List.mem_eraseDups
  nodup := (pairwise_idxOf_eraseDups xs).imp fun hlt heq => by
    rw [heq] at hlt
    exact lt_irrefl _ hlt
  ordered := pairwise_idxOf_eraseDups xs

/-- **The variables of a token list are in the order of their first appearance.** -/
theorem firstAppearances_names (tokens : List Token) :
    FirstAppearances (tokens.filterMap Token.name?) (Variables.ofTokens tokens).names :=
  firstAppearances_eraseDups _

/-! ### Coordinates as values of variables -/

namespace Bindings

/-- Of values that are listed by distinct names each is found by its name. -/
theorem ofList_of_mem {pairs : List (String × Float)} (hn : (pairs.map Prod.fst).Nodup)
    {name : String} {y : Float} (h : (name, y) ∈ pairs) : ofList pairs name = some y := by
  rw [ofList]
  induction pairs with
  | nil => cases h
  | cons pair pairs ih =>
    rw [List.map_cons, List.nodup_cons] at hn
    rcases List.mem_cons.mp h with rfl | h
    · simp
    · have hne : pair.1 ≠ name := fun heq => hn.1 (List.mem_map.mpr ⟨_, h, heq.symm⟩)
      rw [List.find?_cons_of_neg (by simp [hne])]
      exact ih hn.2 h

/-- A point gives each variable the coordinate listed with it. -/
theorem ofPoint_eq_ofList (names : List String) (p : List Float) :
    ofPoint ⟨names⟩ p = ofList (names.zip p) := by
  funext x
  simp only [ofPoint, ofList, Variables.position?]
  induction names generalizing p with
  | nil => rfl
  | cons name names ih =>
    cases p with
    | nil => simp
    | cons c p =>
      rw [List.idxOf?_cons, List.zip_cons_cons, List.find?_cons]
      by_cases hx : name = x
      · simp [hx]
      · simp only [hx, decide_false, beq_iff_eq, if_false, ← ih, Option.bind_map]
        rfl

/-- A point gives a value to each variable that has a coordinate in it. -/
theorem ofPoint_ne_none {unknowns : Variables} {p : List Float} (hp : p.length = unknowns.size)
    {x : String} (hx : x ∈ unknowns.names) : ofPoint unknowns p x ≠ none := by
  obtain ⟨i, hi⟩ := Option.isSome_iff_exists.mp (List.isSome_idxOf?.mpr hx)
  obtain ⟨hlt, -⟩ := List.idxOf?_eq_some_iff.mp hi
  have hpi : i < p.length := hp.symm ▸ hlt
  rw [ofPoint, Variables.position?, hi, Option.bind_some, List.getElem?_eq_getElem hpi]
  exact Option.some_ne_none _

end Bindings

namespace Formula

/-- The value at a point whose coordinates are the variables in order. -/
def valueAt (f : Formula) (p : Point) : Float :=
  (f.value (.ofPoint f.unknowns p)).toOption.getD 0

/-- **A formula has a value at every point of its dimension.** -/
theorem value_ofPoint {tokens : List Token} {f : Formula} (h : ofTokens tokens = .ok f) {p : Point}
    (hp : p.length = f.dim) : f.value (.ofPoint f.unknowns p) = .ok (f.valueAt p) := by
  obtain ⟨t, ht, rfl⟩ := exists_parse_of_ofTokens h
  obtain ⟨v, hv⟩ := t.exists_value fun x hx => by
    refine Bindings.ofPoint_ne_none hp ((firstAppearances_names tokens).mem_iff x |>.mpr ?_)
    rwa [← ht.names_eq]
  have hvalue := Tree.value_listing_of_value hv
  rw [valueAt, Formula.value, hvalue]
  rfl

/-- **The objective of a formula answers every call.** -/
theorem answers_ofFormula {tokens : List Token} {f : Formula} (h : ofTokens tokens = .ok f) :
    (Objective.ofFormula f).Answers f.valueAt := by
  intro call p hp
  change p.length = f.dim at hp
  simp only [Objective.ofFormula, Objective.ofFunction, hp, if_true, value_ofPoint h hp]
  rfl

end Formula

end Downhill
