import Downhill.Proofs.Formula.Pass
import Downhill.Proofs.Formula.Unknowns
import Mathlib.Data.Finset.Card

/-!
# Tables of variables

A table keeps its names twice, in an array by their coordinates and in a hash table that finds the
coordinate of a name. The two agree before and after every name that is added (`Indexed`), so the
table is the list of distinct names in the order of first appearance, and finding is the inverse of
indexing.

What is proved: a formula whose variables are in a table has at each point of its dimension the value
of its tree where the variables have the coordinates in this order, and refuses all other points
(`Formula.Tabled.indexes_and_assigns`). Its objective is the objective of the formula
(`Formula.Tabled.objective_eq`).
-/

namespace Downhill

namespace VariableTable

/-- Finding a name is the inverse of looking up a coordinate. -/
def Indexed (table : VariableTable) : Prop :=
  ∀ name i, table.position? name = some i ↔ table.names[i]? = some name

theorem indexed_empty : Indexed {} := by
  intro name i
  simp [position?]

section Indexed

variable {table : VariableTable} (h : table.Indexed)
include h

/-- The hash table has the names that are in the array. -/
theorem Indexed.contains_iff {name : String} :
    table.positions.contains name = true ↔ name ∈ table.names.toList := by
  rw [Std.HashMap.contains_eq_isSome_getElem?, Option.isSome_iff_exists, Array.mem_toList_iff,
    Array.mem_iff_getElem?]
  exact exists_congr fun i => h name i

theorem Indexed.names_add (name : String) :
    (table.add name).names.toList =
      if name ∈ table.names.toList then table.names.toList else table.names.toList ++ [name] := by
  rw [add]
  by_cases hc : table.positions.contains name = true
  · rw [if_pos hc, if_pos (h.contains_iff.mp hc)]
  · rw [if_neg hc, if_neg (h.contains_iff.not.mp hc), Array.toList_push]

/-- A name that is added stands where it is found. -/
theorem Indexed.add (name : String) : (table.add name).Indexed := by
  rw [VariableTable.add]
  by_cases hc : table.positions.contains name = true
  · rwa [if_pos hc]
  · rw [if_neg hc]
    have hnew : ∀ i, table.names[i]? ≠ some name := fun i hi =>
      hc (h.contains_iff.mpr (Array.mem_toList_iff.mpr (Array.mem_of_getElem? hi)))
    intro other i
    simp only [position?, Std.HashMap.getElem?_insert, Array.getElem?_push, beq_iff_eq]
    by_cases hname : name = other <;> by_cases hi : i = table.names.size
    · simp [hname, hi]
    · subst hname
      simp [hi, Ne.symm hi, hnew]
    · have hend := (h other table.names.size).not.mpr (by simp)
      simpa [position?, hname, hi] using hend
    · simpa [position?, hname, hi] using h other i

end Indexed

/-- Only the names among the tokens are added. -/
theorem ofTokens_eq_foldl (tokens : List Token) :
    ofTokens tokens = (tokens.filterMap Token.name?).foldl add {} := by
  rw [ofTokens, List.foldl_filterMap]
  congr 1
  funext table token
  cases token <;> rfl

/-- What is kept while names are added: the table finds what it lists, and lists each name once. -/
theorem indexed_foldl_add (names : List String) :
    (names.foldl add {}).Indexed ∧ (names.foldl add {}).names.toList = names.eraseDups := by
  induction names using List.reverseRecOn with
  | nil => exact ⟨indexed_empty, rfl⟩
  | append_singleton names name ih =>
    obtain ⟨hindexed, hnames⟩ := ih
    rw [List.foldl_append, List.foldl_cons, List.foldl_nil]
    refine ⟨hindexed.add name, ?_⟩
    rw [hindexed.names_add, hnames, eraseDups_concat]
    simp only [List.mem_eraseDups]

theorem indexed_ofTokens (tokens : List Token) : (ofTokens tokens).Indexed := by
  rw [ofTokens_eq_foldl]
  exact (indexed_foldl_add _).1

/-- **The array lists the variables.** -/
theorem names_ofTokens (tokens : List Token) :
    (ofTokens tokens).names.toList = (Variables.ofTokens tokens).names := by
  rw [ofTokens_eq_foldl]
  exact (indexed_foldl_add _).2

theorem size_ofTokens (tokens : List Token) :
    (ofTokens tokens).size = (Variables.ofTokens tokens).size := by
  rw [size, ← Array.length_toList, names_ofTokens, Variables.size]

/-- In a list without repetitions a name is found where it stands. -/
theorem idxOf?_eq_some_iff_of_nodup {names : List String} (h : names.Nodup) {name : String}
    {i : Nat} : names.idxOf? name = some i ↔ names[i]? = some name := by
  rw [List.idxOf?_eq_some_iff, List.getElem?_eq_some_iff]
  constructor
  · rintro ⟨hi, hname, -⟩
    exact ⟨hi, hname⟩
  · rintro ⟨hi, hname⟩
    refine ⟨hi, hname, fun j hj heq => ?_⟩
    have hji : j = i := h.getElem_inj_iff.mp (heq.trans hname.symm)
    omega

/-- **The hash table finds where they are listed.** -/
theorem position?_ofTokens (tokens : List Token) (name : String) :
    (ofTokens tokens).position? name = (Variables.ofTokens tokens).position? name := by
  have hnodup := (firstAppearances_names tokens).nodup
  ext i
  rw [indexed_ofTokens tokens name i, ← Array.getElem?_toList, names_ofTokens,
    Variables.position?, idxOf?_eq_some_iff_of_nodup hnodup]

theorem ofTable_ofTokens (tokens : List Token) :
    Bindings.ofTable (ofTokens tokens) = Bindings.ofPoint (Variables.ofTokens tokens) := by
  funext point name
  rw [Bindings.ofTable, Bindings.ofPoint, position?_ofTokens]

end VariableTable

/-! ### Variables with the coordinates of a point -/

/-- Each name has the coordinate of its place for its value. -/
def Bindings.Assigns (bindings : Bindings) (names : List String) (p : Point) : Prop :=
  ∀ (i : Nat) (name : String) (y : Float),
    names[i]? = some name → p[i]? = some y → bindings name = some y

section Assigns

variable {names : List String} {p : Point}

/-- Values that are listed with their names may be listed in any order. -/
theorem Bindings.assigns_ofList (hn : names.Nodup) (hp : p.length = names.length)
    {pairs : List (String × Float)} (h : pairs.Perm (names.zip p)) :
    (ofList pairs).Assigns names p := by
  have hkeys : (pairs.map Prod.fst).Nodup := by
    rw [(h.map Prod.fst).nodup_iff, List.map_fst_zip hp.ge]
    exact hn
  intro i name y hi hy
  refine ofList_of_mem hkeys (h.mem_iff.mpr (List.mem_of_getElem? (i := i) ?_))
  rw [List.getElem?_zip_eq_some]
  exact ⟨hi, hy⟩

/-- The coordinates say all of the values that the names have. -/
theorem Bindings.Assigns.eq_of_mem {b₁ b₂ : Bindings} (h₁ : b₁.Assigns names p)
    (h₂ : b₂.Assigns names p) (hp : p.length = names.length) {name : String}
    (hname : name ∈ names) : b₁ name = b₂ name := by
  obtain ⟨i, hi⟩ := List.mem_iff_getElem?.mp hname
  have hlt : i < p.length := hp ▸ (List.getElem?_eq_some_iff.mp hi).1
  have hy : p[i]? = some p[i] := List.getElem?_eq_getElem hlt
  rw [h₁ i name p[i] hi hy, h₂ i name p[i] hi hy]

end Assigns

/-- A point assigns its coordinates to the variables in their order. -/
theorem Bindings.assigns_ofPoint {tokens : List Token} {p : Point}
    (hp : p.length = (Variables.ofTokens tokens).size) :
    (ofPoint (.ofTokens tokens) p).Assigns (Variables.ofTokens tokens).names p := by
  rw [ofPoint_eq_ofList]
  exact assigns_ofList (firstAppearances_names tokens).nodup hp (List.Perm.refl _)

namespace Formula

namespace Tabled

theorem ofTokens_eq (tokens : List Token) :
    ofTokens tokens =
      (Formula.ofTokens tokens).map fun g => ⟨g.program, .ofTokens tokens⟩ := by
  rw [ofTokens, Formula.ofTokens]
  cases Polish.ofTokens tokens with
  | error defect => rfl
  | ok program => cases checkTurns tokens <;> rfl

/-- The variables of a formula are kept in a table instead of a list. -/
theorem exists_of_ofText {text : String} {f : Tabled} (h : ofText text = .ok f) :
    ∃ tokens g, scan text = .ok tokens ∧ Formula.ofTokens tokens = .ok g ∧
      f = ⟨g.program, .ofTokens tokens⟩ := by
  rw [ofText] at h
  cases hs : scan text with
  | error defect => simp [hs, bind, Except.bind] at h
  | ok tokens =>
    simp only [hs, bind, Except.bind, ofTokens_eq] at h
    obtain ⟨g, hg, rfl⟩ := map_eq_ok_iff.mp h
    exact ⟨tokens, g, rfl, hg, rfl⟩

/-- **The table changes nothing**: the objective is that of the formula. -/
theorem objective_eq {tokens : List Token} {g : Formula} (h : Formula.ofTokens tokens = .ok g) :
    Objective.ofTabled ⟨g.program, .ofTokens tokens⟩ = Objective.ofFormula g := by
  obtain ⟨program, -, -, rfl⟩ := ofTokens_eq_ok_iff.mp h
  simp only [Objective.ofTabled, Objective.ofFormula, dim, Formula.dim,
    VariableTable.size_ofTokens, VariableTable.ofTable_ofTokens]
  rfl

/-- There are as many coordinates as distinct variables in the text. -/
theorem size_eq_card (tokens : List Token) :
    (VariableTable.ofTokens tokens).size = (tokens.filterMap Token.name?).toFinset.card := by
  have happear := firstAppearances_names tokens
  rw [VariableTable.size_ofTokens, Variables.size, ← List.toFinset_card_of_nodup happear.nodup]
  congr 1
  ext x
  simp only [List.mem_toFinset, happear.mem_iff]

/-- What a formula has for a value where its variables have the coordinates of a point is the value
of its tree there. -/
theorem value_of_assigns {tokens : List Token} {t : Tree} (ht : Parse .sum tokens t)
    (hg : Formula.ofTokens tokens = .ok ⟨t.listing, .ofTokens tokens⟩) {p : Point}
    (hp : p.length = (Variables.ofTokens tokens).size) {bindings : Bindings}
    (h : bindings.Assigns (Variables.ofTokens tokens).names p) :
    t.value bindings = some (valueAt ⟨t.listing, .ofTokens tokens⟩ p) := by
  have hvalue := Tree.value_of_value_listing (value_ofPoint hg hp)
  rw [← hvalue]
  refine Tree.value_congr fun x hx => h.eq_of_mem (Bindings.assigns_ofPoint hp) hp ?_
  rw [ht.names_eq] at hx
  exact ((firstAppearances_names tokens).mem_iff x).mpr hx

/-- **Tables of variables are sound, and so is what is computed through them.** The names of a table
are the distinct variables of the tokens in the order of their first appearance, and finding a name
is the inverse of looking up a coordinate. So the objective of a formula refuses points that have not
one coordinate for each distinct variable. At all others it has the value that the tree of the text
has where each variable has the coordinate of its place, which is also the value of the formula
there, and where the variables are listed with their coordinates in any order. -/
theorem indexes_and_assigns :
    (∀ tokens,
      FirstAppearances (tokens.filterMap Token.name?) (VariableTable.ofTokens tokens).names.toList ∧
      ∀ name i, (VariableTable.ofTokens tokens).position? name = some i ↔
        (VariableTable.ofTokens tokens).names[i]? = some name) ∧
    ∀ text f, ofText text = .ok f → ∃ tokens t, scan text = .ok tokens ∧ Parse .sum tokens t ∧
      f.unknowns = .ofTokens tokens ∧ f.dim = (tokens.filterMap Token.name?).toFinset.card ∧
      ∀ call p,
        (p.length ≠ f.dim →
          (Objective.ofTabled f).apply call p = .error (.dimension f.dim p.length)) ∧
        (p.length = f.dim → ∃ y, (Objective.ofTabled f).apply call p = .ok y ∧
          (∀ bindings : Bindings, bindings.Assigns f.unknowns.names.toList p →
            t.value bindings = some y ∧ f.value bindings = .ok y) ∧
          ∀ pairs, pairs.Perm (f.unknowns.names.toList.zip p) →
            f.value (.ofList pairs) = .ok y) := by
  refine ⟨fun tokens => ⟨?_, VariableTable.indexed_ofTokens tokens⟩, fun text f hf => ?_⟩
  · rw [VariableTable.names_ofTokens]
    exact firstAppearances_names tokens
  · obtain ⟨tokens, g, hs, hg, rfl⟩ := exists_of_ofText hf
    obtain ⟨t, ht, rfl⟩ := exists_parse_of_ofTokens hg
    refine ⟨tokens, t, hs, ht, rfl, size_eq_card tokens, fun call p =>
      ⟨Objective.apply_ofFunction_of_length_ne, fun hp => ?_⟩⟩
    have hsize : p.length = (Variables.ofTokens tokens).size :=
      hp.trans (VariableTable.size_ofTokens tokens)
    simp only [VariableTable.names_ofTokens]
    have hvalue : ∀ bindings : Bindings,
        bindings.Assigns (Variables.ofTokens tokens).names p →
          t.value bindings = some (valueAt ⟨t.listing, .ofTokens tokens⟩ p) :=
      fun bindings => value_of_assigns ht hg hsize
    refine ⟨_, ?_, fun bindings h => ⟨hvalue bindings h, ?_⟩, fun pairs h => ?_⟩
    · rw [objective_eq hg]
      exact answers_ofFormula hg call p hsize
    · exact Tree.value_listing_of_value (hvalue bindings h)
    · exact Tree.value_listing_of_value
        (hvalue _ (Bindings.assigns_ofList (firstAppearances_names tokens).nodup hsize h))

/-- In `x2-X1` the first coordinate is that of `x2`, in whatever order the values are listed. -/
theorem indexes_and_assigns_difference :
    ∃ f, ofText "x2-X1" = .ok f ∧ (Objective.ofTabled f).apply 1 [10, 4] = .ok (10 - 4) ∧
      f.value (.ofList [("x1", 4), ("x2", 10)]) = .ok (10 - 4) := by
  let tokens : List Token := [.var "x2", .operator .sub, .var "x1"]
  let f : Tabled := ⟨[.var "x2", .var "x1", .operator .sub], .ofTokens tokens⟩
  have hf : ofText "x2-X1" = .ok f := rfl
  have hscan : scan "x2-X1" = .ok tokens := rfl
  obtain ⟨found, t, hs, -, -, hdim, hat⟩ := indexes_and_assigns.2 _ _ hf
  obtain rfl : tokens = found := Except.ok.inj (hscan.symm.trans hs)
  let p : Point := [10, 4]
  let pairs : List (String × Float) := [("x1", 4), ("x2", 10)]
  have hp : p.length = f.dim := hdim.symm
  obtain ⟨y, happly, -, hlisted⟩ := (hat 1 p).2 hp
  have hpairs : pairs.Perm (f.unknowns.names.toList.zip p) := by
    rw [VariableTable.names_ofTokens]
    exact List.Perm.swap _ _ _
  have hvalue : f.value (.ofList pairs) = .ok (10 - 4) := rfl
  obtain rfl : y = 10 - 4 := Except.ok.inj ((hlisted _ hpairs).symm.trans hvalue)
  exact ⟨f, hf, happly, hvalue⟩

end Tabled

end Formula

end Downhill
