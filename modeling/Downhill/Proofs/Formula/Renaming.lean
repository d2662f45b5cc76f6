import Downhill.Proofs.Formula.Unknowns
import Mathlib.Data.Set.Function

/-!
# Other names for the variables

The variables of a token list are given other names, different ones different names. Nothing but
names changes from there on: they are carried along, compared with each other and looked up, and never
read.

What is proved: renaming commutes with each of the passes that make a formula (`reorder_rename`,
`checkTurns_rename`, `ofTokens_rename`), and the list of variables keeps its order
(`eraseDups_map`). So a renamed formula is the formula of the renamed tokens, with the same defect if
there is one (`Formula.ofTokens_rename`), and describes the same objective, since its variables have
the coordinates that they had before (`ofFormula_rename`).
-/

namespace Downhill

variable {ρ : String → String}

/-! ### Tokens and passes over them -/

/-- The token with another name if it is a variable. -/
def Token.rename (ρ : String → String) : Token → Token
  | .var name => .var (ρ name)
  | token => token

theorem Token.name?_rename (token : Token) : (token.rename ρ).name? = token.name?.map ρ := by
  cases token <;> rfl

/-- The names are those from before, each replaced. -/
theorem filterMap_name?_rename (tokens : List Token) :
    (tokens.map (Token.rename ρ)).filterMap Token.name? =
      (tokens.filterMap Token.name?).map ρ := by
  rw [List.filterMap_map, List.map_filterMap]
  exact List.filterMap_congr fun token _ => token.name?_rename

theorem Before.after_rename (before : Before) (token : Token) :
    before.after (token.rename ρ) = before.after token := by
  cases before <;> cases token <;> rfl

/-- What stands in its place does so under any name. -/
theorem checkTurnsFrom_rename (before : Before) (tokens : List Token) :
    checkTurnsFrom before (tokens.map (Token.rename ρ)) = checkTurnsFrom before tokens := by
  induction tokens generalizing before with
  | nil => rfl
  | cons token tokens ih =>
    rw [List.map_cons, checkTurnsFrom, checkTurnsFrom, Before.after_rename]
    cases before.after token with
    | error defect => rfl
    | ok next => exact ih next

theorem checkTurns_rename (tokens : List Token) :
    checkTurns (tokens.map (Token.rename ρ)) = checkTurns tokens :=
  checkTurnsFrom_rename .start tokens

namespace Polish

theorem map_rename_operators (out : List Operator) :
    (out.map Token.operator).map (Token.rename ρ) = out.map Token.operator := by
  rw [List.map_map]
  rfl

/-- **The reverse Polish order is that of the renamed tokens**, whatever is waiting. -/
theorem reorder_rename (waiting : List Pending) (tokens : List Token) :
    reorder waiting (tokens.map (Token.rename ρ)) =
      (reorder waiting tokens).map (List.map (Token.rename ρ)) := by
  induction tokens generalizing waiting with
  | nil =>
    rw [List.map_nil, reorder_nil]
    cases finish waiting with
    | error defect => rfl
    | ok out => exact congrArg Except.ok (map_rename_operators out).symm
  | cons token tokens ih =>
    cases token with
    | number value =>
      show reorder waiting (.number value :: tokens.map (Token.rename ρ)) = _
      rw [reorder_number, reorder_number, ih]
      cases reorder waiting tokens <;> rfl
    | var name =>
      show reorder waiting (.var (ρ name) :: tokens.map (Token.rename ρ)) = _
      rw [reorder_var, reorder_var, ih]
      cases reorder waiting tokens <;> rfl
    | leftParen =>
      show reorder waiting (.leftParen :: tokens.map (Token.rename ρ)) = _
      rw [reorder_leftParen, reorder_leftParen, ih]
    | operator op =>
      show reorder waiting (.operator op :: tokens.map (Token.rename ρ)) = _
      rw [reorder_operator, reorder_operator, ih]
      cases reorder (.operator op :: (release op waiting).2) tokens with
      | error defect => rfl
      | ok more =>
        simp only [Except.map, List.map_append, map_rename_operators]
    | rightParen =>
      show reorder waiting (.rightParen :: tokens.map (Token.rename ρ)) = _
      cases hclose : close waiting with
      | error defect =>
        rw [reorder_rightParen_of_error _ _ hclose, reorder_rightParen_of_error _ _ hclose]
        rfl
      | ok closed =>
        obtain ⟨out, rest⟩ := closed
        rw [reorder_rightParen_of_close _ _ hclose, reorder_rightParen_of_close _ _ hclose, ih]
        cases reorder rest tokens with
        | error defect => rfl
        | ok more =>
          simp only [Except.map, List.map_append, map_rename_operators]

theorem ofTokens_rename (tokens : List Token) :
    ofTokens (tokens.map (Token.rename ρ)) =
      (ofTokens tokens).map (List.map (Token.rename ρ)) :=
  reorder_rename [] tokens

end Polish

/-! ### Lists of variables -/

/-- **Different names stay different**, and each is listed where it was. -/
theorem eraseDups_map {xs : List String} (hρ : Set.InjOn ρ {x | x ∈ xs}) :
    (xs.map ρ).eraseDups = xs.eraseDups.map ρ := by
  induction xs using List.reverseRecOn with
  | nil => rfl
  | append_singleton xs x ih =>
    have hxs : Set.InjOn ρ {x | x ∈ xs} := hρ.mono fun y hy => List.mem_append_left _ hy
    have hmem : ρ x ∈ xs.map ρ ↔ x ∈ xs := by
      refine ⟨fun h => ?_, List.mem_map_of_mem⟩
      obtain ⟨y, hy, heq⟩ := List.mem_map.mp h
      have hyx : y = x := hρ (List.mem_append_left _ hy) (by simp) heq
      exact hyx ▸ hy
    rw [List.map_append, List.map_singleton, eraseDups_concat, eraseDups_concat, ih hxs]
    by_cases hx : x ∈ xs
    · rw [if_pos hx, if_pos (hmem.mpr hx)]
    · rw [if_neg hx, if_neg (hmem.not.mpr hx), List.map_append, List.map_singleton]

namespace Variables

/-- The variables under other names. -/
def rename (ρ : String → String) (vs : Variables) : Variables := ⟨vs.names.map ρ⟩

theorem ofTokens_rename {tokens : List Token} (hρ : Set.InjOn ρ {x | .var x ∈ tokens}) :
    ofTokens (tokens.map (Token.rename ρ)) = (ofTokens tokens).rename ρ := by
  rw [ofTokens, ofTokens, rename, filterMap_name?_rename, eraseDups_map]
  exact hρ.mono fun x hx => Token.mem_filterMap_name?.mp hx

/-- A variable has the coordinate it had before. -/
theorem position?_rename {vs : Variables} {x : String} (hx : x ∈ vs.names)
    (hρ : Set.InjOn ρ {y | y ∈ vs.names}) : (vs.rename ρ).position? (ρ x) = vs.position? x := by
  obtain ⟨names⟩ := vs
  simp only [position?, rename]
  induction names with
  | nil => rfl
  | cons name names ih =>
    rw [List.map_cons, List.idxOf?_cons, List.idxOf?_cons]
    by_cases heq : name = x
    · simp [heq]
    · have hne : ρ name ≠ ρ x := fun h => heq (hρ List.mem_cons_self hx h)
      have hx' : x ∈ names := (List.mem_cons.mp hx).resolve_left (Ne.symm heq)
      simp only [beq_iff_eq, heq, hne, if_false]
      rw [ih hx' (hρ.mono fun y hy => List.mem_cons_of_mem _ hy)]

end Variables

/-! ### Values -/

/-- The reason with another name for the variable it names. -/
def Stuck.rename (ρ : String → String) : Stuck → Stuck
  | .unbound name => .unbound (ρ name)
  | .malformed depth => .malformed depth

section Values

variable {b b' : Bindings} {tokens : List Token}
  (h : ∀ x, .var x ∈ tokens → b' (ρ x) = b x)
include h

/-- Where the new names have the values of the old ones, the stack is the same. -/
theorem run_rename (stack : List Float) :
    Polish.run b' (tokens.map (Token.rename ρ)) stack =
      (Polish.run b tokens stack).mapError (Stuck.rename ρ) := by
  induction tokens generalizing stack with
  | nil => rfl
  | cons token tokens ih =>
    have hpush : Polish.push b' (token.rename ρ) stack =
        (Polish.push b token stack).mapError (Stuck.rename ρ) := by
      cases token with
      | var name =>
        simp only [Token.rename, Polish.push, h name List.mem_cons_self]
        cases b name <;> rfl
      | operator op =>
        rcases stack with _ | ⟨y, _ | ⟨x, rest⟩⟩ <;> rfl
      | number | leftParen | rightParen => rfl
    rw [List.map_cons, Polish.run, Polish.run, hpush]
    cases Polish.push b token stack with
    | error why => rfl
    | ok next => exact ih (fun x hx => h x (List.mem_cons_of_mem _ hx)) next

/-- **The value is the same**, or the reason why there is none. -/
theorem value_rename :
    Polish.value b' (tokens.map (Token.rename ρ)) =
      (Polish.value b tokens).mapError (Stuck.rename ρ) := by
  rw [Polish.value, Polish.value, run_rename h]
  cases Polish.run b tokens [] with
  | error why => rfl
  | ok stack => rcases stack with _ | ⟨x, _ | ⟨y, rest⟩⟩ <;> rfl

end Values

/-- The variables of a tree are those of its listing. -/
theorem Tree.filterMap_name?_listing (t : Tree) : t.listing.filterMap Token.name? = t.names := by
  induction t with
  | number value => rfl
  | var name => rfl
  | node op l r ihl ihr =>
    simp [listing, names, ihl, ihr, List.filterMap_cons, Token.name?]

/-! ### Formulas -/

namespace Formula

/-- The formula with other names for its variables. -/
def rename (ρ : String → String) (f : Formula) : Formula :=
  ⟨f.program.map (Token.rename ρ), f.unknowns.rename ρ⟩

theorem dim_rename (f : Formula) : (f.rename ρ).dim = f.dim := List.length_map ρ

variable {tokens : List Token} {f : Formula}

/-- **Renamed tokens make the renamed formula**, or have the same defect. -/
theorem ofTokens_rename (hρ : Set.InjOn ρ {x | .var x ∈ tokens}) :
    ofTokens (tokens.map (Token.rename ρ)) = (ofTokens tokens).map (rename ρ) := by
  rw [ofTokens, ofTokens, Polish.ofTokens_rename, checkTurns_rename,
    Variables.ofTokens_rename hρ]
  cases Polish.ofTokens tokens <;> cases checkTurns tokens <;> rfl

/-- So do texts with these tokens. -/
theorem ofText_rename {text text' : String} (ht : scan text = .ok tokens)
    (ht' : scan text' = .ok (tokens.map (Token.rename ρ)))
    (hρ : Set.InjOn ρ {x | .var x ∈ tokens}) : ofText text' = (ofText text).map (rename ρ) := by
  rw [ofText_of_scan ht, ofText_of_scan ht', ofTokens_rename hρ]

/-- The variables in a program are listed. -/
theorem mem_names_of_mem_program (hf : ofTokens tokens = .ok f) {x : String}
    (hx : .var x ∈ f.program) : x ∈ f.unknowns.names := by
  obtain ⟨t, ht, rfl⟩ := exists_parse_of_ofTokens hf
  have hname : x ∈ t.listing.filterMap Token.name? := Token.mem_filterMap_name?.mpr hx
  rw [Tree.filterMap_name?_listing, ht.names_eq] at hname
  exact ((firstAppearances_names tokens).mem_iff x).mpr hname

/-- The variables that are listed are in the tokens. -/
theorem mem_tokens_of_mem_names (hf : ofTokens tokens = .ok f) {x : String}
    (hx : x ∈ f.unknowns.names) : .var x ∈ tokens := by
  obtain ⟨program, -, -, rfl⟩ := ofTokens_eq_ok_iff.mp hf
  exact Token.mem_filterMap_name?.mp (((firstAppearances_names tokens).mem_iff x).mp hx)

/-- **A formula under other names describes the same objective.** -/
theorem ofFormula_rename (hf : ofTokens tokens = .ok f)
    (hρ : Set.InjOn ρ {x | .var x ∈ tokens}) :
    Objective.ofFormula (f.rename ρ) = Objective.ofFormula f := by
  have hnames : Set.InjOn ρ {x | x ∈ f.unknowns.names} :=
    hρ.mono fun x hx => mem_tokens_of_mem_names hf hx
  have hvalue : ∀ p, p.length = f.dim →
      (f.rename ρ).value (.ofPoint (f.rename ρ).unknowns p) = f.value (.ofPoint f.unknowns p) := by
    intro p hp
    have hbound : ∀ x, .var x ∈ f.program →
        Bindings.ofPoint (f.rename ρ).unknowns p (ρ x) = Bindings.ofPoint f.unknowns p x := by
      intro x hx
      unfold Bindings.ofPoint
      rw [rename, Variables.position?_rename (mem_names_of_mem_program hf hx) hnames]
    have hrenamed := value_rename hbound
    rw [← value, value_ofPoint hf hp] at hrenamed
    rw [value_ofPoint hf hp]
    exact hrenamed
  unfold Objective.ofFormula Objective.ofFunction
  rw [dim_rename]
  congr 1
  funext call p
  by_cases hp : p.length = f.dim
  · rw [if_pos hp, if_pos hp]
    simp only [hvalue p hp]
  · rw [if_neg hp, if_neg hp]

end Formula

end Downhill
