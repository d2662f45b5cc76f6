import Downhill.Formula.Variables
import Downhill.Proofs.Formula.Balance
import Downhill.Proofs.Formula.Pass

/-!
# How the tokens are rearranged

Reverse Polish order is made of any tokens whose parentheses pair up, be they a formula or not. So
what can be said of it cannot rest on a grammar: operators may stand side by side or alone, and wait
for operands that never come.

To tell equal tokens apart each is listed with its place in the text, as `List.zipIdx` does. Along
`Polish.reorder` an account is kept (`Placed`): what has been put out, together with the operators
that wait, is what has been read, parentheses apart. An operand is put out when it is read and an
operator not before, so all that stands before an operand in the program stands before it in the
text.

What is proved: the program holds the tokens of the text without the parentheses, each as often; its
operands are in the order of the text; and no operator is put out before an operand that it stands
behind (`Polish.ofTokens_rearranges`).
-/

namespace Downhill

/-- The tokens of a program with the places that they have in the text. -/
structure Rearranged (tokens program : List Token) (placed : List (Token × Nat)) : Prop where
  /-- They are the tokens of the program, in order. -/
  map_fst : placed.map Prod.fst = program
  /-- They are the tokens of the text, parentheses apart. -/
  perm : placed.Perm (tokens.zipIdx.filter fun p => !p.1.isParen)
  /-- The operands are in the order of the text. -/
  operands : (placed.filter fun p => p.1.isOperand) = tokens.zipIdx.filter fun p => p.1.isOperand
  /-- An operator stands behind all operands that it stands behind in the text. -/
  behind : ∀ (i j : Nat) (op : Operator) (m : Nat) (t : Token) (n : Nat),
    placed[i]? = some (.operator op, m) → placed[j]? = some (t, n) → t.isOperand = true → n < m →
      j < i

namespace Polish

/-- The operators that wait, the latest first. -/
def waitingOperators (waiting : List Pending) : List Operator :=
  waiting.filterMap fun
    | .operator op => some op
    | .paren => none

theorem waitingOperators_map_append (ops : List Operator) (waiting : List Pending) :
    waitingOperators (ops.map .operator ++ waiting) = ops ++ waitingOperators waiting := by
  simp [waitingOperators, List.filterMap_append, List.filterMap_map]

theorem waitingOperators_release (op : Operator) (waiting : List Pending) :
    waitingOperators waiting =
      (release op waiting).1 ++ waitingOperators (release op waiting).2 := by
  conv_lhs => rw [← release_append op waiting]
  exact waitingOperators_map_append _ _

theorem waitingOperators_of_close {waiting rest : List Pending} {out : List Operator}
    (h : close waiting = .ok (out, rest)) :
    waitingOperators waiting = out ++ waitingOperators rest := by
  rw [eq_append_of_close h, waitingOperators_map_append]
  rfl

theorem waitingOperators_of_finish {waiting : List Pending} {out : List Operator}
    (h : finish waiting = .ok out) : waitingOperators waiting = out := by
  induction waiting generalizing out with
  | nil => exact Except.ok.inj h
  | cons top waiting ih =>
    cases top with
    | paren => cases h
    | operator op =>
      cases hf : finish waiting with
      | error defect => simp [finish, hf, bind, Except.bind] at h
      | ok more =>
        simp only [finish, hf, bind, Except.bind, pure, Except.pure, Except.ok.injEq] at h
        rw [← h, ← ih hf]
        rfl

/-- What is put out while tokens are read from a place on, and operators that were read before are
held back. -/
structure Placed (held : List (Token × Nat)) (k : Nat) (ts : List Token)
    (placed : List (Token × Nat)) : Prop where
  /-- The operators and the tokens are put out, parentheses apart. -/
  perm : placed.Perm (held ++ (ts.zipIdx k).filter fun p => !p.1.isParen)
  /-- The operands are put out in order. -/
  operands : (placed.filter fun p => p.1.isOperand) = (ts.zipIdx k).filter fun p => p.1.isOperand
  /-- What is put out before an operand has been read before it. -/
  early : placed.Pairwise fun p q => q.1.isOperand = true → p.2 < q.2

/-- Operators that have been read before the place. -/
def ReadBefore (k : Nat) (held : List (Token × Nat)) : Prop :=
  ∀ p ∈ held, p.1.isOperand = false ∧ p.2 < k

section Placed

variable {held out placed : List (Token × Nat)} {k : Nat} {ts : List Token}

theorem Placed.le_of_isOperand (h : Placed held k ts placed) {p : Token × Nat} (hp : p ∈ placed)
    (ht : p.1.isOperand = true) : k ≤ p.2 := by
  have hmem : p ∈ placed.filter fun p => p.1.isOperand := List.mem_filter.mpr ⟨hp, ht⟩
  rw [h.operands] at hmem
  exact List.le_snd_of_mem_zipIdx (List.mem_of_mem_filter hmem)

/-- At the end the operators held back are put out. -/
theorem Placed.nil (hheld : ReadBefore k held) : Placed held k [] held where
  perm := by simp
  operands := by simpa using fun t n hp => (hheld (t, n) hp).1
  early := List.pairwise_of_forall_mem_list fun p _ q hq ht => by simp [(hheld q hq).1] at ht

/-- Operators that were held back are put out first. -/
theorem Placed.release (h : Placed held k ts placed) (hout : ReadBefore k out) :
    Placed (out ++ held) k ts (out ++ placed) where
  perm := by simpa using h.perm.append_left out
  operands := by
    have hnone : (out.filter fun p => p.1.isOperand) = [] := by
      simpa using fun t n hp => (hout (t, n) hp).1
    rw [List.filter_append, hnone, h.operands, List.nil_append]
  early := by
    refine List.pairwise_append.mpr ⟨(Placed.nil hout).early, h.early, fun p hp q hq ht => ?_⟩
    have := (hout p hp).2
    have := h.le_of_isOperand hq ht
    omega

/-- A parenthesis is not put out. -/
theorem Placed.paren {t : Token} (h : Placed held (k + 1) ts placed) (ht : t.isParen = true) :
    Placed held k (t :: ts) placed where
  perm := by simpa [ht] using h.perm
  operands := by
    have hnot : t.isOperand = false := by cases t <;> simp_all [Token.isParen, Token.isOperand]
    simpa [hnot] using h.operands
  early := h.early

/-- An operand is put out when it is read. -/
theorem Placed.operand {t : Token} (h : Placed held (k + 1) ts placed) (ht : t.isOperand = true) :
    Placed held k (t :: ts) ((t, k) :: placed) where
  perm := by
    have hnot : t.isParen = false := by cases t <;> simp_all [Token.isParen, Token.isOperand]
    simpa [hnot] using (h.perm.cons (t, k)).trans List.perm_middle.symm
  operands := by simpa [ht] using h.operands
  early := List.pairwise_cons.mpr ⟨fun q hq hqt => h.le_of_isOperand hq hqt, h.early⟩

/-- An operator is held back when it is read. -/
theorem Placed.operator {op : Operator} (h : Placed ((.operator op, k) :: held) (k + 1) ts placed) :
    Placed held k (.operator op :: ts) placed where
  perm := by simpa [Token.isParen] using h.perm.trans List.perm_middle.symm
  operands := by simpa [Token.isOperand] using h.operands
  early := h.early

/-- Operators held back, in the order in which some are put out now and the others later. -/
theorem exists_held_append {ops now later : List Operator} (hops : ops = now ++ later)
    (h : held.map Prod.fst = ops.map .operator) :
    ∃ first second, held = first ++ second ∧ first.map Prod.fst = now.map .operator ∧
      second.map Prod.fst = later.map .operator := by
  rw [hops, List.map_append] at h
  exact List.map_eq_append_iff.mp h

theorem ReadBefore.of_append_left {more : List (Token × Nat)} (h : ReadBefore k (held ++ more)) :
    ReadBefore k held :=
  fun p hp => h p (List.mem_append_left _ hp)

theorem ReadBefore.of_append_right {more : List (Token × Nat)} (h : ReadBefore k (held ++ more)) :
    ReadBefore k more :=
  fun p hp => h p (List.mem_append_right _ hp)

theorem ReadBefore.cons (h : ReadBefore k held) (op : Operator) :
    ReadBefore (k + 1) ((.operator op, k) :: held) := by
  rintro p (_ | ⟨_, hp⟩)
  · exact ⟨rfl, k.lt_succ_self⟩
  · exact ⟨(h p hp).1, (h p hp).2.trans k.lt_succ_self⟩

theorem ReadBefore.succ (h : ReadBefore k held) : ReadBefore (k + 1) held :=
  fun p hp => ⟨(h p hp).1, (h p hp).2.trans k.lt_succ_self⟩

end Placed

/-- **Everything read is put out**, whatever is waiting and whatever the tokens are. -/
theorem exists_placed {waiting : List Pending} {ts program : List Token} {k : Nat}
    {held : List (Token × Nat)} (h : reorder waiting ts = .ok program)
    (hheld : held.map Prod.fst = (waitingOperators waiting).map .operator)
    (hbefore : ReadBefore k held) :
    ∃ placed, placed.map Prod.fst = program ∧ Placed held k ts placed := by
  -- on the tokens that remain; `held` lists the operators that wait with the places they come from
  induction ts generalizing waiting program k held with
  | nil =>
    rw [reorder_nil] at h
    cases hf : finish waiting with
    | error defect => simp [hf, Except.map] at h
    | ok out =>
      simp only [hf, Except.map, Except.ok.injEq] at h
      exact ⟨held, by rw [hheld, waitingOperators_of_finish hf, h], .nil hbefore⟩
  | cons t ts ih =>
    cases t with
    | number v =>
      rw [reorder_number] at h
      obtain ⟨more, hmore, rfl⟩ := map_eq_ok_iff.mp h
      obtain ⟨placed, rfl, hp⟩ := ih hmore hheld hbefore.succ
      exact ⟨_, rfl, hp.operand rfl⟩
    | var x =>
      rw [reorder_var] at h
      obtain ⟨more, hmore, rfl⟩ := map_eq_ok_iff.mp h
      obtain ⟨placed, rfl, hp⟩ := ih hmore hheld hbefore.succ
      exact ⟨_, rfl, hp.operand rfl⟩
    | leftParen =>
      rw [reorder_leftParen] at h
      obtain ⟨placed, rfl, hp⟩ := ih h hheld hbefore.succ
      exact ⟨placed, rfl, hp.paren rfl⟩
    | rightParen =>
      cases hc : close waiting with
      | error defect => simp [reorder_rightParen_of_error _ _ hc] at h
      | ok found =>
        obtain ⟨out, rest⟩ := found
        rw [reorder_rightParen_of_close _ _ hc] at h
        obtain ⟨more, hmore, rfl⟩ := map_eq_ok_iff.mp h
        obtain ⟨first, later, rfl, hfirst, hlater⟩ :=
          exists_held_append (waitingOperators_of_close hc) hheld
        obtain ⟨placed, rfl, hp⟩ := ih hmore hlater hbefore.of_append_right.succ
        exact ⟨first ++ placed, by rw [List.map_append, hfirst],
          (hp.paren rfl).release hbefore.of_append_left⟩
    | operator op =>
      rw [reorder_operator] at h
      obtain ⟨more, hmore, rfl⟩ := map_eq_ok_iff.mp h
      obtain ⟨first, later, rfl, hfirst, hlater⟩ :=
        exists_held_append (waitingOperators_release op waiting) hheld
      have hheld' : ((Token.operator op, k) :: later).map Prod.fst =
          (waitingOperators (.operator op :: (release op waiting).2)).map .operator := by
        simp [hlater, waitingOperators]
      obtain ⟨placed, rfl, hp⟩ := ih hmore hheld' (hbefore.of_append_right.cons op)
      exact ⟨first ++ placed, by rw [List.map_append, hfirst],
        hp.operator.release hbefore.of_append_left⟩

/-- The tokens of a program have places in the text. -/
theorem exists_rearranged {tokens program : List Token} (h : ofTokens tokens = .ok program) :
    ∃ placed, Rearranged tokens program placed := by
  have hnone : ReadBefore 0 [] := by simp [ReadBefore]
  obtain ⟨placed, rfl, hp⟩ := exists_placed h rfl hnone
  refine ⟨placed, rfl, by simpa using hp.perm, hp.operands, ?_⟩
  intro i j op m t n hi hj ht hlt
  -- otherwise the operator is put out before the operand, and so has been read before it
  by_contra hij
  rcases Nat.lt_or_eq_of_le (Nat.le_of_not_lt hij) with hij | rfl
  · obtain ⟨hi', hi⟩ := List.getElem?_eq_some_iff.mp hi
    obtain ⟨hj', hj⟩ := List.getElem?_eq_some_iff.mp hj
    have hmn := List.pairwise_iff_getElem.mp hp.early i j hi' hj' hij
    rw [hi, hj] at hmn
    exact absurd (hmn ht) (Nat.lt_asymm hlt)
  · rw [hi] at hj
    cases hj
    cases ht

end Polish

/-! ### The program beside the text -/

/-- Of tokens with places, those that are chosen by themselves. -/
theorem map_fst_filter_zipIdx (p : Token → Bool) (tokens : List Token) :
    (tokens.zipIdx.filter fun q => p q.1).map Prod.fst = tokens.filter p := by
  conv_rhs => rw [← List.zipIdx_map_fst 0 tokens, List.filter_map]
  rfl

/-- Variables are operands. -/
theorem Variables.ofTokens_filter_isOperand (tokens : List Token) :
    ofTokens (tokens.filter Token.isOperand) = ofTokens tokens := by
  have hnames : ∀ t : Token, (Option.guard Token.isOperand t).bind Token.name? = t.name? := by
    intro t
    cases t <;> rfl
  rw [ofTokens, ofTokens, ← List.filterMap_eq_filter, List.filterMap_filterMap]
  simp only [hnames]

section Rearranged

variable {tokens program : List Token} {placed : List (Token × Nat)}
  (h : Rearranged tokens program placed)
include h

theorem Rearranged.program_perm : program.Perm (tokens.filter fun t => !t.isParen) := by
  have hperm := h.perm.map Prod.fst
  rwa [h.map_fst, map_fst_filter_zipIdx fun t => !t.isParen] at hperm

theorem Rearranged.isParen_eq_false : ∀ t ∈ program, t.isParen = false := by
  intro t ht
  simpa using List.of_mem_filter (h.program_perm.mem_iff.mp ht)

theorem Rearranged.filter_isOperand :
    program.filter Token.isOperand = tokens.filter Token.isOperand := by
  have hoperands := congrArg (List.map Prod.fst) h.operands
  rw [map_fst_filter_zipIdx] at hoperands
  rw [← h.map_fst, List.filter_map, ← hoperands]
  rfl

theorem Rearranged.variables_eq : Variables.ofTokens program = Variables.ofTokens tokens := by
  rw [← Variables.ofTokens_filter_isOperand, h.filter_isOperand,
    Variables.ofTokens_filter_isOperand]

end Rearranged

namespace Polish

/-- **What becomes of the tokens.** A token list has a reverse Polish order exactly when its
parentheses pair up, and otherwise fails for that reason. The order holds no parenthesis, and every
other token as often as the text. Its operands are those of the text in the same order, and so are
its variables. With the places that its tokens have in the text, no operator stands before an
operand that it stands behind in the text. -/
theorem ofTokens_rearranges (tokens : List Token) :
    ((∃ program, ofTokens tokens = .ok program) ↔ Balanced tokens) ∧
      (¬ Balanced tokens → ofTokens tokens = .error .unbalanced) ∧
      ∀ program, ofTokens tokens = .ok program →
        (∀ t ∈ program, t.isParen = false) ∧
        program.Perm (tokens.filter fun t => !t.isParen) ∧
        program.filter Token.isOperand = tokens.filter Token.isOperand ∧
        Variables.ofTokens program = Variables.ofTokens tokens ∧
        ∃ placed, Rearranged tokens program placed := by
  refine ⟨⟨?_, ofTokens_of_balanced⟩, ofTokens_of_not_balanced, ?_⟩
  · rintro ⟨program, hp⟩
    by_contra hb
    cases hp.symm.trans (ofTokens_of_not_balanced hb)
  · intro program hp
    obtain ⟨placed, hplaced⟩ := exists_rearranged hp
    exact ⟨hplaced.isParen_eq_false, hplaced.program_perm, hplaced.filter_isOperand,
      hplaced.variables_eq, placed, hplaced⟩

/-- In `-(x2*/x1)x2^`, which is no formula, the sign waits to the end, and the product is put out
where the quotient is read. -/
theorem ofTokens_rearranges_no_formula :
    ofTokens [.operator .sub, .leftParen, .var "x2", .operator .mul, .operator .div, .var "x1",
        .rightParen, .var "x2", .operator .pow] =
      .ok [.var "x2", .operator .mul, .var "x1", .operator .div, .var "x2", .operator .pow,
        .operator .sub] ∧
    ∃ placed, Rearranged
      [.operator .sub, .leftParen, .var "x2", .operator .mul, .operator .div, .var "x1",
        .rightParen, .var "x2", .operator .pow]
      [.var "x2", .operator .mul, .var "x1", .operator .div, .var "x2", .operator .pow,
        .operator .sub] placed := by
  let tokens : List Token := [.operator .sub, .leftParen, .var "x2", .operator .mul,
    .operator .div, .var "x1", .rightParen, .var "x2", .operator .pow]
  have hprogram : ofTokens tokens = .ok [.var "x2", .operator .mul, .var "x1", .operator .div,
      .var "x2", .operator .pow, .operator .sub] := rfl
  obtain ⟨-, -, -, -, hplaced⟩ := (ofTokens_rearranges tokens).2.2 _ hprogram
  exact ⟨hprogram, hplaced⟩

end Polish

end Downhill
