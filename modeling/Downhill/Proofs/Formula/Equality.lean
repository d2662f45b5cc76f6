import Downhill.Proofs.Float.Literal
import Downhill.Proofs.Formula.LongestMatch
import Downhill.Proofs.Formula.Rearrangement
import Downhill.Proofs.Formula.Renaming

/-!
# Equal formulas

Formulas are compared by their programs and their variables, and the numbers in them by value. For
numbers in general this is no equality. For the numbers of a text it is one, as they have no sign
(`Unsigned`). And the variables need not be compared: a program holds them in the order of the text.

What is proved: formulas of texts are equal exactly when their programs are, exactly when the tokens
of the texts have the same tree, and then they are the same (`Formula.beq_iff`).
-/

namespace Downhill

namespace Token

/-- If the token is a number, it has no sign. -/
def Unsigned : Token → Prop
  | number y => Downhill.Unsigned y.toModel.unpack
  | _ => True

theorem beq_self {a : Token} (ha : a.Unsigned) : (a == a) = true := by
  cases a with
  | number y => exact (Downhill.Unsigned.beq_iff ha ha).mpr rfl
  | var x => exact beq_self_eq_true x
  | operator op => exact beq_self_eq_true op
  | leftParen | rightParen => rfl

theorem eq_of_beq {a b : Token} (ha : a.Unsigned) (hb : b.Unsigned) (h : (a == b) = true) :
    a = b := by
  cases a <;> cases b <;> try cases h
  case number.number y z => rw [(Downhill.Unsigned.beq_iff ha hb).mp h]
  case var.var x y => rw [show x = y from LawfulBEq.eq_of_beq h]
  case operator.operator op op' => rw [show op = op' from LawfulBEq.eq_of_beq h]
  all_goals rfl

/-- Without signs, tokens are equal only if they are the same. -/
theorem beq_iff {a b : Token} (ha : a.Unsigned) (hb : b.Unsigned) : (a == b) = true ↔ a = b :=
  ⟨eq_of_beq ha hb, fun h => h ▸ beq_self ha⟩

/-- So are lists of them. -/
theorem list_beq_iff {as bs : List Token} (ha : ∀ a ∈ as, a.Unsigned) (hb : ∀ b ∈ bs, b.Unsigned) :
    (as == bs) = true ↔ as = bs := by
  induction as generalizing bs with
  | nil => cases bs <;> simp
  | cons a as ih =>
    cases bs with
    | nil => simp
    | cons b bs =>
      rw [List.forall_mem_cons] at ha hb
      rw [List.cons_beq_cons, Bool.and_eq_true, beq_iff ha.1 hb.1, ih ha.2 hb.2, List.cons.injEq]

end Token

/-- What is spelled has no sign. -/
theorem Lexer.Spells.unsigned {cs : List Char} {token : Token} (h : Lexer.Spells cs token) :
    token.Unsigned := by
  cases h with
  | whole | fraction => exact unsigned_ofScientific _ _
  | leftParen | rightParen | operator | name => trivial

/-- What is read from the pieces of a text is spelled there. -/
theorem Cut.exists_spells {cs : List Char} {pieces : List Piece} {tokens : List Token}
    (hcut : Cut cs pieces) (h : List.Forall₂ Piece.Reads pieces tokens) :
    ∀ token ∈ tokens, ∃ word, Lexer.Spells word token := by
  induction hcut generalizing tokens with
  | nil =>
    cases h
    simp
  | separator _ spells _ ih =>
    obtain ⟨token, tokens, hpiece, hrest, rfl⟩ := List.forall₂_cons_left_iff.mp h
    cases hpiece
    exact List.forall_mem_cons.mpr ⟨⟨_, spells⟩, ih hrest⟩
  | run _ _ _ _ ih =>
    obtain ⟨token, tokens, hpiece, hrest, rfl⟩ := List.forall₂_cons_left_iff.mp h
    exact List.forall_mem_cons.mpr ⟨⟨_, (Piece.reads_run_iff.mp hpiece).1⟩, ih hrest⟩

theorem exists_spells_of_scan {text : String} {tokens : List Token} (h : scan text = .ok tokens) :
    ∀ token ∈ tokens, ∃ word, Lexer.Spells word token :=
  (cut_iff.mpr rfl).exists_spells (scan_eq_ok_iff.mp h)

/-- The tokens of a listing are tokens of the text. -/
theorem Parse.mem_of_mem_listing {layer : Layer} {ts : List Token} {t : Tree}
    (h : Parse layer ts t) {token : Token} (htoken : token ∈ t.listing) : token ∈ ts := by
  induction h with
  | row _ _ _ ihl ihr =>
    simp only [Tree.listing, List.mem_append, List.mem_singleton] at htoken
    obtain (htoken | htoken) | rfl := htoken
    · exact List.mem_append_left _ (ihl htoken)
    · exact List.mem_append_right _ (List.mem_cons_of_mem _ (ihr htoken))
    · exact List.mem_append_right _ List.mem_cons_self
  | pass _ ih => exact ih htoken
  | number | var => exact htoken
  | group _ ih => exact List.mem_cons_of_mem _ (List.mem_append_left _ (ih htoken))

namespace Formula

variable {a b : String} {f g : Formula}

/-- What a formula of a text is made of is spelled in the text. -/
theorem exists_spells_of_mem_program (hf : ofText a = .ok f) :
    ∀ token ∈ f.program, ∃ word, Lexer.Spells word token := by
  obtain ⟨tokens, hs, ht⟩ := exists_scan_of_ofText hf
  obtain ⟨t, hparse, rfl⟩ := exists_parse_of_ofTokens ht
  exact fun token htoken => exists_spells_of_scan hs token (hparse.mem_of_mem_listing htoken)

theorem unsigned_program (hf : ofText a = .ok f) : ∀ token ∈ f.program, token.Unsigned := by
  intro token htoken
  obtain ⟨word, hword⟩ := exists_spells_of_mem_program hf token htoken
  exact hword.unsigned

/-- **Operands keep their order**: the variables of the text are those of the program. -/
theorem unknowns_eq_ofTokens_program (hf : ofText a = .ok f) : f.unknowns = .ofTokens f.program := by
  obtain ⟨tokens, -, ht⟩ := exists_scan_of_ofText hf
  obtain ⟨program, hp, -, rfl⟩ := ofTokens_eq_ok_iff.mp ht
  obtain ⟨placed, hplaced⟩ := Polish.exists_rearranged hp
  exact hplaced.variables_eq.symm

/-- Formulas of texts are the same if their programs are. -/
theorem eq_of_program_eq (hf : ofText a = .ok f) (hg : ofText b = .ok g)
    (h : f.program = g.program) : f = g := by
  have hunknowns : f.unknowns = g.unknowns := by
    rw [unknowns_eq_ofTokens_program hf, unknowns_eq_ofTokens_program hg, h]
  cases f
  cases g
  rw [Formula.mk.injEq]
  exact ⟨h, hunknowns⟩

theorem program_beq_iff (hf : ofText a = .ok f) (hg : ofText b = .ok g) :
    (f.program == g.program) = true ↔ f.program = g.program :=
  Token.list_beq_iff (unsigned_program hf) (unsigned_program hg)

/-- **Formulas of texts are equal exactly when they are the same.** -/
theorem beq_iff (hf : ofText a = .ok f) (hg : ofText b = .ok g) : (f == g) = true ↔ f = g := by
  have hbeq : (f == g) = (f.program == g.program && f.unknowns == g.unknowns) := rfl
  rw [hbeq, Bool.and_eq_true, program_beq_iff hf hg]
  constructor
  · exact fun h => eq_of_program_eq hf hg h.1
  · rintro rfl
    exact ⟨rfl, beq_self_eq_true _⟩

/-- And exactly when the texts have the same tree. -/
theorem eq_iff_tree_eq {ts us : List Token} {t u : Tree} (hf : ofText a = .ok f)
    (hg : ofText b = .ok g) (ha : scan a = .ok ts) (hb : scan b = .ok us) (ht : Parse .sum ts t)
    (hu : Parse .sum us u) : f = g ↔ t = u := by
  obtain ⟨t', ht', rfl⟩ := exists_parse_of_ofTokens ((ofText_of_scan ha).symm.trans hf)
  obtain ⟨u', hu', rfl⟩ := exists_parse_of_ofTokens ((ofText_of_scan hb).symm.trans hg)
  obtain rfl := ht.unique ht'
  obtain rfl := hu.unique hu'
  constructor
  · intro h
    exact Tree.listing_injective (congrArg program h)
  · rintro rfl
    exact eq_of_program_eq hf hg rfl

end Formula

end Downhill
