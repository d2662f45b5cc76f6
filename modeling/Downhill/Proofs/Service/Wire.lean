import Downhill.Proofs.Json.Object
import Downhill.Proofs.Json.Spelling
import Downhill.Proofs.Json.Written
import Downhill.Service.Wire
import Mathlib.Data.List.Forall2

/-!
# Queries and minima through JSON

What is written of a query or a minimum is read as it was, and much else is read that is never written:
the fields of a query in any order, with white space and escapes, with other members between them, and
with either name of the number of iterations. Only a field that comes twice is refused, under whichever
names it comes.

What is proved: a text that spells an object with the three fields of a query and any other members is
read as the query (`ofJson_of_presents`), a key of a field that has been there is refused whatever
follows it (`ofJson_of_repeated`), and what is written is read as it was (`json_faithful`).
-/

namespace Downhill

open Json

/-! ### Texts of arrays and objects -/

namespace Json

theorem not_continues_comma : ¬ Continues ',' := by simp [Continues, IsMark, Decimal.isDigit]

theorem not_continues_bracket : ¬ Continues ']' := by simp [Continues, IsMark, Decimal.isDigit]

theorem not_continues_brace : ¬ Continues '\x7d' := by simp [Continues, IsMark, Decimal.isDigit]

/-- Only a number may be continued. -/
theorem Ends.of_not_number (xs : List Lexeme) {x : Lexeme} (hx : ∀ n, x ≠ .number n)
    (rest : List Char) : Ends (xs ++ [x]) rest := by
  intro y hy hnumber
  rw [List.getLast?_concat] at hy
  obtain rfl := Option.some.inj hy
  obtain ⟨n, hn⟩ := hnumber
  exact absurd hn (hx n)

/-- Texts with commas between them spell what they spell with commas between. -/
theorem spells_items {texts : List (List Char)} {vs : List (List Lexeme)}
    (h : List.Forall₂ SpellsAll texts vs) :
    SpellsAll (List.intersperse [','] texts).flatten (itemsLexemes vs) := by
  induction h with
  | nil => exact .nil fun _ hc => by cases hc
  | @cons text v texts vs hv htail ih =>
    cases htail with
    | nil => simpa [itemsLexemes] using hv
    | @cons text' v' texts vs hv' htail =>
      have hcomma : SpellsAll ([','] ++ (List.intersperse [','] (text' :: texts)).flatten)
          ([.comma] ++ itemsLexemes (v' :: vs)) :=
        .append (.of_spells .comma) ih (.of_not_number [] (fun n hn => by cases hn) _)
      have hall := SpellsAll.append hv hcomma (.of_detached (detached_cons.mpr not_continues_comma))
      simpa [itemsLexemes] using hall

/-- An array of texts spells the array of what they spell. -/
theorem spells_array {texts : List (List Char)} {vs : List (List Lexeme)}
    (h : List.Forall₂ SpellsAll texts vs) :
    SpellsAll ('[' :: ((List.intersperse [','] texts).flatten ++ [']'])) (arrayLexemes vs) := by
  have hopen : SpellsAll ['['] [.openBracket] := .of_spells .openBracket
  have hclose : SpellsAll [']'] [.closeBracket] := .of_spells .closeBracket
  exact hopen.append ((spells_items h).append hclose
    (.of_detached (detached_cons.mpr not_continues_bracket)))
      (.of_not_number [] (fun n hn => by cases hn) _)

/-- A written member spells the key and what its value spells. -/
theorem spells_member (name : String) {text : List Char} {v : List Lexeme} (h : SpellsAll text v) :
    SpellsAll (quote name ++ ':' :: text) (Member.lexemes (name, v)) := by
  have hkey : SpellsAll (quote name) [.string (some name)] := .of_spells (spells_quote name)
  have hcolon : SpellsAll ([':'] ++ text) ([.colon] ++ v) :=
    .append (.of_spells .colon) h (.of_not_number [] (fun n hn => by cases hn) _)
  exact hkey.append hcolon (.of_not_number [] (fun n hn => by cases hn) _)

/-- The written field spells the member. -/
def SpellsMember (field : String × List Char) (m : Member) : Prop :=
  field.1 = m.1 ∧ SpellsAll field.2 m.2

theorem membersLexemes_eq (ms : List Member) :
    membersLexemes ms = itemsLexemes (ms.map Member.lexemes) := by
  cases ms with
  | nil => rfl
  | cons m ms => simp [membersLexemes, itemsLexemes, furtherLexemes, List.flatMap_map]

end Json

/-- **A written object spells the object of its members.** -/
theorem spells_objectText {fields : List (String × List Char)} {ms : List Member}
    (h : List.Forall₂ SpellsMember fields ms) : SpellsAll (objectText fields) (objectLexemes ms) := by
  have hmembers : List.Forall₂ SpellsAll (fields.map fun field => quote field.1 ++ ':' :: field.2)
      (ms.map Member.lexemes) := by
    rw [List.forall₂_map_left_iff, List.forall₂_map_right_iff]
    refine h.imp ?_
    rintro ⟨name, text⟩ ⟨key, v⟩ ⟨rfl, hv⟩
    exact spells_member name hv
  have hopen : SpellsAll ['\x7b'] [.openBrace] := .of_spells .openBrace
  have hclose : SpellsAll ['\x7d'] [.closeBrace] := .of_spells .closeBrace
  rw [objectText, objectLexemes, membersLexemes_eq]
  exact hopen.append ((spells_items hmembers).append hclose
    (.of_detached (detached_cons.mpr not_continues_brace)))
      (.of_not_number [] (fun n hn => by cases hn) _)

/-- A text is read by its lexemes. -/
theorem readText_of_spells {α : Type} {read : Reader α} {text : String} {l : List Lexeme} {a : α}
    (h : SpellsAll text.toList l) (hread : Reads read l a []) : readText read text = .ok a := by
  have hlexemes : lexemes text.toList = l := by
    have hall := lexemes_of_spells h (.of_detached detached_nil)
    rwa [List.append_nil, lexemes, List.append_nil] at hall
  obtain ⟨shorter, hread⟩ := hread
  rw [readText, hlexemes, hread]
  rfl

/-! ### Numbers -/

/-- A number as the double that is read for it. -/
def Json.Number.toDouble : Number → Float
  | .integer n => .ofInt n
  | .double x => x

theorem reads_readString (s : String) (rest : List Lexeme) :
    Reads readString ([.string (some s)] ++ rest) s rest := ⟨_, rfl⟩

theorem reads_readDouble (n : Number) (rest : List Lexeme) :
    Reads readDouble ([.number (some n)] ++ rest) n.toDouble rest := by
  cases n <;> exact ⟨_, rfl⟩

theorem reads_readInt64 (m : Int64) (rest : List Lexeme) :
    Reads readInt64 ([.number (some (.integer m.toInt))] ++ rest) m rest := by
  refine ⟨Nat.lt_succ_self _, ?_⟩
  have hrange : Int64.minValue.toInt ≤ m.toInt ∧ m.toInt ≤ Int64.maxValue.toInt :=
    ⟨m.minValue_le_toInt, m.toInt_le⟩
  simp only [List.singleton_append, readInt64, if_pos hrange, Int64.ofInt_toInt]

/-- A field is filled with what is read for it. -/
theorem Json.Reads.map {α β : Type} {read : Reader α} {l rest : List Lexeme} {a : α}
    (h : Reads read l a rest) (g : α → β) :
    Reads (fun l => do
      let p ← read l
      return ⟨g p.value, p.rest, p.shorter⟩) l (g a) rest := by
  obtain ⟨shorter, h⟩ := h
  refine ⟨shorter, ?_⟩
  simp only [h]
  rfl

/-- A finite double is written as a number that is read as this double. -/
theorem Json.exists_spellsAll_doubleText {x : Float} (hx : x.isFinite = true) :
    ∃ n : Number, n.toDouble = x ∧ SpellsAll (doubleText x).toList [.number (some n)] := by
  obtain ⟨numeral, hspells, hvalue⟩ := exists_spells_doubleText hx
  refine ⟨.double x, rfl, ?_⟩
  rw [← hvalue]
  exact .of_spells (.number hspells)

/-! ### Queries -/

namespace Query

/-- The fields of a query. -/
inductive Field
  | function
  | tolerance
  | maxIterations
  deriving DecidableEq

/-- The name of a field. -/
def Field.name : Field → String
  | function => "function"
  | tolerance => "tolerance"
  | maxIterations => "max_iterations"

/-- The keys that name a field. -/
def Field.keys : Field → List String
  | maxIterations => ["max_iterations", "max_iter"]
  | field => [field.name]

/-- The lexemes of the value of a field. -/
inductive Holds (q : Query) : Field → List Lexeme → Prop
  | function : q.Holds .function [.string (some q.function)]
  | tolerance {n : Number} (h : n.toDouble = q.tolerance) : q.Holds .tolerance [.number (some n)]
  | maxIterations : q.Holds .maxIterations [.number (some (.integer q.maxIterations.toInt))]

/-- The members present these fields of the query, in this order, and otherwise have other keys and
values of any kind. -/
inductive Presents (q : Query) : List Member → List Field → Prop
  | nil : q.Presents [] []
  /-- A field. -/
  | field {field : Field} {key : String} {v : List Lexeme} {ms : List Member} {fields : List Field}
      (hkey : key ∈ field.keys) (hv : q.Holds field v) (hms : q.Presents ms fields) :
      q.Presents ((key, v) :: ms) (field :: fields)
  /-- A member with another key. -/
  | foreign {key : String} {v : List Lexeme} {ms : List Member} {fields : List Field}
      (hkey : ∀ field : Field, key ∉ field.keys) (hv : Derives .value v)
      (hms : q.Presents ms fields) : q.Presents ((key, v) :: ms) fields

variable {q : Query}

/-- The draft that has these fields of the query. -/
def draft (q : Query) (fields : List Field) : QueryDraft where
  function := if .function ∈ fields then some q.function else none
  tolerance := if .tolerance ∈ fields then some q.tolerance else none
  maxIterations := if .maxIterations ∈ fields then some q.maxIterations else none

/-- What is given under a condition is there under the condition. -/
theorem isSome_ite {α : Type} (a : α) (p : Prop) [Decidable p] :
    (if p then some a else none).isSome = decide p := by
  split <;> simp [*]

/-- Every key of a field finds its slot, which is filled in a draft that has the field, and which is
filled by the value of the field. -/
theorem exists_slot {field : Field} {key : String} (hkey : key ∈ field.keys) :
    ∃ slot, record.slots.find? (·.hasName key) = some slot ∧ slot.name = field.name ∧
      (∀ (q : Query) (fields : List Field),
        slot.isFilled (q.draft fields) = decide (field ∈ fields)) ∧
      ∀ (q : Query) (fields : List Field) (v rest : List Lexeme), q.Holds field v →
        Reads (slot.fill (q.draft fields)) (v ++ rest) (q.draft (field :: fields)) rest := by
  cases field with
  | function =>
    obtain rfl := List.mem_singleton.mp hkey
    refine ⟨_, rfl, rfl, fun q fields => isSome_ite _ _, fun q fields v rest hv => ?_⟩
    cases hv
    have hdraft : q.draft (.function :: fields) =
        { q.draft fields with function := some q.function } := by simp [draft]
    rw [hdraft]
    exact (reads_readString q.function rest).map fun s => { q.draft fields with function := some s }
  | tolerance =>
    obtain rfl := List.mem_singleton.mp hkey
    refine ⟨_, rfl, rfl, fun q fields => isSome_ite _ _, fun q fields v rest hv => ?_⟩
    cases hv with
    | tolerance h =>
      have hdraft : q.draft (.tolerance :: fields) =
          { q.draft fields with tolerance := some q.tolerance } := by simp [draft]
      rw [hdraft, ← h]
      exact (reads_readDouble _ rest).map fun x => { q.draft fields with tolerance := some x }
  | maxIterations =>
    have hkeys : key = "max_iterations" ∨ key = "max_iter" := List.mem_pair.mp hkey
    rcases hkeys with rfl | rfl
    all_goals
      refine ⟨_, rfl, rfl, fun q fields => isSome_ite _ _, fun q fields v rest hv => ?_⟩
      cases hv
      have hdraft : q.draft (.maxIterations :: fields) =
          { q.draft fields with maxIterations := some q.maxIterations } := by simp [draft]
      rw [hdraft]
      exact (reads_readInt64 q.maxIterations rest).map fun m =>
        { q.draft fields with maxIterations := some m }

theorem find?_eq_none {key : String} (hkey : ∀ field : Field, key ∉ field.keys) :
    record.slots.find? (·.hasName key) = none := by
  have hfunction := hkey .function
  have htolerance := hkey .tolerance
  have hmaxIterations := hkey .maxIterations
  simp only [Field.keys, Field.name, List.mem_cons, List.not_mem_nil, or_false, not_or]
    at hfunction htolerance hmaxIterations
  simp [record, Slot.hasName, hfunction, htolerance, hmaxIterations]

/-- **Members do to a draft what they present**, unless a field comes again. -/
theorem Presents.takesAll {ms : List Member} {fields : List Field} (h : q.Presents ms fields)
    {before : List Field} (hnodup : (fields.reverse ++ before).Nodup) :
    TakesAll record.slots (q.draft before) ms (q.draft (fields.reverse ++ before)) := by
  induction h generalizing before with
  | nil => exact .nil
  | @field field key v ms fields hkey hv hms ih =>
    rw [List.reverse_cons, List.append_assoc, List.singleton_append] at hnodup ⊢
    obtain ⟨slot, hfind, -, hfilled, hfill⟩ := exists_slot hkey
    have hnew : field ∉ before := (List.nodup_cons.mp (List.nodup_append.mp hnodup).2.1).1
    refine .cons (.field hfind ?_ fun rest => hfill q before v rest hv) (ih hnodup)
    rw [hfilled, decide_eq_false hnew]
  | foreign hkey hv hms ih => exact .cons (.foreign (find?_eq_none hkey) hv) (ih hnodup)

/-- What members present that come with no field twice. -/
theorem Presents.takesAll_empty {ms : List Member} {fields : List Field} (h : q.Presents ms fields)
    (hnodup : fields.Nodup) : TakesAll record.slots record.empty ms (q.draft fields.reverse) := by
  have hreverse : (fields.reverse ++ []).Nodup := by
    rw [List.append_nil]
    exact (List.reverse_perm fields).symm.nodup hnodup
  have htakes := h.takesAll hreverse
  rwa [List.append_nil] at htakes

/-- **An object that presents the three fields of a query is read as the query**, whatever their order,
whichever name the number of iterations has, and whatever stands between them. -/
theorem ofJson_of_presents {ms : List Member} {fields : List Field} (h : q.Presents ms fields)
    (hfields : fields.Perm [.function, .tolerance, .maxIterations]) {text : String}
    (htext : SpellsAll text.toList (objectLexemes ms)) : ofJson text = .ok q := by
  have hnodup : fields.Nodup := hfields.symm.nodup (by decide)
  have hmem (field : Field) : field ∈ fields := hfields.mem_iff.mpr (by cases field <;> decide)
  have hfinish : record.finish (q.draft fields.reverse) = .ok q := by
    simp [record, draft, hmem, required]
    rfl
  have hread := reads_record (h.takesAll_empty hnodup) hfinish []
  rw [List.append_nil] at hread
  exact readText_of_spells htext hread

/-- **A field that comes again is refused as soon as its key is there**, whatever follows it. -/
theorem ofJson_of_repeated {ms : List Member} {fields : List Field} (h : q.Presents ms fields)
    (hnodup : fields.Nodup) {field : Field} (hfield : field ∈ fields) {key : String}
    (hkey : key ∈ field.keys) {text : List Char}
    (htext : SpellsAll text (.openBrace :: (membersLexemes ms ++ [.comma, .string (some key)])))
    (tail : List Char) :
    ofJson (String.ofList (text ++ tail)) = .error (.duplicateField field.name) := by
  obtain ⟨slot, hfind, hname, hfilled, -⟩ := exists_slot hkey
  have hms : ms ≠ [] := by
    rintro rfl
    cases h
    cases hfield
  have hlexemes : lexemes (String.ofList (text ++ tail)).toList =
      .openBrace :: (membersLexemes ms ++ .comma :: .string (some key) :: lexemes tail) := by
    have hends : Ends (.openBrace :: (membersLexemes ms ++ [.comma]) ++ [.string (some key)]) tail :=
      .of_not_number _ (fun n hn => by cases hn) tail
    rw [List.cons_append, List.append_assoc] at hends
    rw [String.toList_ofList, lexemes_of_spells htext hends]
    simp
  have hrefused : record.read (.openBrace :: (membersLexemes ms ++ .comma :: .string (some key) ::
      lexemes tail)) = .error (.duplicateField slot.name) := by
    refine record_eq_error_of_isFilled (h.takesAll_empty hnodup) hms hfind ?_ (lexemes tail)
    rw [hfilled]
    simpa using hfield
  rw [ofJson, readText, hlexemes, hrefused, hname]
  rfl

/-- **A written query presents its fields in their order.** -/
theorem exists_spells_toJson (h : q.tolerance.isFinite = true) :
    ∃ ms, SpellsAll q.toJson.toList (objectLexemes ms) ∧
      q.Presents ms [.function, .tolerance, .maxIterations] := by
  obtain ⟨n, hn, htolerance⟩ := exists_spellsAll_doubleText h
  obtain ⟨numeral, hnumeral, hvalue⟩ := exists_spellsNumeral_toString q.maxIterations
  have hlimit : Spells (toString q.maxIterations.toInt).toList
      (.number (some (.integer q.maxIterations.toInt))) := by
    rw [← hvalue]
    exact .number hnumeral
  refine ⟨[("function", [.string (some q.function)]), ("tolerance", [.number (some n)]),
    ("max_iterations", [.number (some (.integer q.maxIterations.toInt))])], ?_, ?_⟩
  · rw [toJson, String.toList_ofList]
    refine spells_objectText (.cons ⟨rfl, ?_⟩ (.cons ⟨rfl, htolerance⟩ (.cons ⟨rfl, ?_⟩ .nil)))
    · exact .of_spells (spells_quote q.function)
    · exact .of_spells hlimit
  · exact .field (by decide) .function (.field (by decide) (.tolerance hn)
      (.field (by decide) .maxIterations .nil))

end Query

/-! ### Minima -/

/-- The members of a written coordinate. -/
def Coordinate.members (c : Coordinate) (n : Number) : List Member :=
  [("name", [.string (some c.name)]), ("value", [.number (some n)])]

theorem Coordinate.takesAll (c : Coordinate) {n : Number} (hn : n.toDouble = c.value) :
    TakesAll record.slots record.empty (c.members n) ⟨some c.name, some c.value⟩ := by
  rw [← hn]
  exact .cons (.field rfl rfl fun rest => (reads_readString c.name rest).map fun s =>
      ({ name := some s } : CoordinateDraft))
    (.cons (.field rfl rfl fun rest => (reads_readDouble n rest).map fun x =>
      (⟨some c.name, some x⟩ : CoordinateDraft)) .nil)

/-- **A written coordinate is read as it was.** -/
theorem Coordinate.exists_spells_jsonText {c : Coordinate} (h : c.value.isFinite = true) :
    ∃ l, SpellsAll c.jsonText l ∧ ReadsItem record.read l c := by
  obtain ⟨n, hn, hvalue⟩ := exists_spellsAll_doubleText h
  refine ⟨objectLexemes (c.members n), ?_, ⟨_, _, rfl, fun hx => by cases hx⟩, ?_⟩
  · refine spells_objectText (.cons ⟨rfl, ?_⟩ (.cons ⟨rfl, hvalue⟩ .nil))
    exact .of_spells (spells_quote c.name)
  · exact fun rest => reads_record (c.takesAll hn) rfl rest

theorem Coordinate.exists_spells_all {cs : List Coordinate}
    (h : ∀ c ∈ cs, c.value.isFinite = true) :
    ∃ vs, List.Forall₂ SpellsAll (cs.map Coordinate.jsonText) vs ∧
      List.Forall₂ (ReadsItem record.read) vs cs := by
  induction cs with
  | nil => exact ⟨[], .nil, .nil⟩
  | cons c cs ih =>
    obtain ⟨v, hspells, hreads⟩ := Coordinate.exists_spells_jsonText (h c List.mem_cons_self)
    obtain ⟨vs, hall, hitems⟩ := ih fun d hd => h d (List.mem_cons_of_mem _ hd)
    exact ⟨v :: vs, .cons hspells hall, .cons hreads hitems⟩

namespace Minimum

/-- The members of a written minimum. -/
def members (vs : List (List Lexeme)) (n : Number) : List Member :=
  [("variables", arrayLexemes vs), ("function_value", [.number (some n)])]

theorem takesAll {m : Minimum} {vs : List (List Lexeme)}
    (hvs : List.Forall₂ (ReadsItem Coordinate.record.read) vs m.coordinates) {n : Number}
    (hn : n.toDouble = m.value) :
    TakesAll record.slots record.empty (members vs n) ⟨some m.coordinates, some m.value⟩ := by
  rw [← hn]
  exact .cons (.field rfl rfl fun rest => (reads_readList hvs rest).map fun cs =>
      ({ coordinates := some cs } : MinimumDraft))
    (.cons (.field rfl rfl fun rest => (reads_readDouble n rest).map fun x =>
      (⟨some m.coordinates, some x⟩ : MinimumDraft)) .nil)

/-- **A written minimum is read as it was.** -/
theorem ofJson_toJson {m : Minimum} (h : m.value.isFinite = true)
    (hcoordinates : ∀ c ∈ m.coordinates, c.value.isFinite = true) : ofJson m.toJson = .ok m := by
  obtain ⟨n, hn, hvalue⟩ := exists_spellsAll_doubleText h
  obtain ⟨vs, hspells, hitems⟩ := Coordinate.exists_spells_all hcoordinates
  have htext : SpellsAll m.toJson.toList (objectLexemes (members vs n)) := by
    rw [toJson, String.toList_ofList]
    exact spells_objectText (.cons ⟨rfl, spells_array hspells⟩ (.cons ⟨rfl, hvalue⟩ .nil))
  have hread := reads_record (takesAll hitems hn) (rfl : record.finish _ = .ok m) []
  rw [List.append_nil] at hread
  exact readText_of_spells htext hread

end Minimum

/-! ### Both ways -/

/-- **JSON is faithful, and lenient only where it may be.** A query or a minimum whose numbers are
finite is read from its written form as it was. A text that spells an object with the three fields of a
query is read as the query, in whatever order they come, under either name of the number of
iterations, and whatever other members with whatever values stand among them, with any white space and
any spelling of strings and numbers. A text in which a field comes again, be it under its other name,
is refused for that field as soon as its key is there, whatever follows. -/
theorem json_faithful :
    (∀ q : Query, q.tolerance.isFinite = true → Query.ofJson q.toJson = .ok q) ∧
    (∀ m : Minimum, m.value.isFinite = true → (∀ c ∈ m.coordinates, c.value.isFinite = true) →
      Minimum.ofJson m.toJson = .ok m) ∧
    (∀ (q : Query) (ms : List Member) (fields : List Query.Field) (text : String),
      q.Presents ms fields → fields.Perm [.function, .tolerance, .maxIterations] →
      SpellsAll text.toList (objectLexemes ms) → Query.ofJson text = .ok q) ∧
    (∀ (q : Query) (ms : List Member) (fields : List Query.Field) (field : Query.Field)
      (key : String) (text tail : List Char),
      q.Presents ms fields → fields.Nodup → field ∈ fields → key ∈ field.keys →
      SpellsAll text (.openBrace :: (membersLexemes ms ++ [.comma, .string (some key)])) →
      Query.ofJson (String.ofList (text ++ tail)) = .error (.duplicateField field.name)) := by
  refine ⟨fun q h => ?_, fun m => Minimum.ofJson_toJson, fun q ms fields text h hfields htext => ?_,
    fun q ms fields field key text tail h hnodup hfield hkey htext => ?_⟩
  · obtain ⟨ms, hspells, hpresents⟩ := Query.exists_spells_toJson h
    exact Query.ofJson_of_presents hpresents (List.Perm.refl _) hspells
  · exact Query.ofJson_of_presents h hfields htext
  · exact Query.ofJson_of_repeated h hnodup hfield hkey htext tail

theorem json_faithful_half :
    let q : Query := ⟨"x1 \"\n", 0.5, -3⟩
    let m : Minimum := ⟨[⟨"x1", 0.5⟩], 0.5⟩
    let number := ['-', '3']
    Query.ofJson q.toJson = .ok q ∧ Minimum.ofJson m.toJson = .ok m ∧
      Query.ofJson (String.ofList (objectText [("max_iter", number), ("note", ['n', 'u', 'l', 'l']),
        ("function", quote q.function), ("tolerance", (doubleText 0.5).toList)])) = .ok q ∧
      Query.ofJson (String.ofList (('\x7b' :: (quote "max_iter" ++ ':' :: number)) ++
        (',' :: quote "max_iterations") ++ [':', '0', '\x7d'])) =
          .error (.duplicateField "max_iterations") := by
  obtain ⟨hquery, hminimum, hpresents, hrepeated⟩ := json_faithful
  intro q m number
  have hhalf : (0.5 : Float).isFinite = true := by decide +kernel
  obtain ⟨n, hn, htolerance⟩ := exists_spellsAll_doubleText hhalf
  let limit : List Lexeme := [.number (some (.integer (-3)))]
  have hnumber : SpellsAll number limit :=
    .of_spells (.number (n := ⟨true, ['3'], [], none⟩) (.minus (spellsUnsigned_digits true 3)))
  have hlimit : q.Holds .maxIterations limit := .maxIterations
  refine ⟨hquery q hhalf, hminimum m hhalf fun c hc => ?_, ?_, ?_⟩
  · obtain rfl := List.mem_singleton.mp hc
    exact hhalf
  · refine hpresents q [("max_iter", limit), ("note", [.null]),
      ("function", [.string (some q.function)]), ("tolerance", [.number (some n)])]
      [.maxIterations, .function, .tolerance] _ ?_ (by decide) ?_
    · exact .field (by decide) hlimit (.foreign (fun field => by cases field <;> decide)
        (.leaf (.inl rfl)) (.field (by decide) .function (.field (by decide) (.tolerance hn) .nil)))
    · rw [String.toList_ofList]
      refine spells_objectText (.cons ⟨rfl, hnumber⟩ (.cons ⟨rfl, .of_spells .null⟩
        (.cons ⟨rfl, .of_spells (spells_quote q.function)⟩ (.cons ⟨rfl, htolerance⟩ .nil))))
  · refine hrepeated q [("max_iter", limit)] [.maxIterations] .maxIterations "max_iterations" _ _
      (.field (by decide) hlimit .nil) (by decide) (by decide) (by decide) ?_
    have hopen : SpellsAll ['\x7b'] [.openBrace] := .of_spells .openBrace
    have hcomma : SpellsAll (',' :: quote "max_iterations") [.comma, .string (some "max_iterations")] :=
      .append (.of_spells .comma) (.of_spells (spells_quote "max_iterations"))
        (.of_not_number [] (fun n hn => by cases hn) _)
    exact hopen.append ((spells_member "max_iter" hnumber).append hcomma
      (.of_detached (detached_cons.mpr not_continues_comma)))
        (.of_not_number [] (fun n hn => by cases hn) _)

end Downhill
