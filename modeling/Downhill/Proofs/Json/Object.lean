import Downhill.Json.Reader
import Mathlib.Data.List.Basic

/-!
# Values, arrays and objects

The grammar of JSON values over lexemes, and what readers do along it.

What is proved: a value nobody wants to know is skipped to its end, however deep it is
(`reads_skipValue`); items of an array are read one after the other (`reads_readList`); and an object is
read member by member (`reads_record`), up to the key of a field that is there already
(`record_eq_error_of_duplicate`).
-/

namespace Downhill.Json

/-! ### What a reader does -/

/-- The reader takes a value off the front of the lexemes and leaves the rest. -/
def Reads {α : Type} (read : Reader α) (l : List Lexeme) (a : α) (rest : List Lexeme) : Prop :=
  ∃ shorter, read l = .ok ⟨a, rest, shorter⟩

/-! ### The grammar of values -/

/-- A lexeme that is a value by itself. -/
def Lexeme.IsLeaf (x : Lexeme) : Prop :=
  x = .null ∨ (∃ b, x = .bool b) ∨ (∃ n, x = .number n) ∨ ∃ s, x = .string s

/-- The phrases of the grammar. -/
inductive Phrase
  /-- A value. -/
  | value
  /-- The items of an array, with commas between them. -/
  | items
  /-- The members of an object, with commas between them. -/
  | members

/-- The lexemes that make a phrase. -/
inductive Derives : Phrase → List Lexeme → Prop
  /-- A word, a number or a string. -/
  | leaf {x : Lexeme} (h : x.IsLeaf) : Derives .value [x]
  /-- An array without items. -/
  | emptyArray : Derives .value [.openBracket, .closeBracket]
  /-- An array. -/
  | array {l : List Lexeme} (h : Derives .items l) :
      Derives .value (.openBracket :: (l ++ [.closeBracket]))
  /-- An object without members. -/
  | emptyObject : Derives .value [.openBrace, .closeBrace]
  /-- An object. -/
  | object {l : List Lexeme} (h : Derives .members l) :
      Derives .value (.openBrace :: (l ++ [.closeBrace]))
  /-- The last item. -/
  | item {v : List Lexeme} (h : Derives .value v) : Derives .items v
  /-- An item before others. -/
  | moreItems {v l : List Lexeme} (h : Derives .value v) (hl : Derives .items l) :
      Derives .items (v ++ .comma :: l)
  /-- The last member. -/
  | member {key : Option String} {v : List Lexeme} (h : Derives .value v) :
      Derives .members (.string key :: .colon :: v)
  /-- A member before others. -/
  | moreMembers {key : Option String} {v l : List Lexeme} (h : Derives .value v)
      (hl : Derives .members l) : Derives .members (.string key :: .colon :: (v ++ .comma :: l))

/-! ### Skipping -/

/-- The lexemes behind the outermost value, from behind a value inside it. -/
def skipBehind (frames : List Frame) (l : List Lexeme) : Except Fault (List Lexeme) :=
  match Place.behind frames with
  | none => .ok l
  | some place => skipFrom place l

theorem skipFrom_cons {place : Place} {x : Lexeme} {l : List Lexeme} {inside : Place}
    (h : place.next x = .ok (some inside)) : skipFrom place (x :: l) = skipFrom inside l := by
  rw [skipFrom, h]

theorem skipFrom_cons_of_behind {place : Place} {x : Lexeme} {frames : List Frame}
    {l : List Lexeme} (h : place.next x = .ok (Place.behind frames)) :
    skipFrom place (x :: l) = skipBehind frames l := by
  rw [skipFrom, h, skipBehind]
  cases Place.behind frames <;> rfl

/-- Inside an array or an object the place behind a value is before a comma or the end. -/
theorem skipBehind_cons (frame : Frame) (frames : List Frame) (l : List Lexeme) :
    skipBehind (frame :: frames) l = skipFrom ⟨.more, frame :: frames⟩ l := rfl

theorem skipFrom_colon (frames : List Frame) (l : List Lexeme) :
    skipFrom ⟨.colon, frames⟩ (.colon :: l) = skipFrom ⟨.value, frames⟩ l := rfl

theorem skipFrom_comma_array (frames : List Frame) (l : List Lexeme) :
    skipFrom ⟨.more, .array :: frames⟩ (.comma :: l) = skipFrom ⟨.value, .array :: frames⟩ l := rfl

theorem skipFrom_comma_object (frames : List Frame) (l : List Lexeme) :
    skipFrom ⟨.more, .object :: frames⟩ (.comma :: l) = skipFrom ⟨.key, .object :: frames⟩ l := rfl

/-- The place is before a value. -/
def BeforeValue (a : Awaiting) : Prop := a = .value ∨ a = .firstItem

theorem next_of_isLeaf {a : Awaiting} (ha : BeforeValue a) {x : Lexeme} (hx : x.IsLeaf)
    (frames : List Frame) : Place.next ⟨a, frames⟩ x = .ok (Place.behind frames) := by
  obtain rfl | ⟨b, rfl⟩ | ⟨n, rfl⟩ | ⟨s, rfl⟩ := hx <;> rcases ha with rfl | rfl <;> rfl

theorem next_openBracket {a : Awaiting} (ha : BeforeValue a) (frames : List Frame) :
    Place.next ⟨a, frames⟩ .openBracket = .ok (some ⟨.firstItem, .array :: frames⟩) := by
  rcases ha with rfl | rfl <;> rfl

theorem next_openBrace {a : Awaiting} (ha : BeforeValue a) (frames : List Frame) :
    Place.next ⟨a, frames⟩ .openBrace = .ok (some ⟨.firstKey, .object :: frames⟩) := by
  rcases ha with rfl | rfl <;> rfl

/-- The place is before a key. -/
def BeforeKey (a : Awaiting) : Prop := a = .key ∨ a = .firstKey

theorem next_string {a : Awaiting} (ha : BeforeKey a) (frames : List Frame) (key : Option String) :
    Place.next ⟨a, frames⟩ (.string key) = .ok (some ⟨.colon, frames⟩) := by
  rcases ha with rfl | rfl <;> rfl

/-- The phrase is skipped whole, from every place where it may stand. -/
def Skips : Phrase → List Lexeme → Prop
  | .value, v => ∀ {a frames rest}, BeforeValue a →
    skipFrom ⟨a, frames⟩ (v ++ rest) = skipBehind frames rest
  | .items, l => ∀ {a frames rest}, BeforeValue a →
    skipFrom ⟨a, .array :: frames⟩ (l ++ rest) = skipFrom ⟨.more, .array :: frames⟩ rest
  | .members, l => ∀ {a frames rest}, BeforeKey a →
    skipFrom ⟨a, .object :: frames⟩ (l ++ rest) = skipFrom ⟨.more, .object :: frames⟩ rest

/-- **A phrase is skipped whole.** -/
theorem Derives.skips {p : Phrase} {l : List Lexeme} (h : Derives p l) : Skips p l := by
  induction h with
  | leaf hx =>
    intro a frames rest ha
    exact skipFrom_cons_of_behind (next_of_isLeaf ha hx frames)
  | emptyArray =>
    intro a frames rest ha
    rw [List.cons_append, skipFrom_cons (next_openBracket ha frames)]
    exact skipFrom_cons_of_behind rfl
  | emptyObject =>
    intro a frames rest ha
    rw [List.cons_append, skipFrom_cons (next_openBrace ha frames)]
    exact skipFrom_cons_of_behind rfl
  | array h ih =>
    intro a frames rest ha
    rw [List.cons_append, skipFrom_cons (next_openBracket ha frames), List.append_assoc,
      ih (.inr rfl)]
    exact skipFrom_cons_of_behind rfl
  | object h ih =>
    intro a frames rest ha
    rw [List.cons_append, skipFrom_cons (next_openBrace ha frames), List.append_assoc,
      ih (.inr rfl)]
    exact skipFrom_cons_of_behind rfl
  | item h ih =>
    intro a frames rest ha
    exact ih ha
  | moreItems h hl ih ihl =>
    intro a frames rest ha
    rw [List.append_assoc, ih ha, skipBehind_cons, List.cons_append, skipFrom_comma_array]
    exact ihl (.inl rfl)
  | member h ih =>
    intro a frames rest ha
    rw [List.cons_append, List.cons_append, skipFrom_cons (next_string ha _ _),
      skipFrom_colon]
    exact ih (.inl rfl)
  | moreMembers h hl ih ihl =>
    intro a frames rest ha
    rw [List.cons_append, List.cons_append, List.append_assoc, skipFrom_cons (next_string ha _ _),
      skipFrom_colon, ih (.inl rfl), skipBehind_cons, List.cons_append, skipFrom_comma_object]
    exact ihl (.inl rfl)

/-- **A value nobody wants to know is read to its end.** -/
theorem reads_skipValue {v : List Lexeme} (h : Derives .value v) (rest : List Lexeme) :
    Reads skipValue (v ++ rest) () rest := by
  have hskip : skipFrom ⟨.value, []⟩ (v ++ rest) = .ok rest := h.skips (.inl rfl)
  refine ⟨length_lt_of_skipFrom hskip, ?_⟩
  rw [skipValue]
  split
  · next heq =>
    rw [hskip] at heq
    cases heq
  · next heq =>
    rw [hskip] at heq
    cases heq
    rfl

/-! ### Objects -/

/-- A member of an object: its key and the lexemes of its value. -/
abbrev Member := String × List Lexeme

/-- The lexemes of a member. -/
def Member.lexemes (m : Member) : List Lexeme := .string (some m.1) :: .colon :: m.2

/-- The lexemes of members that stand behind another one. -/
def furtherLexemes (ms : List Member) : List Lexeme := ms.flatMap fun m => .comma :: m.lexemes

/-- The lexemes of members. -/
def membersLexemes : List Member → List Lexeme
  | [] => []
  | m :: ms => m.lexemes ++ furtherLexemes ms

/-- The lexemes of an object. -/
def objectLexemes (ms : List Member) : List Lexeme :=
  .openBrace :: (membersLexemes ms ++ [.closeBrace])

section Members

variable {σ α : Type} {slots : List (Slot σ)} {draft new : σ} {key : String} {v rest : List Lexeme}
  {ms : List Member}

/-- What a member does to a draft. -/
inductive Takes (slots : List (Slot σ)) (draft : σ) (key : String) (v : List Lexeme) : σ → Prop
  /-- It is a field that the draft has not yet. -/
  | field {slot : Slot σ} {new : σ} (hfind : slots.find? (·.hasName key) = some slot)
      (hfree : slot.isFilled draft = false)
      (hfill : ∀ rest, Reads (slot.fill draft) (v ++ rest) new rest) : Takes slots draft key v new
  /-- It is no field, and its value does not matter. -/
  | foreign (hfind : slots.find? (·.hasName key) = none) (h : Derives .value v) :
      Takes slots draft key v draft

/-- What members do to a draft, one after the other. -/
inductive TakesAll (slots : List (Slot σ)) : σ → List Member → σ → Prop
  | nil {draft : σ} : TakesAll slots draft [] draft
  | cons {draft new final : σ} {key : String} {v : List Lexeme} {ms : List Member}
      (h : Takes slots draft key v new) (hms : TakesAll slots new ms final) :
      TakesAll slots draft ((key, v) :: ms) final

/-- **A member is read as what it does.** -/
theorem reads_readMember (h : Takes slots draft key v new) (rest : List Lexeme) :
    Reads (readMember slots key draft) (.colon :: (v ++ rest)) new rest := by
  cases h with
  | field hfind hfree hfill =>
    obtain ⟨shorter, hread⟩ := hfill rest
    refine ⟨Nat.lt_trans shorter (Nat.lt_succ_self _), ?_⟩
    simp only [readMember, hfind, hfree, Bool.false_eq_true, if_false]
    change (do
      let new ← (Slot.fill _ draft) (v ++ rest)
      return _) = _
    rw [hread]
    rfl
  | foreign hfind h =>
    obtain ⟨shorter, hread⟩ := reads_skipValue h rest
    refine ⟨Nat.lt_trans shorter (Nat.lt_succ_self _), ?_⟩
    simp only [readMember, hfind]
    change (do
      let skipped ← skipValue (v ++ rest)
      return _) = _
    rw [hread]
    rfl

/-- A key, its value and what stands behind them are read one after the other. -/
theorem reads_readMembers_of_key {first : Bool} {l behind rest : List Lexeme} {final : σ}
    (hkey : Reads (nextKey first) l (some key) behind)
    (hmember : Reads (readMember slots key draft) behind new rest) {last : List Lexeme}
    (hmore : Reads (readMembers slots false new) rest final last) :
    Reads (readMembers slots first draft) l final last := by
  obtain ⟨shorterKey, hkey⟩ := hkey
  obtain ⟨shorterMember, hmember⟩ := hmember
  obtain ⟨shorterMore, hmore⟩ := hmore
  refine ⟨Nat.lt_trans (Nat.lt_trans shorterMore shorterMember) shorterKey, ?_⟩
  rw [readMembers, hkey]
  dsimp only
  rw [hmember]
  dsimp only
  rw [hmore]

theorem reads_nextKey_first (key : String) (l : List Lexeme) :
    Reads (nextKey true) (.string (some key) :: l) (some key) l := ⟨_, rfl⟩

theorem reads_nextKey_further (key : String) (l : List Lexeme) :
    Reads (nextKey false) (.comma :: .string (some key) :: l) (some key) l := ⟨_, rfl⟩

/-- The end of an object ends its members. -/
theorem reads_readMembers_end (first : Bool) (rest : List Lexeme) :
    Reads (readMembers slots first draft) (.closeBrace :: rest) draft rest := by
  refine ⟨Nat.lt_succ_self _, ?_⟩
  rw [readMembers]
  rfl

/-- Members behind another one are read up to the end of the object. -/
theorem reads_further (h : TakesAll slots draft ms new) (rest : List Lexeme) :
    Reads (readMembers slots false draft) (furtherLexemes ms ++ .closeBrace :: rest) new rest := by
  induction h with
  | nil => exact reads_readMembers_end false rest
  | @cons draft new final key v ms h hms ih =>
    have hlexemes : furtherLexemes ((key, v) :: ms) ++ .closeBrace :: rest =
        .comma :: .string (some key) ::
          .colon :: (v ++ (furtherLexemes ms ++ .closeBrace :: rest)) := by
      simp [furtherLexemes, Member.lexemes]
    rw [hlexemes]
    exact reads_readMembers_of_key (reads_nextKey_further key _) (reads_readMember h _) ih

/-- **Members are read up to the end of the object.** -/
theorem reads_members (h : TakesAll slots draft ms new) (rest : List Lexeme) :
    Reads (readMembers slots true draft) (membersLexemes ms ++ .closeBrace :: rest) new rest := by
  cases h with
  | nil => exact reads_readMembers_end true rest
  | @cons _ new _ key v ms h hms =>
    have hlexemes : membersLexemes ((key, v) :: ms) ++ .closeBrace :: rest =
        .string (some key) :: .colon :: (v ++ (furtherLexemes ms ++ .closeBrace :: rest)) := by
      simp [membersLexemes, Member.lexemes]
    rw [hlexemes]
    exact reads_readMembers_of_key (reads_nextKey_first key _) (reads_readMember h _)
      (reads_further hms rest)

/-! ### A field that is there already -/

theorem readMembers_of_key_of_error {first : Bool} {l behind : List Lexeme} {f : Fault}
    (hkey : Reads (nextKey first) l (some key) behind)
    (hmember : readMember slots key draft behind = .error f) :
    readMembers slots first draft l = .error f := by
  obtain ⟨shorterKey, hkey⟩ := hkey
  rw [readMembers, hkey]
  dsimp only
  rw [hmember]

theorem readMembers_of_error {first : Bool} {l behind rest : List Lexeme} {f : Fault}
    (hkey : Reads (nextKey first) l (some key) behind)
    (hmember : Reads (readMember slots key draft) behind new rest)
    (hmore : readMembers slots false new rest = .error f) :
    readMembers slots first draft l = .error f := by
  obtain ⟨shorterKey, hkey⟩ := hkey
  obtain ⟨shorterMember, hmember⟩ := hmember
  rw [readMembers, hkey]
  dsimp only
  rw [hmember]
  dsimp only
  rw [hmore]

variable {slot : Slot σ}

/-- The key of a field that the draft has already is a fault, whatever follows it. -/
theorem readMember_of_isFilled (hfind : slots.find? (·.hasName key) = some slot)
    (hfilled : slot.isFilled draft = true) (l : List Lexeme) :
    readMember slots key draft l = .error (.duplicateField slot.name) := by
  simp only [readMember, hfind, hfilled, if_true]

theorem readMembers_further_of_isFilled (h : TakesAll slots draft ms new)
    (hfind : slots.find? (·.hasName key) = some slot) (hfilled : slot.isFilled new = true)
    (tail : List Lexeme) :
    readMembers slots false draft (furtherLexemes ms ++ .comma :: .string (some key) :: tail) =
      .error (.duplicateField slot.name) := by
  induction h with
  | nil =>
    exact readMembers_of_key_of_error (reads_nextKey_further key tail)
      (readMember_of_isFilled hfind hfilled tail)
  | @cons draft new final key' v ms h hms ih =>
    have hlexemes : furtherLexemes ((key', v) :: ms) ++ .comma :: .string (some key) :: tail =
        .comma :: .string (some key') :: .colon ::
          (v ++ (furtherLexemes ms ++ .comma :: .string (some key) :: tail)) := by
      simp [furtherLexemes, Member.lexemes]
    rw [hlexemes]
    exact readMembers_of_error (reads_nextKey_further key' _) (reads_readMember h _) (ih hfilled)

/-- **A field that comes again is a fault as soon as its key is there.** -/
theorem readMembers_of_isFilled (h : TakesAll slots draft ms new) (hms : ms ≠ [])
    (hfind : slots.find? (·.hasName key) = some slot) (hfilled : slot.isFilled new = true)
    (tail : List Lexeme) :
    readMembers slots true draft (membersLexemes ms ++ .comma :: .string (some key) :: tail) =
      .error (.duplicateField slot.name) := by
  cases h with
  | nil => exact absurd rfl hms
  | @cons _ new _ key' v ms h hrest =>
    have hlexemes : membersLexemes ((key', v) :: ms) ++ .comma :: .string (some key) :: tail =
        .string (some key') :: .colon ::
          (v ++ (furtherLexemes ms ++ .comma :: .string (some key) :: tail)) := by
      simp [membersLexemes, Member.lexemes]
    rw [hlexemes]
    exact readMembers_of_error (reads_nextKey_first key' _) (reads_readMember h _)
      (readMembers_further_of_isFilled hrest hfind hfilled tail)

end Members

/-! ### Records -/

section Record

variable {σ α : Type} {r : Record σ α} {draft : σ} {ms : List Member} {a : α}

/-- **A record is read from an object** by way of what its members do. -/
theorem reads_record (h : TakesAll r.slots r.empty ms draft) (hfinish : r.finish draft = .ok a)
    (rest : List Lexeme) : Reads r.read (objectLexemes ms ++ rest) a rest := by
  obtain ⟨shorter, hmembers⟩ := reads_members h rest
  have hobject : objectLexemes ms ++ rest = .openBrace :: (membersLexemes ms ++ .closeBrace :: rest) := by
    simp [objectLexemes]
  rw [hobject]
  refine ⟨Nat.lt_succ_of_lt shorter, ?_⟩
  rw [Record.read, hmembers]
  simp only [bind, Except.bind, hfinish]
  rfl

/-- **A record with a field that comes again is refused**, whatever follows the key. -/
theorem record_eq_error_of_isFilled {slot : Slot σ} {key : String}
    (h : TakesAll r.slots r.empty ms draft) (hms : ms ≠ [])
    (hfind : r.slots.find? (·.hasName key) = some slot) (hfilled : slot.isFilled draft = true)
    (tail : List Lexeme) :
    r.read (.openBrace :: (membersLexemes ms ++ .comma :: .string (some key) :: tail)) =
      .error (.duplicateField slot.name) := by
  rw [Record.read, readMembers_of_isFilled h hms hfind hfilled tail]
  rfl

end Record

/-! ### Arrays -/

section Items

variable {α : Type} {item : Reader α}

/-- The lexemes are an item of an array, and are read as `a`. -/
structure ReadsItem (item : Reader α) (v : List Lexeme) (a : α) : Prop where
  /-- It is not taken for the end of the array. -/
  begins : ∃ x l, v = x :: l ∧ x ≠ .closeBracket
  /-- It is read whatever follows it. -/
  reads : ∀ rest, Reads item (v ++ rest) a rest

/-- The lexemes of the items of an array. -/
def itemsLexemes : List (List Lexeme) → List Lexeme
  | [] => []
  | v :: vs => v ++ vs.flatMap fun v => .comma :: v

/-- The lexemes of an array. -/
def arrayLexemes (vs : List (List Lexeme)) : List Lexeme :=
  .openBracket :: (itemsLexemes vs ++ [.closeBracket])

theorem reads_readItems_end (done : List α) (rest : List Lexeme) :
    Reads (readItems item done) (.closeBracket :: rest) done.reverse rest := by
  refine ⟨Nat.lt_succ_self _, ?_⟩
  rw [readItems]
  rfl

/-- An item and what stands behind it are read one after the other. -/
theorem reads_readItems_of_item {done all : List α} {l behind rest last : List Lexeme} {a : α}
    {noLonger : behind.length ≤ l.length} (hnext : nextItem done.isEmpty l = .ok (.item behind noLonger))
    (hitem : Reads item behind a rest) (hmore : Reads (readItems item (a :: done)) rest all last) :
    Reads (readItems item done) l all last := by
  obtain ⟨shorterItem, hitem⟩ := hitem
  obtain ⟨shorterMore, hmore⟩ := hmore
  refine ⟨Nat.lt_of_lt_of_le (Nat.lt_trans shorterMore shorterItem) noLonger, ?_⟩
  rw [readItems, hnext]
  dsimp only
  rw [hitem]
  dsimp only
  rw [hmore]

theorem nextItem_first {x : Lexeme} (hx : x ≠ .closeBracket) (l : List Lexeme) :
    nextItem true (x :: l) = .ok (.item (x :: l) (Nat.le_refl _)) := by
  cases x with
  | closeBracket => exact absurd rfl hx
  | _ => rfl

theorem nextItem_further {x : Lexeme} (hx : x ≠ .closeBracket) (l : List Lexeme) :
    nextItem false (.comma :: x :: l) = .ok (.item (x :: l) (Nat.le_succ _)) := by
  cases x with
  | closeBracket => exact absurd rfl hx
  | _ => rfl

/-- Items behind another one are read up to the end of the array. -/
theorem reads_furtherItems {vs : List (List Lexeme)} {as : List α}
    (h : List.Forall₂ (ReadsItem item) vs as) {done : List α} (hdone : done ≠ [])
    (rest : List Lexeme) :
    Reads (readItems item done) ((vs.flatMap fun v => .comma :: v) ++ .closeBracket :: rest)
      (done.reverse ++ as) rest := by
  induction h generalizing done with
  | nil =>
    rw [List.append_nil]
    exact reads_readItems_end done rest
  | @cons v a vs as hv _ ih =>
    obtain ⟨⟨x, l, rfl, hx⟩, hreads⟩ := hv
    have hmore : Reads (readItems item (a :: done))
        ((vs.flatMap fun v => .comma :: v) ++ .closeBracket :: rest) ((a :: done).reverse ++ as) rest :=
      ih (List.cons_ne_nil _ _)
    rw [List.reverse_cons, List.append_assoc, List.singleton_append] at hmore
    rw [List.flatMap_cons, List.append_assoc, List.cons_append]
    have hnext := nextItem_further hx
      (l ++ ((vs.flatMap fun v => .comma :: v) ++ .closeBracket :: rest))
    rw [← List.isEmpty_eq_false_iff.mpr hdone] at hnext
    exact reads_readItems_of_item hnext (hreads _) hmore

/-- **An array is read item by item.** -/
theorem reads_readList {vs : List (List Lexeme)} {as : List α}
    (h : List.Forall₂ (ReadsItem item) vs as) (rest : List Lexeme) :
    Reads (readList item) (arrayLexemes vs ++ rest) as rest := by
  have hitems : Reads (readItems item []) (itemsLexemes vs ++ .closeBracket :: rest) as rest := by
    cases h with
    | nil => exact reads_readItems_end [] rest
    | @cons v a vs as hv hvs =>
      obtain ⟨⟨x, l, rfl, hx⟩, hreads⟩ := hv
      have hmore := reads_furtherItems hvs (List.cons_ne_nil a []) rest
      rw [itemsLexemes, List.append_assoc]
      exact reads_readItems_of_item (nextItem_first hx _) (hreads _) hmore
  obtain ⟨shorter, hitems⟩ := hitems
  have harray : arrayLexemes vs ++ rest = .openBracket :: (itemsLexemes vs ++ .closeBracket :: rest) := by
    simp [arrayLexemes]
  rw [harray]
  refine ⟨Nat.lt_succ_of_lt shorter, ?_⟩
  rw [readList, hitems]

end Items

end Downhill.Json
