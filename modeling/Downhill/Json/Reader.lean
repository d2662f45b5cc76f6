import Downhill.Json.Lexeme
import Downhill.Text.Escaped

/-!
# Readers of JSON values

A reader takes one value off the front of the lexemes and says what is left. What is left is
shorter, which is why readers of lists and objects come to an end.

A record is read from an object, whose fields come in any order and may have company, or from an
array of the fields in their own order.
-/

namespace Downhill.Json

/-! ### Readers -/

/-- A value read off the front of a list of lexemes. -/
structure Parsed (α : Type) (l : List Lexeme) where
  /-- The value. -/
  value : α
  /-- The lexemes behind it. -/
  rest : List Lexeme
  /-- Something has been read. -/
  shorter : rest.length < l.length

/-- A way to read a value. -/
abbrev Reader (α : Type) := (l : List Lexeme) → Except Fault (Parsed α l)

/-- A number as a fault names it. -/
def describe : Number → String
  | .integer n => "integer `" ++ toString n ++ "`"
  | .double x => "floating point `" ++ doubleLayout.write x ++ "`"

/-- The fault of a value that begins with a lexeme and is of another kind than expected. A value
that is wrong in itself is not named. -/
def wrongType (expected : String) : Lexeme → Fault
  | .null => .invalidType "null" expected
  | .bool true => .invalidType "boolean `true`" expected
  | .bool false => .invalidType "boolean `false`" expected
  | .number (some n) => .invalidType (describe n) expected
  | .string (some s) => .invalidType ("string " ++ Text.escaped s) expected
  | .openBracket => .invalidType "sequence" expected
  | .openBrace => .invalidType "map" expected
  | .brokenString whenRead _ | .broken whenRead _ => whenRead
  | _ => .malformed

/-- A string. -/
def readString : Reader String
  | [] => .error .truncated
  | .string (some s) :: rest => .ok ⟨s, rest, Nat.lt_succ_self _⟩
  | x :: _ => .error (wrongType "a string" x)

/-- A double. An integer is one too. -/
def readDouble : Reader Float
  | [] => .error .truncated
  | .number (some (.double x)) :: rest => .ok ⟨x, rest, Nat.lt_succ_self _⟩
  | .number (some (.integer n)) :: rest => .ok ⟨.ofInt n, rest, Nat.lt_succ_self _⟩
  | x :: _ => .error (wrongType "f64" x)

/-- An integer of 64 bits with a sign. -/
def readInt64 : Reader Int64
  | [] => .error .truncated
  | .number (some (.integer n)) :: rest =>
    if Int64.minValue.toInt ≤ n ∧ n ≤ Int64.maxValue.toInt then .ok ⟨.ofInt n, rest, Nat.lt_succ_self _⟩
    else .error (.invalidInteger n "i64")
  | x :: _ => .error (wrongType "i64" x)

/-! ### Values nobody wants to know -/

/-- What a value stands in. -/
inductive Frame
  /-- An array. -/
  | array
  /-- An object. -/
  | object
  deriving DecidableEq, Repr

/-- What comes next inside a value that is skipped. -/
inductive Awaiting
  /-- A value. -/
  | value
  /-- The first value of an array, or its end. -/
  | firstItem
  /-- The first key of an object, or its end. -/
  | firstKey
  /-- A key. -/
  | key
  /-- The colon behind a key. -/
  | colon
  /-- A comma, or the end of the array or object. -/
  | more
  deriving DecidableEq, Repr

/-- A place inside a value: what comes next, and what stands around it, the innermost first. -/
structure Place where
  /-- What comes next. -/
  awaiting : Awaiting
  /-- What stands around it. -/
  frames : List Frame

namespace Place

/-- The place behind a value with the frames given around it, none behind the outermost value. -/
def behind : List Frame → Option Place
  | [] => none
  | frames => some ⟨.more, frames⟩

/-- The place behind the first lexeme of a value. -/
def startValue (frames : List Frame) : Lexeme → Except Fault (Option Place)
  | .null | .bool _ | .number _ | .string _ => .ok (behind frames)
  | .openBracket => .ok (some ⟨.firstItem, .array :: frames⟩)
  | .openBrace => .ok (some ⟨.firstKey, .object :: frames⟩)
  | .brokenString _ whenSkipped | .broken _ whenSkipped => .error whenSkipped
  | _ => .error .malformed

/-- The place behind a key. -/
def startKey (frames : List Frame) : Lexeme → Except Fault (Option Place)
  | .string _ => .ok (some ⟨.colon, frames⟩)
  | .brokenString _ whenSkipped => .error whenSkipped
  | _ => .error .malformed

/-- The place behind one more lexeme, none behind the outermost value. -/
def next : Place → Lexeme → Except Fault (Option Place)
  | ⟨.value, frames⟩, x => startValue frames x
  | ⟨.firstItem, frames⟩, .closeBracket => .ok (behind frames.tail)
  | ⟨.firstItem, frames⟩, x => startValue frames x
  | ⟨.firstKey, frames⟩, .closeBrace => .ok (behind frames.tail)
  | ⟨.firstKey, frames⟩, x => startKey frames x
  | ⟨.key, frames⟩, x => startKey frames x
  | ⟨.colon, frames⟩, .colon => .ok (some ⟨.value, frames⟩)
  | ⟨.more, .array :: frames⟩, .comma => .ok (some ⟨.value, .array :: frames⟩)
  | ⟨.more, .array :: frames⟩, .closeBracket => .ok (behind frames)
  | ⟨.more, .object :: frames⟩, .comma => .ok (some ⟨.key, .object :: frames⟩)
  | ⟨.more, .object :: frames⟩, .closeBrace => .ok (behind frames)
  | _, _ => .error .malformed

end Place

/-- The lexemes behind the outermost value, from a place inside it. -/
def skipFrom : Place → List Lexeme → Except Fault (List Lexeme)
  | _, [] => .error .truncated
  | place, x :: l =>
    match place.next x with
    | .error f => .error f
    | .ok none => .ok l
    | .ok (some inside) => skipFrom inside l

theorem length_lt_of_skipFrom {place : Place} {l rest : List Lexeme}
    (h : skipFrom place l = .ok rest) : rest.length < l.length := by
  fun_induction skipFrom place l with
  | case1 => simp at h
  | case2 => simp at h
  | case3 => simp_all
  | case4 _ _ _ _ _ ih => exact Nat.lt_succ_of_lt (ih h)

/-- Any value. -/
def skipValue : Reader Unit := fun l =>
  match h : skipFrom ⟨.value, []⟩ l with
  | .error f => .error f
  | .ok rest => .ok ⟨(), rest, length_lt_of_skipFrom h⟩

/-! ### Arrays -/

/-- How an array goes on. -/
inductive Next (l : List Lexeme)
  /-- It ends. -/
  | done (rest : List Lexeme) (shorter : rest.length < l.length)
  /-- It has another item, which begins here. -/
  | item (rest : List Lexeme) (noLonger : rest.length ≤ l.length)

/-- The next item of an array, or its end. Only the first item has no comma before it, and no comma
stands before the end. -/
def nextItem (first : Bool) : (l : List Lexeme) → Except Fault (Next l)
  | [] => .error .truncated
  | .closeBracket :: rest => .ok (.done rest (Nat.lt_succ_self _))
  | x :: rest =>
    if first then .ok (.item (x :: rest) (Nat.le_refl _))
    else match x, rest with
      | .comma, [] => .error .truncated
      | .comma, .closeBracket :: _ => .error .malformed
      | .comma, rest => .ok (.item rest (Nat.le_succ _))
      | _, _ => .error .malformed

/-- The items of an array behind those that have been read, the latest first. -/
def readItems {α : Type} (item : Reader α) (done : List α) (l : List Lexeme) :
    Except Fault (Parsed (List α) l) :=
  match nextItem done.isEmpty l with
  | .error f => .error f
  | .ok (.done rest shorter) => .ok ⟨done.reverse, rest, shorter⟩
  | .ok (.item rest noLonger) =>
    match item rest with
    | .error f => .error f
    | .ok a =>
      have : a.rest.length < l.length := Nat.lt_of_lt_of_le a.shorter noLonger
      match readItems item (a.value :: done) a.rest with
      | .error f => .error f
      | .ok all => .ok ⟨all.value, all.rest, Nat.lt_trans all.shorter this⟩
termination_by l.length

/-- An array of values of one kind. -/
def readList {α : Type} (item : Reader α) : Reader (List α)
  | [] => .error .truncated
  | .openBracket :: l =>
    match readItems item [] l with
    | .error f => .error f
    | .ok all => .ok ⟨all.value, all.rest, Nat.lt_succ_of_lt all.shorter⟩
  | x :: _ => .error (wrongType "a sequence" x)

/-! ### Records -/

/-- A field of a record that is being read into a draft of type `σ`. -/
structure Slot (σ : Type) where
  /-- The name of the field. -/
  name : String
  /-- Other names it goes by. -/
  aliases : List String
  /-- The draft has the field already. -/
  isFilled : σ → Bool
  /-- The draft with the field read into it. -/
  fill : σ → Reader σ

/-- The key names the field. -/
def Slot.hasName {σ : Type} (slot : Slot σ) (key : String) : Bool :=
  key = slot.name || slot.aliases.contains key

/-- A kind of record: values of type `α`, read by way of drafts of type `σ`. -/
structure Record (σ α : Type) where
  /-- What faults call it. -/
  name : String
  /-- The draft with no field. -/
  empty : σ
  /-- The fields in their order. -/
  slots : List (Slot σ)
  /-- The record of a draft, or the first field that is missing. -/
  finish : σ → Except Fault α

/-- A field that has to be there. -/
def required {α : Type} (name : String) : Option α → Except Fault α
  | some a => .ok a
  | none => .error (.missingField name)

/-- The next key of an object, or its end. Only the first key has no comma before it. -/
def nextKey (first : Bool) : (l : List Lexeme) → Except Fault (Parsed (Option String) l)
  | [] => .error .truncated
  | .closeBrace :: rest => .ok ⟨none, rest, Nat.lt_succ_self _⟩
  | .string s :: rest =>
    match first, s with
    | true, some s => .ok ⟨some s, rest, Nat.lt_succ_self _⟩
    | _, _ => .error .malformed
  | .brokenString whenRead _ :: _ => .error (if first then whenRead else .malformed)
  | .comma :: rest =>
    if first then .error .malformed
    else match rest with
      | [] => .error .truncated
      | .string (some s) :: rest => .ok ⟨some s, rest, Nat.lt_succ_of_lt (Nat.lt_succ_self _)⟩
      | .brokenString whenRead _ :: _ => .error whenRead
      | _ => .error .malformed
  | _ => .error .malformed

/-- The colon behind a key. -/
def readColon : Reader Unit
  | [] => .error .truncated
  | .colon :: rest => .ok ⟨(), rest, Nat.lt_succ_self _⟩
  | _ => .error .malformed

/-- The value of a key, read into the draft if the key names a field and skipped if it does not. A
field that has been read before is a fault as soon as its key is there. -/
def readMember {σ : Type} (slots : List (Slot σ)) (key : String) (draft : σ) : Reader σ := fun l =>
  match slots.find? (·.hasName key) with
  | some slot =>
    if slot.isFilled draft then .error (.duplicateField slot.name)
    else do
      let colon ← readColon l
      let new ← slot.fill draft colon.rest
      return ⟨new.value, new.rest, Nat.lt_trans new.shorter colon.shorter⟩
  | none => do
    let colon ← readColon l
    let skipped ← skipValue colon.rest
    return ⟨draft, skipped.rest, Nat.lt_trans skipped.shorter colon.shorter⟩

/-- The members of an object up to its end. -/
def readMembers {σ : Type} (slots : List (Slot σ)) (first : Bool) (draft : σ) (l : List Lexeme) :
    Except Fault (Parsed σ l) :=
  match nextKey first l with
  | .error f => .error f
  | .ok ⟨none, rest, shorter⟩ => .ok ⟨draft, rest, shorter⟩
  | .ok ⟨some key, rest, shorter⟩ =>
    match readMember slots key draft rest with
    | .error f => .error f
    | .ok new =>
      have : new.rest.length < l.length := Nat.lt_trans new.shorter shorter
      match readMembers slots false new.value new.rest with
      | .error f => .error f
      | .ok all => .ok ⟨all.value, all.rest, Nat.lt_trans all.shorter this⟩
termination_by l.length

/-- The end of an array that holds no further item. -/
def readEnd : Reader Unit
  | [] => .error .truncated
  | .closeBracket :: rest => .ok ⟨(), rest, Nat.lt_succ_self _⟩
  | _ => .error .malformed

/-- The fields of a record from the items of an array, after the first `count` of them. -/
def Record.readSlots {σ α : Type} (r : Record σ α) :
    List (Slot σ) → (count : Nat) → σ → Reader σ
  | [], _, draft => fun l => do
    let e ← readEnd l
    return ⟨draft, e.rest, e.shorter⟩
  | slot :: slots, count, draft => fun l =>
    match nextItem (count = 0) l with
    | .error f => .error f
    | .ok (.done ..) => .error (.invalidLength count r.name r.slots.length)
    | .ok (.item rest noLonger) => do
      let new ← slot.fill draft rest
      let all ← r.readSlots slots (count + 1) new.value new.rest
      return ⟨all.value, all.rest,
        Nat.lt_trans all.shorter (Nat.lt_of_lt_of_le new.shorter noLonger)⟩

/-- A record, from an object or from an array. -/
def Record.read {σ α : Type} (r : Record σ α) : Reader α
  | [] => .error .truncated
  | .openBrace :: l => do
    let draft ← readMembers r.slots true r.empty l
    return ⟨← r.finish draft.value, draft.rest, Nat.lt_succ_of_lt draft.shorter⟩
  | .openBracket :: l => do
    let draft ← r.readSlots r.slots 0 r.empty l
    return ⟨← r.finish draft.value, draft.rest, Nat.lt_succ_of_lt draft.shorter⟩
  | x :: _ => .error (wrongType r.name x)

/-- The value that a whole text stands for. -/
def readText {α : Type} (read : Reader α) (text : String) : Except Fault α := do
  let parsed ← read (lexemes text.toList)
  if parsed.rest.isEmpty then return parsed.value else throw .malformed

end Downhill.Json
