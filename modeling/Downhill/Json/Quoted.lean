import Downhill.Json.Fault

/-!
# Strings of JSON

Strings between quotes. Writing escapes quotes, backslashes and control characters. Reading also
takes the other escapes, among them those that give a character by its UTF-16 units; two units that
make one character have to follow one another.

Reading goes in two steps. The first finds the end of the string, and this is all that is asked of a
string nobody wants to know. The second joins the units.
-/

namespace Downhill.Json

/-! ### Writing -/

/-- A hexadecimal digit. -/
def hexDigit (n : Nat) : Char := Nat.digitChar n

/-- A character inside quotes. -/
def escapeChar (c : Char) : List Char :=
  match c with
  | '"' => ['\\', '"']
  | '\\' => ['\\', '\\']
  | '\x08' => ['\\', 'b']
  | '\x0c' => ['\\', 'f']
  | '\n' => ['\\', 'n']
  | '\r' => ['\\', 'r']
  | '\t' => ['\\', 't']
  | c =>
    if c.toNat < 0x20 then ['\\', 'u', '0', '0', hexDigit (c.toNat / 16), hexDigit (c.toNat % 16)]
    else [c]

/-- A string between quotes. -/
def quote (s : String) : List Char :=
  '"' :: (s.toList.flatMap escapeChar ++ ['"'])

/-! ### The end of a string -/

/-- A piece of a string. -/
inductive Piece
  /-- A character, written as itself or by a short escape. -/
  | char (c : Char)
  /-- A UTF-16 unit, written as four hexadecimal digits. -/
  | unit (n : Nat)
  deriving DecidableEq, Repr

/-- A string up to its closing quote. -/
structure Body where
  /-- The pieces before the end. -/
  pieces : List Piece
  /-- What follows the closing quote, or why there is none. -/
  ending : Except Fault (List Char)

/-- One more piece in front. -/
def Body.cons (p : Piece) (b : Body) : Body := { b with pieces := p :: b.pieces }

/-- The value of a hexadecimal digit. -/
def hexValue? (c : Char) : Option Nat :=
  if '0' ≤ c && c ≤ '9' then some (c.toNat - '0'.toNat)
  else if 'a' ≤ c && c ≤ 'f' then some (c.toNat - 'a'.toNat + 10)
  else if 'A' ≤ c && c ≤ 'F' then some (c.toNat - 'A'.toNat + 10)
  else none

/-- The unit that four hexadecimal digits spell. -/
def unit? (a b c d : Char) : Option Nat := do
  let a ← hexValue? a
  let b ← hexValue? b
  let c ← hexValue? c
  let d ← hexValue? d
  return ((a * 16 + b) * 16 + c) * 16 + d

/-- The character of a short escape. -/
def shortEscape? : Char → Option Char
  | '"' => some '"'
  | '\\' => some '\\'
  | '/' => some '/'
  | 'b' => some '\x08'
  | 'f' => some '\x0c'
  | 'n' => some '\n'
  | 'r' => some '\r'
  | 't' => some '\t'
  | _ => none

/-- The string whose opening quote has been read. An escape of a unit takes four bytes, so with
fewer bytes left it is cut off, and with other characters in them it is wrong. -/
def body : List Char → Body
  | [] => ⟨[], .error .truncated⟩
  | '"' :: rest => ⟨[], .ok rest⟩
  | '\\' :: 'u' :: a :: b :: c :: d :: rest =>
    match unit? a b c d with
    | some n => (body rest).cons (.unit n)
    | none => ⟨[], .error .malformed⟩
  | '\\' :: 'u' :: short =>
    ⟨[], .error (if (String.ofList short).utf8ByteSize < 4 then .truncated else .malformed)⟩
  | '\\' :: c :: rest =>
    match shortEscape? c with
    | some e => (body rest).cons (.char e)
    | none => ⟨[], .error .malformed⟩
  | ['\\'] => ⟨[], .error .truncated⟩
  | c :: rest => if c.toNat < 0x20 then ⟨[], .error .malformed⟩ else (body rest).cons (.char c)

/-- What follows a string is a part of what the string was read from. -/
theorem length_le_of_body_ending {cs rest : List Char} (h : (body cs).ending = .ok rest) :
    rest.length ≤ cs.length := by
  fun_induction body cs <;> simp_all [Body.cons] <;> omega

/-! ### Joining units -/

/-- The unit is the first of two that make one character. -/
def isHigh (n : Nat) : Bool := 0xD800 ≤ n && n ≤ 0xDBFF

/-- The unit is the second of two that make one character. -/
def isLow (n : Nat) : Bool := 0xDC00 ≤ n && n ≤ 0xDFFF

/-- The character of two units. -/
def pairChar (high low : Nat) : Char :=
  Char.ofNat (0x10000 + (high - 0xD800) * 0x400 + (low - 0xDC00))

/-- What the pieces of a string join to. -/
inductive Joined
  /-- The characters of the string. -/
  | text (cs : List Char)
  /-- The pieces stop after the first of two units. -/
  | halfway
  /-- A unit stands without its partner. -/
  | unpaired
  deriving DecidableEq, Repr

/-- One more character in front. -/
def Joined.cons (c : Char) : Joined → Joined
  | text cs => text (c :: cs)
  | other => other

/-- The characters of the pieces. -/
def join : List Piece → Joined
  | [] => .text []
  | .char c :: ps => (join ps).cons c
  | [.unit n] =>
    if isLow n then .unpaired else if isHigh n then .halfway else .text [Char.ofNat n]
  | .unit n :: .unit m :: ps =>
    if isLow n then .unpaired
    else if isHigh n then
      if isLow m then (join ps).cons (pairChar n m) else .unpaired
    else (join (.unit m :: ps)).cons (Char.ofNat n)
  | .unit n :: .char c :: ps =>
    if isLow n || isHigh n then .unpaired else (join (.char c :: ps)).cons (Char.ofNat n)

/-- The string that pieces make, if its units pair up. -/
def joined? (ps : List Piece) : Option String :=
  match join ps with
  | .text cs => some (String.ofList cs)
  | _ => none

end Downhill.Json
