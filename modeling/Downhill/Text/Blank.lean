/-!
# Blank characters

The characters that a formula's text may hold anywhere without changing its meaning: the 25 code
points that the Unicode property `White_Space` lists. Characters that only look empty, such as the
zero-width space, are not among them.
-/

namespace Downhill.Text

/-- The character is white space. -/
def isBlank (c : Char) : Bool :=
  let n := c.toNat
  (0x09 ≤ n && n ≤ 0x0D) || n == 0x20 || n == 0x85 || n == 0xA0 || n == 0x1680
    || (0x2000 ≤ n && n ≤ 0x200A) || n == 0x2028 || n == 0x2029 || n == 0x202F || n == 0x205F
    || n == 0x3000

/-- The zero-width space, the Mongolian vowel separator and the byte order mark are not blank. -/
example : isBlank '\u200b' = false ∧ isBlank '\u180e' = false ∧ isBlank '\ufeff' = false := by
  decide

end Downhill.Text
