-- What the code at the edges of the SDK uses of Python's own functions.
import FlynnAgents.Contracts
import FlynnAgents.Lib.Unicode

namespace FlynnAgents

/-! ## Integers and their digits -/

/-- `str(n)` for `0 ≤ n`. -/
def intStr (n : Nat) : Except Exn String :=
  if maxStrDigits < (toString n).length then
    .error tooManyDigits
  else .ok (toString n)

/-- `s.isascii() and s.isdecimal()` -/
def asciiDecimal (s : String) : Bool :=
  !s.toList.isEmpty && s.toList.all fun c => 48 ≤ c.toNat && c.toNat ≤ 57

/-- The number that decimal digits write. -/
def decimal (digits : List Char) : Nat := digits.foldl (fun n c => 10 * n + (c.toNat - 48)) 0

/-- `s.lstrip("0") or "0"` -/
def significant (s : String) : List Char :=
  match s.toList.dropWhile (· = '0') with
  | [] => ['0']
  | digits => digits

theorem decimal_dropWhile (l : List Char) : decimal (l.dropWhile (· = '0')) = decimal l := by
  induction l with
  | nil => rfl
  | cons c l ih =>
    by_cases hc : c = '0'
    · subst hc
      rw [List.dropWhile_cons_of_pos (by simp), ih]
      rfl
    · rw [List.dropWhile_cons_of_neg (by simpa using hc)]

/-- Leading zeros do not count. -/
theorem decimal_significant (s : String) : decimal (significant s) = decimal s.toList := by
  have h := decimal_dropWhile s.toList
  unfold significant
  split
  · rename_i hnil
    rw [hnil] at h
    exact h
  · exact h

/-- `encoding.lower()` of a value that is compared to letters without other spellings. -/
def lower (s : String) : String := s.toLower

/-! ## Blank strings -/

/-- `c.isspace()` of a code point -/
def isSpaceCode (c : CodePoint) : Bool :=
  let n := c.val
  (9 ≤ n && n ≤ 13) || (28 ≤ n && n ≤ 32) || n == 0x85 || n == 0xA0 || n == 0x1680 ||
    (0x2000 ≤ n && n ≤ 0x200A) || n == 0x2028 || n == 0x2029 || n == 0x202F || n == 0x205F ||
    n == 0x3000

/-- `not s.strip()` of a string of code points -/
def blankText (s : Text) : Bool := s.all isSpaceCode

@[simp]
theorem blankText_ofString (s : String) : blankText (Text.ofString s) = blank s := by
  unfold blankText blank Text.ofString
  rw [List.all_map]
  congr 1
  funext c
  simp only [Function.comp, isSpaceCode, Text.ofChar_val, isSpace]

end FlynnAgents
