import Mathlib.Data.List.Basic

/-!
# Python text

The scripts read and write `str` values. A `str` is modelled as its list of
code points, and each `str` method the scripts call is one definition here:

* `isSpace`: `str.isspace` on one character, which is also `re`'s `\s`;
* `strip`, `rstrip`, `split`, `join`, `count`, `startswith`, `contains`;
* `join_split`: `sep.join(s.split(sep)) == s`, the round trip the line
  rewriter relies on.
-/

namespace WhizbangScripts.Py

/-- A Python `str`, as its code points in order. -/
abbrev Str := List Char

/-- The exceptions the scripts can raise, by Python class. -/
inductive PyError where
  | reError (msg : String)
  | indexError (msg : String)
  | keyError (key : String)
  | typeError (msg : String)
  | valueError (msg : String)
  | attributeError (msg : String)
  deriving DecidableEq, Repr

/-- Results of the scripts' functions are compared by value. -/
instance decEqExcept {ε α : Type} [DecidableEq ε] [DecidableEq α] : DecidableEq (Except ε α)
  | .ok x, .ok y => decidable_of_iff (x = y) (by simp)
  | .error x, .error y => decidable_of_iff (x = y) (by simp)
  | .ok _, .error _ => isFalse (by simp)
  | .error _, .ok _ => isFalse (by simp)

/-- `str.isspace` on one character; `re` uses the same table for `\s`. -/
def isSpace (c : Char) : Bool :=
  let n := c.toNat
  (0x9 ≤ n && n ≤ 0xd) || (0x1c ≤ n && n ≤ 0x20) || n == 0x85 || n == 0xa0 ||
    n == 0x1680 || (0x2000 ≤ n && n ≤ 0x200a) || n == 0x2028 || n == 0x2029 ||
    n == 0x202f || n == 0x205f || n == 0x3000

/-- The value of an ASCII digit. -/
def digitValue (c : Char) : Nat := c.toNat - '0'.toNat

/-- `s.strip()`: leading and trailing whitespace removed. -/
def strip (s : Str) : Str :=
  ((s.dropWhile isSpace).reverse.dropWhile isSpace).reverse

/-- `s.rstrip(c)` for a one-character argument. -/
def rstrip (c : Char) (s : Str) : Str :=
  (s.reverse.dropWhile (· == c)).reverse

/-- `s.split(sep)` for a one-character separator. -/
def split (sep : Char) (s : Str) : List Str :=
  s.splitOn sep

/-- `sep.join(parts)` for a one-character separator. -/
def join (sep : Char) (parts : List Str) : Str :=
  [sep].intercalate parts

/-- `s.count(c)` for a one-character argument. -/
def count (c : Char) (s : Str) : Nat :=
  s.count c

/-- `s.startswith(p)`. -/
def startswith (s p : Str) : Bool :=
  p.isPrefixOf s

/-- `p in s` for two strings: `p` occurs in `s` at some position. -/
def contains (s p : Str) : Bool :=
  s.tails.any (p.isPrefixOf ·)

theorem join_split (sep : Char) (s : Str) : join sep (split sep s) = s :=
  List.intercalate_splitOn s sep

@[simp] theorem join_singleton (sep : Char) (s : Str) : join sep [s] = s := by
  simp [join, List.intercalate]

theorem join_cons_cons (sep : Char) (a b : Str) (rest : List Str) :
    join sep (a :: b :: rest) = a ++ sep :: join sep (b :: rest) := by
  simp [join, List.intercalate]

@[simp] theorem count_append (c : Char) (s t : Str) : count c (s ++ t) = count c s + count c t :=
  List.count_append ..

end WhizbangScripts.Py
