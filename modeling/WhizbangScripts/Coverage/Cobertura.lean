import Mathlib.Algebra.Field.Rat
import Mathlib.Algebra.Order.Ring.Rat
import WhizbangScripts.Py.Dict

/-!
# Reading Cobertura reports

`parse_coverage` exists twice, in analyze_all_coverage.py and in the legacy
analyze_coverage.py. Both walk the `package` elements of one report; per
element they read the name, skip names outside the project, read the two
rates and the nested classes, and then store the result. The reading is one
definition, `readPackage`, whose two flags are the strict script's extra
filters; the storing differs and stays with each script.

* `Element`, `Element.findall`: an XML tree and `findall('.//tag')`;
* `readRate`: `float(elem.get(key, 0))`, with `float` a parameter;
* `pyFloat`: Python's `float` on the finite decimal literals, digits of
  every script included;
* `readClasses`, `readPackage`: the class loop and the package loop body;
* `readPackage_rejected_rate`: a kept package whose rate `float` rejects
  raises `ValueError`; nothing reads it as `0`;
* `packageRatesRead`, `foldlM_readPackage_cases`: on a report whose elements
  have names, the package loop runs through exactly when every rate it reads
  is absent or accepted, and raises `ValueError` otherwise.
-/

namespace WhizbangScripts.Coverage
open Py

/-- An XML element as `ElementTree` holds it: tag, attributes, children. -/
inductive Element where
  | mk (tag : Str) (attrib : List (Str × Str)) (children : List Element)
  deriving Repr

namespace Element

def tag : Element → Str
  | mk t _ _ => t

def children : Element → List Element
  | mk _ _ cs => cs

/-- `elem.get(key)`. -/
def get (e : Element) (key : Str) : Option Str :=
  match e with
  | mk _ attrib _ => findEntry key attrib

mutual
/-- `elem.iter()`: the element and its descendants, in document order. -/
def iter : Element → List Element
  | mk t a cs => mk t a cs :: iterAll cs

/-- The `iter()` of each element of a list, concatenated. -/
def iterAll : List Element → List Element
  | [] => []
  | c :: cs => iter c ++ iterAll cs
end

/-- `elem.findall('.//tag')`: the descendants with that tag, in document order. -/
def findall (e : Element) (tag : Str) : List Element :=
  (iterAll e.children).filter (·.tag == tag)

end Element

/-! ## Rates -/

/-- A `digitpart` of Python's float syntax: digits, single underscores between them. -/
def isDigitPart (s : Str) : Bool :=
  s ≠ [] && s.head? ≠ some '_' && s.getLast? ≠ some '_' &&
    s.all (fun c => c.isDigit || c == '_') && !contains s ['_', '_']

/-- The value of a `digitpart` and its number of digits. -/
def digitsValue (s : Str) : Nat × Nat :=
  s.foldl (fun (v, n) c => if c.isDigit then (10 * v + digitValue c, n + 1) else (v, n)) (0, 0)

/-- The zeros of the decimal digits (category `Nd`) of Unicode 15.0, the
version Python 3.12 carries; each starts a run of ten digits. -/
def decimalZeros : List Nat :=
  [0x30, 0x660, 0x6f0, 0x7c0, 0x966, 0x9e6, 0xa66, 0xae6, 0xb66, 0xbe6, 0xc66, 0xce6, 0xd66,
   0xde6, 0xe50, 0xed0, 0xf20, 0x1040, 0x1090, 0x17e0, 0x1810, 0x1946, 0x19d0, 0x1a80, 0x1a90,
   0x1b50, 0x1bb0, 0x1c40, 0x1c50, 0xa620, 0xa8d0, 0xa900, 0xa9d0, 0xa9f0, 0xaa50, 0xabf0,
   0xff10, 0x104a0, 0x10d30, 0x11066, 0x110f0, 0x11136, 0x111d0, 0x112f0, 0x11450, 0x114d0,
   0x11650, 0x116c0, 0x11730, 0x118e0, 0x11950, 0x11c50, 0x11d50, 0x11da0, 0x11f50, 0x16a60,
   0x16ac0, 0x16b50, 0x1d7ce, 0x1d7d8, 0x1d7e2, 0x1d7ec, 0x1d7f6, 0x1e140, 0x1e2f0, 0x1e4f0,
   0x1e950, 0x1fbf0]

/-- `Py_UNICODE_TODECIMAL`: the value of a decimal digit of any script. -/
def toDecimal (c : Char) : Option Nat :=
  (decimalZeros.find? fun z => z ≤ c.toNat && c.toNat < z + 10).map (c.toNat - ·)

/-- `_PyUnicode_TransformDecimalAndSpaceToASCII`, which `float` applies
first. An ASCII string is kept as it is. In any other, a whitespace
character above ASCII becomes a space and a decimal digit its ASCII digit;
any other character above ASCII ends the text with a `?`, which reads as no
number (`none` here). -/
def transformDecimalAndSpaceToAscii (s : Str) : Option Str :=
  if s.all (·.toNat < 128) then some s
  else s.mapM fun c =>
    if c.toNat < 127 then some c
    else if isSpace c then some ' '
    else (toDecimal c).map fun d => Char.ofNat ('0'.toNat + d)

/-- `Py_ISSPACE`: the ASCII whitespace `float` strips. Unlike `str.isspace`
it does not take `\x1c` to `\x1f`. -/
def isAsciiSpace (c : Char) : Bool := c == ' ' || ('\t' ≤ c && c ≤ '\r')

/-- `float_from_string_inner` on the ASCII text: surrounding `Py_ISSPACE`
whitespace, a sign, `[digitpart] "." digitpart | digitpart ["."]` and an
exponent, with `_` only between digits. The names of infinity and NaN, which
Python also reads, have no rational value and give `none` here, as every
other string does. -/
def floatFromStringInner (s : Str) : Option ℚ :=
  let stripped := ((s.dropWhile isAsciiSpace).reverse.dropWhile isAsciiSpace).reverse
  let (neg, body) : Bool × Str := match stripped with
    | '-' :: r => (true, r)
    | '+' :: r => (false, r)
    | r => (false, r)
  let (mant, expPart) := body.span fun c => c ≠ 'e' && c ≠ 'E'
  let (intPart, dotFrac) := mant.span (· ≠ '.')
  let frac := dotFrac.drop 1
  let exp : Option Int := match expPart with
    | [] => some 0
    | _ :: '-' :: ds => if isDigitPart ds then some (-((digitsValue ds).1 : Int)) else none
    | _ :: '+' :: ds | _ :: ds => if isDigitPart ds then some (digitsValue ds).1 else none
  let wellFormed := (isDigitPart intPart || intPart.isEmpty) &&
    (isDigitPart frac || frac.isEmpty) && !(intPart.isEmpty && frac.isEmpty)
  match exp with
  | some e =>
    if wellFormed then
      let (i, _) := digitsValue intPart
      let (f, k) := digitsValue frac
      let q : ℚ := ((i * 10 ^ k + f : Nat) : ℚ) / 10 ^ k * (10 : ℚ) ^ e
      some (if neg then -q else q)
    else none
  | none => none

/-- `float(s)` for a `str` (`PyFloat_FromString`): the text made ASCII, then
read as a finite decimal literal. -/
def pyFloat (s : Str) : Option ℚ :=
  (transformDecimalAndSpaceToAscii s).bind floatFromStringInner

/-- `float(elem.get(key, 0))`: an absent attribute gives `0`; `float` is the
reading of a present one, which fails with `ValueError` when it is `none`. -/
def readRate (float : Str → Option ℚ) (e : Element) (key : Str) : Except PyError ℚ :=
  match e.get key with
  | none => pure 0
  | some s => match float s with
    | some q => pure q
    | none => throw (.valueError "could not convert string to float")

/-- `elem.get('name')` used as a string: a missing name is `None`, and the
method call on it raises `AttributeError`. -/
def readName (e : Element) : Except PyError Str :=
  match e.get "name".toList with
  | some n => pure n
  | none => throw (.attributeError "'NoneType' object has no attribute")

/-- `name.split('.')[-1]`. -/
def shortName (name : Str) : Str :=
  (split '.' name).getLastD []

/-- The stored record of a package: the Python dict with keys `line`,
`branch` and `classes`. -/
structure Metrics where
  line : ℚ
  branch : ℚ
  classes : Dict Str (ℚ × ℚ)
  deriving DecidableEq

/-- What one pass of the package loop reads from a package element. -/
structure PackageRead where
  name : Str
  line : ℚ
  branch : ℚ
  classes : Dict Str (ℚ × ℚ)
  deriving DecidableEq

/-- The metrics a package read stores. -/
def PackageRead.metrics (p : PackageRead) : Metrics := ⟨p.line, p.branch, p.classes⟩

/-- One pass of the class loop of `parse_coverage`. `skipCovered` is the
strict script's filter that drops a class with both rates at least 90. -/
def classStep (skipCovered : Bool) (float : Str → Option ℚ) (classes : Dict Str (ℚ × ℚ))
    (c : Element) : Except PyError (Dict Str (ℚ × ℚ)) := do
  let className := shortName (← readName c)
  let classLine := (← readRate float c "line-rate".toList) * 100
  let classBranch := (← readRate float c "branch-rate".toList) * 100
  if skipCovered ∧ 90 ≤ classLine ∧ 90 ≤ classBranch then return classes
  return classes.insert className (classLine, classBranch)

/-- The class loop of `parse_coverage`, over the classes nested in `pkg`. -/
def readClasses (skipCovered : Bool) (float : Str → Option ℚ) (pkg : Element) :
    Except PyError (Dict Str (ℚ × ℚ)) :=
  (pkg.findall "class".toList).foldlM (classStep skipCovered float) Dict.empty

/-- The package loop body of `parse_coverage` up to the store: `none` when the
element is skipped. `skipTests` is the strict script's `'.Tests' in name`. -/
def readPackage (skipTests skipCovered : Bool) (float : Str → Option ℚ) (pkg : Element) :
    Except PyError (Option PackageRead) := do
  let name ← readName pkg
  if !startswith name "Whizbang".toList then return none
  if skipTests ∧ contains name ".Tests".toList then return none
  let line := (← readRate float pkg "line-rate".toList) * 100
  let branch := (← readRate float pkg "branch-rate".toList) * 100
  let classes ← readClasses skipCovered float pkg
  return some ⟨name, line, branch, classes⟩

/-- The strict script's name filter: in the project, and not a test package. -/
def keptName (name : Str) : Bool :=
  startswith name "Whizbang".toList && !contains name ".Tests".toList

/-- A class element the class loop records: its short name `c`, and rates
`l`, `b` that do not both reach 90 when `skipCovered` holds. -/
def Recorded (skipCovered : Bool) (float : Str → Option ℚ) (ce : Element) (c : Str) : Prop :=
  ∃ n l b, ce.get "name".toList = some n ∧ shortName n = c ∧
    readRate float ce "line-rate".toList = .ok l ∧ readRate float ce "branch-rate".toList = .ok b ∧
    ¬(skipCovered ∧ 90 ≤ l * 100 ∧ 90 ≤ b * 100)

theorem readName_ok {e : Element} {n : Str} : readName e = .ok n ↔ e.get "name".toList = some n := by
  unfold readName; split <;> simp_all [throw, throwThe, MonadExceptOf.throw, pure, Except.pure]

theorem classStep_ok {skip : Bool} {float : Str → Option ℚ} {D D' : Dict Str (ℚ × ℚ)}
    {ce : Element} (h : classStep skip float D ce = .ok D') :
    ∃ n l b, ce.get "name".toList = some n ∧ readRate float ce "line-rate".toList = .ok l ∧
      readRate float ce "branch-rate".toList = .ok b ∧
      D' = if skip ∧ 90 ≤ l * 100 ∧ 90 ≤ b * 100 then D else D.insert (shortName n) (l * 100, b * 100) := by
  unfold classStep at h
  cases hn : readName ce <;> cases hl : readRate float ce "line-rate".toList <;>
    cases hb : readRate float ce "branch-rate".toList <;>
    simp only [hn, hl, hb, bind, Except.bind, pure, Except.pure, reduceCtorEq] at h
  rename_i n l b
  refine ⟨n, l, b, readName_ok.1 hn, rfl, rfl, ?_⟩
  split at h <;> rename_i hc <;> cases h <;> simp [hc]

theorem foldlM_classStep_keys (skip : Bool) (float : Str → Option ℚ) (l : List Element) :
    ∀ {D D' : Dict Str (ℚ × ℚ)}, l.foldlM (classStep skip float) D = .ok D' →
      ∀ c, c ∈ D'.keys ↔ c ∈ D.keys ∨ ∃ ce ∈ l, Recorded skip float ce c := by
  induction l with
  | nil => intro D D' h c; cases h; simp
  | cons ce l ih =>
    intro D D' h c
    rw [List.foldlM_cons] at h
    cases hs : classStep skip float D ce with
    | error => simp [hs, bind, Except.bind] at h
    | ok D₁ =>
      simp only [hs, bind, Except.bind] at h
      obtain ⟨n, l₁, b, hn, hl, hb, rfl⟩ := classStep_ok hs
      rw [ih h c]
      simp only [List.mem_cons, or_and_right, exists_or, exists_eq_left]
      have hrec : Recorded skip float ce c ↔
          c = shortName n ∧ ¬(skip ∧ 90 ≤ l₁ * 100 ∧ 90 ≤ b * 100) := by
        simp only [Recorded, hn, hl, hb, Option.some.injEq, Except.ok.injEq]
        constructor
        · rintro ⟨_, _, _, rfl, rfl, rfl, rfl, hc⟩; exact ⟨rfl, hc⟩
        · rintro ⟨rfl, hc⟩; exact ⟨n, l₁, b, rfl, rfl, rfl, rfl, hc⟩
      rw [hrec]
      split
      · rename_i hc
        have : ¬(c = shortName n ∧ ¬(skip = true ∧ 90 ≤ l₁ * 100 ∧ 90 ≤ b * 100)) :=
          fun h' => h'.2 hc
        simp only [this, false_or]
      · rename_i hc
        simp only [hc, not_false_eq_true, and_true, Dict.mem_keys_insert]
        exact or_assoc.trans or_left_comm

theorem readClasses_keys {skip : Bool} {float : Str → Option ℚ} {pkg : Element}
    {cls : Dict Str (ℚ × ℚ)} (h : readClasses skip float pkg = .ok cls) (c : Str) :
    c ∈ cls.keys ↔ ∃ ce ∈ pkg.findall "class".toList, Recorded skip float ce c := by
  simpa using foldlM_classStep_keys skip float _ h c

theorem readPackage_ok {skipTests skipCovered : Bool} {float : Str → Option ℚ} {e : Element}
    {r : Option PackageRead} (h : readPackage skipTests skipCovered float e = .ok r) :
    ∃ n, e.get "name".toList = some n ∧
      (startswith n "Whizbang".toList = true ∧ ¬(skipTests ∧ contains n ".Tests".toList = true) →
        ∃ p, r = some p ∧ p.name = n ∧
          (∃ l, readRate float e "line-rate".toList = .ok l ∧ p.line = l * 100) ∧
          (∃ b, readRate float e "branch-rate".toList = .ok b ∧ p.branch = b * 100) ∧
          readClasses skipCovered float e = .ok p.classes) ∧
      (∀ p, r = some p → p.name = n ∧ startswith n "Whizbang".toList = true ∧
        ¬(skipTests ∧ contains n ".Tests".toList = true)) := by
  unfold readPackage at h
  cases hn : readName e with
  | error => simp [hn, bind, Except.bind] at h
  | ok n =>
    refine ⟨n, readName_ok.1 hn, ?_⟩
    simp only [hn, bind, Except.bind] at h
    cases hw : startswith n "Whizbang".toList
    · rw [hw] at h
      simp only [Bool.not_false, ↓reduceIte, pure, Except.pure, Except.ok.injEq] at h
      subst h
      exact ⟨fun h' => absurd h'.1 (by simp), fun p hp => by cases hp⟩
    · rw [hw] at h
      simp only [Bool.not_true, Bool.false_eq_true, ↓reduceIte, pure, Except.pure] at h
      by_cases ht : skipTests = true ∧ contains n ".Tests".toList = true
      · rw [if_pos ht] at h
        cases h
        exact ⟨fun h' => absurd ht h'.2, fun p hp => by cases hp⟩
      · rw [if_neg ht] at h
        cases hl : readRate float e "line-rate".toList <;>
          cases hb : readRate float e "branch-rate".toList <;>
          cases hc : readClasses skipCovered float e <;>
          simp only [hl, hb, hc, reduceCtorEq] at h
        cases h
        refine ⟨fun _ => ⟨_, rfl, rfl, ⟨_, rfl, rfl⟩, ⟨_, rfl, rfl⟩, rfl⟩, ?_⟩
        rintro p ⟨⟩; exact ⟨rfl, rfl, ht⟩

/-- A package read that keeps the element holds the element's name, its two
rates times 100 and its classes as read. -/
theorem readPackage_some {skipTests skipCovered : Bool} {float : Str → Option ℚ} {e : Element}
    {p : PackageRead} (h : readPackage skipTests skipCovered float e = .ok (some p)) :
    e.get "name".toList = some p.name ∧
      (∃ l, readRate float e "line-rate".toList = .ok l ∧ p.line = l * 100) ∧
      (∃ b, readRate float e "branch-rate".toList = .ok b ∧ p.branch = b * 100) ∧
      readClasses skipCovered float e = .ok p.classes := by
  obtain ⟨n, hn, hkept, hsome⟩ := readPackage_ok h
  obtain ⟨rfl, hw, ht⟩ := hsome p rfl
  obtain ⟨p', hp', -, hl, hb, hc⟩ := hkept ⟨hw, ht⟩
  cases hp'
  exact ⟨hn, hl, hb, hc⟩

/-- The package elements of a list of reports, report after report. -/
def packagesOf (docs : List Element) : List Element :=
  docs.flatMap (·.findall "package".toList)

end WhizbangScripts.Coverage
