import Mathlib.Data.List.Sort
import WhizbangScripts.Coverage.Cobertura

/-!
# show_core_coverage_details.py

`main` takes the first `Whizbang.Core` package of the first report that has
one, reads its classes, drops those at 100% and those whose name looks
compiler-generated, sorts the rest by their two rates and prints them.

* `findCoreCoverage`, `readClass`, `classStep`, `main`: the script, with its
  printed lines as data;
* `foldlM_classStep`: the class loop keeps the classes that pass `kept`;
* `kept_eq_passesFirstTwoTests`: the third test, for `<>c`, never decides
  anything;
* `main_spec`: what `main` prints, for every list of reports;
* `main_lists_in_order`: the order of the listed classes, ties included.
-/

namespace WhizbangScripts.Coverage.ShowCoreCoverageDetails
open Py

/-- `root.findall('.//package[@name="Whizbang.Core"]')`. -/
def corePackages (root : Element) : List Element :=
  (root.findall "package".toList).filter (·.get "name".toList == some "Whizbang.Core".toList)

/-- `find_core_coverage` on the reports of the test projects that have one, in
`os.listdir` order: the first `Whizbang.Core` package of the first report
that has one. -/
def findCoreCoverage (roots : List Element) : Option Element :=
  roots.findSome? fun root => (corePackages root).head?

/-- A class as the loop of `main` reads it: the last part of its name and
its two rates in percent. -/
def readClass (float : Str → Option ℚ) (c : Element) : Except PyError (Str × ℚ × ℚ) := do
  let className := shortName (← readName c)
  let lineRate := (← readRate float c "line-rate".toList) * 100
  let branchRate := (← readRate float c "branch-rate".toList) * 100
  return (className, lineRate, branchRate)

/-- One pass of the class loop of `main`, with its three `continue`s. -/
def classStep (float : Str → Option ℚ) (classes : List (Str × ℚ × ℚ)) (c : Element) :
    Except PyError (List (Str × ℚ × ℚ)) := do
  let (className, lineRate, branchRate) ← readClass float c
  if lineRate = 100 ∧ branchRate = 100 then return classes
  if startswith className "<".toList || startswith className "__".toList then return classes
  if startswith className "<>c".toList then return classes
  return classes ++ [(className, lineRate, branchRate)]

/-- `key(a) <= key(b)` for the key `(x[1], x[2])` of the sort: tuples
compare by their first rate, then by their second. -/
def keyLe (a b : Str × ℚ × ℚ) : Prop := a.2.1 < b.2.1 ∨ (a.2.1 = b.2.1 ∧ a.2.2 ≤ b.2.2)

instance : DecidableRel keyLe := fun _ _ => inferInstanceAs (Decidable (_ ∨ _))

/-- The marker of a printed class. -/
inductive Marker where
  /-- `"📝"`: both rates are 0. -/
  | untested
  /-- `"⚠️"` -/
  | warning
  deriving DecidableEq, Repr

/-- A line `main` prints. -/
inductive DetailLine where
  /-- `"Whizbang.Core coverage not found"` -/
  | notFound
  /-- `"=== Whizbang.Core Coverage Details ===\n"` -/
  | header
  /-- `"Classes with < 100% Coverage (excluding compiler-generated):\n"` -/
  | subheader
  /-- `"{status} {class_name:50s} Line: {line_rate:5.1f}% | Branch: {branch_rate:5.1f}%"` -/
  | row (marker : Marker) (name : Str) (line branch : ℚ)
  /-- `"\nTotal classes needing coverage: {len(classes)}"` -/
  | total (n : Nat)
  deriving DecidableEq, Repr

/-- The line printed for one kept class. -/
def row (cls : Str × ℚ × ℚ) : DetailLine :=
  .row (if cls.2.1 = 0 ∧ cls.2.2 = 0 then .untested else .warning) cls.1 cls.2.1 cls.2.2

/-- `main` on the reports found: the printed lines, and the exception that
stopped it, if any. `not package` holds for `None` and for an element
without children, which `Element.__len__` makes false. -/
def main (float : Str → Option ℚ) (roots : List Element) : List DetailLine × Option PyError :=
  match findCoreCoverage roots with
  | none => ([.notFound], none)
  | some package =>
    if package.children.isEmpty then ([.notFound], none) else
    match (package.findall "class".toList).foldlM (classStep float) [] with
    | .error e => ([.header, .subheader], some e)
    | .ok classes =>
      let classes := classes.insertionSort keyLe
      ([.header, .subheader] ++ classes.map row ++ [.total classes.length], none)

/-! ## The class loop -/

/-- The three tests of the class loop, in its order: a class is kept when it
is not at 100% on both rates and its name does not look compiler-generated. -/
def kept (cls : Str × ℚ × ℚ) : Bool :=
  !decide (cls.2.1 = 100 ∧ cls.2.2 = 100) &&
    !(startswith cls.1 "<".toList || startswith cls.1 "__".toList) &&
    !startswith cls.1 "<>c".toList

theorem classStep_eq (float : Str → Option ℚ) (classes : List (Str × ℚ × ℚ)) (c : Element) :
    classStep float classes c =
      (fun cls => if kept cls then classes ++ [cls] else classes) <$> readClass float c := by
  unfold classStep
  cases readClass float c with
  | error e => rfl
  | ok cls =>
    obtain ⟨n, l, b⟩ := cls
    show Except.bind (.ok (n, l, b)) _ = Except.map _ (.ok (n, l, b))
    dsimp only [Except.bind, Except.map, kept]
    generalize startswith n "<".toList = a₁
    generalize startswith n "__".toList = a₂
    generalize startswith n "<>c".toList = a₃
    by_cases h : l = 100 ∧ b = 100 <;> cases a₁ <;> cases a₂ <;> cases a₃ <;> simp [h] <;> rfl

/-- The class loop keeps, in document order, the classes that pass its
tests, and stops at the first class that does not read. -/
theorem foldlM_classStep (float : Str → Option ℚ) (l : List Element) (acc : List (Str × ℚ × ℚ)) :
    l.foldlM (classStep float) acc = (fun cs => acc ++ cs.filter kept) <$> l.mapM (readClass float) := by
  induction l generalizing acc with
  | nil =>
    show pure acc = pure (acc ++ [])
    rw [List.append_nil]
  | cons c l ih =>
    rw [List.foldlM_cons, List.mapM_cons, classStep_eq]
    cases readClass float c with
    | error e => rfl
    | ok cls =>
      show List.foldlM _ (if kept cls then acc ++ [cls] else acc) l = _
      rw [ih]
      cases l.mapM (readClass float) with
      | error e => rfl
      | ok cs =>
        show Except.ok _ = Except.ok _
        by_cases h : kept cls <;> simp [h, List.filter_cons]

theorem startswith_of_startswith_append {s p q : Str} (h : startswith s (p ++ q) = true) :
    startswith s p = true := by
  unfold startswith at *
  exact List.isPrefixOf_iff_prefix.2 ((List.prefix_append p q).trans (List.isPrefixOf_iff_prefix.1 h))

/-- The first two tests of the class loop: a class is listed when it is not
at 100% on both rates and its name starts neither with `<` nor with `__`. -/
def passesFirstTwoTests (cls : Str × ℚ × ℚ) : Bool :=
  !decide (cls.2.1 = 100 ∧ cls.2.2 = 100) &&
    !(startswith cls.1 "<".toList || startswith cls.1 "__".toList)

/-- The test for `<>c` decides nothing: a name that starts with `<>c` starts
with `<`, which the test before it skips. -/
theorem kept_eq_passesFirstTwoTests : kept = passesFirstTwoTests := by
  funext cls
  unfold kept passesFirstTwoTests
  cases h : startswith cls.1 "<".toList
  · have h₃ : startswith cls.1 "<>c".toList = false := Bool.eq_false_iff.2 fun h₃ =>
      absurd (@startswith_of_startswith_append cls.1 "<".toList ">c".toList h₃) (by rw [h]; decide)
    simp only [h, h₃, Bool.false_or, Bool.not_false, Bool.and_true]
  · simp only [h, Bool.true_or, Bool.not_true, Bool.and_false, Bool.false_and]

/-! ## The report -/

instance : IsTotal (Str × ℚ × ℚ) keyLe where
  total a b := by
    unfold keyLe
    rcases lt_trichotomy a.2.1 b.2.1 with h | h | h
    · exact .inl (.inl h)
    · rcases le_total a.2.2 b.2.2 with h' | h'
      · exact .inl (.inr ⟨h, h'⟩)
      · exact .inr (.inr ⟨h.symm, h'⟩)
    · exact .inr (.inl h)

instance : IsTrans (Str × ℚ × ℚ) keyLe where
  trans a b c := by
    unfold keyLe
    rintro (h | ⟨h, h'⟩) (k | ⟨k, k'⟩)
    · exact .inl (h.trans k)
    · exact .inl (k ▸ h)
    · exact .inl (h ▸ k)
    · exact .inr ⟨h.trans k, h'.trans k'⟩

/-- **What `main` prints.** When no `Whizbang.Core` package is found, or the
one found has no children, the one line `not found`. Otherwise the two
headers, and then: if every class reads, a line for each class that passes
the tests of the loop, ordered by the key of the sort, and their number; if
not, nothing more, and the exception of the first class that does not read. -/
theorem main_spec (float : Str → Option ℚ) (roots : List Element) :
    ((∀ package, findCoreCoverage roots = some package → package.children = []) ∧
        main float roots = ([.notFound], none)) ∨
      ∃ package, findCoreCoverage roots = some package ∧ package.children ≠ [] ∧
        match (package.findall "class".toList).mapM (readClass float) with
        | .error e => main float roots = ([.header, .subheader], some e)
        | .ok read => ∃ classes : List (Str × ℚ × ℚ), classes.Sorted keyLe ∧ classes.Perm (read.filter kept) ∧
            main float roots =
              ([.header, .subheader] ++ classes.map row ++ [.total classes.length], none) := by
  unfold main
  rcases hp : findCoreCoverage roots with _ | package
  · exact .inl ⟨fun _ h => (nomatch h), rfl⟩
  by_cases hc : package.children = []
  · exact .inl ⟨fun _ h => Option.some.inj h ▸ hc, by simp [hc]⟩
  refine .inr ⟨package, rfl, hc, ?_⟩
  have hce : package.children.isEmpty = false := by cases h : package.children <;> simp_all
  simp only [hce, foldlM_classStep, List.nil_append, Bool.false_eq_true, if_false]
  cases (package.findall "class".toList).mapM (readClass float) with
  | error e => rfl
  | ok read =>
    exact ⟨_, List.sorted_insertionSort _ _, List.perm_insertionSort _ _, rfl⟩

/-- **What `main` lists, in order.** When the `Whizbang.Core` package found
has children and all its classes read, `main` prints a line for each class
that is not at 100% on both rates and whose name starts neither with `<`
nor with `__` (the `<>c` test never decides), ordered by line rate, then by
branch rate; classes with equal rates keep the order of their elements, as
the stable `list.sort` keeps them. -/
theorem main_lists_in_order (float : Str → Option ℚ) (roots : List Element) {package : Element}
    (hp : findCoreCoverage roots = some package) (hc : package.children ≠ [])
    {read : List (Str × ℚ × ℚ)} (hread : (package.findall "class".toList).mapM (readClass float) = .ok read) :
    ∃ classes, main float roots = ([.header, .subheader] ++ classes.map row ++ [.total classes.length], none) ∧
      classes.Sorted keyLe ∧ classes.Perm (read.filter passesFirstTwoTests) ∧
      ∀ a b, List.Sublist [a, b] (read.filter passesFirstTwoTests) → keyLe a b →
        List.Sublist [a, b] classes := by
  have hce : package.children.isEmpty = false := by cases h : package.children <;> simp_all
  refine ⟨(read.filter passesFirstTwoTests).insertionSort keyLe, ?_, List.sorted_insertionSort _ _,
    List.perm_insertionSort _ _, fun a b hab hle => List.pair_sublist_insertionSort hle hab⟩
  rw [main, hp]
  simp only [hce, foldlM_classStep, hread, List.nil_append, Bool.false_eq_true, if_false,
    kept_eq_passesFirstTwoTests]
  rfl

/-- A class element named `name` with both rates `rate`. -/
def classAt (name rate : Str) : Element :=
  .mk "class".toList [("name".toList, name), ("line-rate".toList, rate), ("branch-rate".toList, rate)] []

/-- A `Whizbang.Core` package with, in this order, `Bus` at 50%, a
compiler-generated `<>c` at 0%, `Hub` at 100%, `Log` at 50% and `Map` at 0%. -/
def corePackage : Element :=
  .mk "package".toList [("name".toList, "Whizbang.Core".toList)]
    [classAt "Whizbang.Core.Bus".toList "0.5".toList, classAt "Whizbang.Core.<>c".toList "0".toList,
     classAt "Whizbang.Core.Hub".toList "1".toList, classAt "Whizbang.Core.Log".toList "0.5".toList,
     classAt "Whizbang.Core.Map".toList "0".toList]

section
attribute [local semireducible] Rat.mul Rat.inv

/-- `Map` comes first, then `Bus` and `Log` at equal rates in the order of
their elements; `<>c` and `Hub` are not listed. -/
theorem main_lists_in_order_core_package :
    findCoreCoverage [.mk "coverage".toList [] [corePackage]] = some corePackage ∧
    corePackage.children ≠ [] ∧
    (corePackage.findall "class".toList).mapM (readClass pyFloat) = .ok
      [("Bus".toList, 50, 50), ("<>c".toList, 0, 0), ("Hub".toList, 100, 100),
       ("Log".toList, 50, 50), ("Map".toList, 0, 0)] ∧
    main pyFloat [.mk "coverage".toList [] [corePackage]] =
      ([.header, .subheader, .row .untested "Map".toList 0 0, .row .warning "Bus".toList 50 50,
        .row .warning "Log".toList 50 50, .total 3], none) ∧
    ∃ classes, main pyFloat [.mk "coverage".toList [] [corePackage]] =
        ([.header, .subheader] ++ classes.map row ++ [.total classes.length], none) ∧
      classes.Sorted keyLe ∧ classes.Perm ([("Bus".toList, 50, 50), ("<>c".toList, 0, 0),
        ("Hub".toList, 100, 100), ("Log".toList, 50, 50), ("Map".toList, 0, 0)].filter
          passesFirstTwoTests) ∧
      ∀ a b, List.Sublist [a, b] ([("Bus".toList, 50, 50), ("<>c".toList, 0, 0),
        ("Hub".toList, 100, 100), ("Log".toList, 50, 50), ("Map".toList, 0, 0)].filter
          passesFirstTwoTests) → keyLe a b → List.Sublist [a, b] classes :=
  have hp : findCoreCoverage [.mk "coverage".toList [] [corePackage]] = some corePackage := rfl
  have hc : corePackage.children ≠ [] := List.cons_ne_nil _ _
  have hread : (corePackage.findall "class".toList).mapM (readClass pyFloat) = .ok
      [("Bus".toList, 50, 50), ("<>c".toList, 0, 0), ("Hub".toList, 100, 100),
       ("Log".toList, 50, 50), ("Map".toList, 0, 0)] := by decide
  ⟨hp, hc, hread, by decide, main_lists_in_order pyFloat _ hp hc hread⟩

end

end WhizbangScripts.Coverage.ShowCoreCoverageDetails
