import Mathlib.Data.List.Sort
import WhizbangScripts.Coverage.BestOfRuns

/-!
# The report of analyze_all_coverage.py

`main` prints one line per package, in sorted order, with a status, then the
classes of the package that need coverage, then a summary. A report line is
kept as data; the column widths and the `5.1f` rounding of the source are
left out.

* `main`: the printed lines, and the exception when a report does not read;
* `classes_from_weaker_runs`: in internally consistent reports every class
  listed under a package comes from a run that did not reach 100% on it;
* `complete_with_classes`: a package can still be printed as `✓ 100%` with
  a `Classes needing coverage` block.
-/

namespace WhizbangScripts.Coverage.AnalyzeAllCoverage
open Py

/-- `a <= b` on Python strings: code points compared in order. -/
def strLe : Str → Str → Bool
  | [], _ => true
  | _ :: _, [] => false
  | c :: cs, d :: ds => c < d || (c == d && strLe cs ds)

/-- The status marker of a package line. -/
inductive Status where
  /-- `" ✓ 100%"` -/
  | complete
  /-- `" ⚠ Near"` -/
  | near
  /-- `" ✗ Needs Work"` -/
  | needsWork
  deriving DecidableEq, Repr

/-- The status of a package with rates `line` and `branch`. -/
def status (line branch : ℚ) : Status :=
  if line = 100 ∧ branch = 100 then .complete
  else if 95 ≤ line ∧ 95 ≤ branch then .near
  else .needsWork

/-- A line of the printed report. -/
inductive ReportLine where
  /-- `"No coverage files found. Run tests with coverage first."` -/
  | noFiles
  /-- `"=== Analyzing Coverage from {n} Test Projects ===\n"` -/
  | header (n : Nat)
  /-- `"Package Coverage Summary:\n"` -/
  | summaryTitle
  /-- `"{pkg_name:45s} Line: {line:5.1f}% | Branch: {branch:5.1f}%{status}"` -/
  | package (name : Str) (line branch : ℚ) (status : Status)
  /-- `"  Classes needing coverage:"` -/
  | classesHeader
  /-- `"    • {class_name:40s} Line: {class_line:5.1f}% | Branch: {class_branch:5.1f}%"` -/
  | classRow (name : Str) (line branch : ℚ)
  /-- `"    ... and {k} more classes"` -/
  | more (k : Nat)
  /-- `print()` -/
  | blank
  /-- `"=== Summary ==="` -/
  | summaryHeader
  /-- `"Total Packages: {n}"` -/
  | total (n : Nat)
  /-- `"100% Coverage: {n}"` -/
  | fullyCovered (n : Nat)
  /-- `"Packages Needing Work: {n}"` -/
  | needingWork (n : Nat)
  deriving DecidableEq, Repr

/-- The lines printed for one package. -/
def packageLines (name : Str) (m : Metrics) : List ReportLine :=
  .package name m.line m.branch (status m.line m.branch) ::
    if m.classes.entries = [] then []
    else .classesHeader ::
      ((m.classes.entries.insertionSort (fun a b => strLe a.1 b.1 = true)).take 10).filterMap
          (fun e => if e.2.1 < 100 ∨ e.2.2 < 100 then some (.classRow e.1 e.2.1 e.2.2) else none) ++
        (if m.classes.size > 10 then [.more (m.classes.size - 10)] else []) ++ [.blank]

/-- The package table and the summary, for an aggregate `all`. -/
def report (all : Dict Str Metrics) : List ReportLine :=
  let names := all.keys.insertionSort (fun a b => strLe a b = true)
  let lines := names.flatMap fun n => match all.get? n with
    | some m => packageLines n m
    | none => []
  let complete := (names.filter fun n => match all.get? n with
    | some m => status m.line m.branch = .complete
    | none => false).length
  .summaryTitle :: lines ++
    [.summaryHeader, .total all.size, .fullyCovered complete, .needingWork (all.size - complete)]

/-- `main` on the reports `find_latest_coverage_files` found: the printed
lines, and the exception that stopped it, if any. -/
def main (float : Str → Option ℚ) (docs : List Element) : List ReportLine × Option PyError :=
  if docs.isEmpty then ([.noFiles], none)
  else match aggregate float docs with
    | .ok all => (.header docs.length :: report all, none)
    | .error e => ([.header docs.length], some e)

/-- Internally consistent reports: in every package element whose two rates
are 1, every nested class element has both rates 1. -/
def Consistent (float : Str → Option ℚ) (docs : List Element) : Prop :=
  ∀ e ∈ packagesOf docs, readRate float e "line-rate".toList = .ok 1 →
    readRate float e "branch-rate".toList = .ok 1 →
      ∀ ce ∈ e.findall "class".toList,
        readRate float ce "line-rate".toList = .ok 1 ∧ readRate float ce "branch-rate".toList = .ok 1

instance (float : Str → Option ℚ) (docs : List Element) : Decidable (Consistent float docs) :=
  inferInstanceAs (Decidable (∀ e ∈ packagesOf docs, _))

theorem not_recorded_of_full {float : Str → Option ℚ} {ce : Element} {c : Str}
    (hl : readRate float ce "line-rate".toList = .ok 1)
    (hb : readRate float ce "branch-rate".toList = .ok 1) : ¬Recorded true float ce c := by
  rintro ⟨n, l, b, -, -, hl', hb', hlow⟩
  rw [hl] at hl'; rw [hb] at hb'
  cases hl'; cases hb'
  exact hlow ⟨rfl, by rw [one_mul]; decide, by rw [one_mul]; decide⟩

/-- In internally consistent reports, every class in the aggregate under a
package comes from a package element of that name that did not report both
rates 1; so when every element of the name reports both rates 1, the
package has no classes. -/
theorem classes_from_weaker_runs (float : Str → Option ℚ) (docs : List Element)
    (ps : List PackageRead) (h : readAll float docs = .ok ps) (hc : Consistent float docs) :
    ∃ agg, aggregate float docs = .ok agg ∧
      (∀ P m c, agg.get? P = some m → c ∈ m.classes.keys →
        ∃ e ∈ packagesOf docs, e.get "name".toList = some P ∧
          ¬(readRate float e "line-rate".toList = .ok 1 ∧
            readRate float e "branch-rate".toList = .ok 1) ∧
          ∃ ce ∈ e.findall "class".toList, Recorded true float ce c) ∧
      ∀ P m, agg.get? P = some m →
        (∀ e ∈ packagesOf docs, e.get "name".toList = some P →
          readRate float e "line-rate".toList = .ok 1 ∧
            readRate float e "branch-rate".toList = .ok 1) →
        m.classes.keys = [] := by
  obtain ⟨agg, hagg, -, hbest⟩ := bestOfRuns_of_readAll h
  have weaker : ∀ P m c, agg.get? P = some m → c ∈ m.classes.keys →
      ∃ e ∈ packagesOf docs, e.get "name".toList = some P ∧
        ¬(readRate float e "line-rate".toList = .ok 1 ∧
          readRate float e "branch-rate".toList = .ok 1) ∧
        ∃ ce ∈ e.findall "class".toList, Recorded true float ce c := by
    intro P m c hm hcm
    obtain ⟨e, he, hn, ce, hce, hrec⟩ := ((hbest P m hm).2.2 c).1 hcm
    refine ⟨e, he, hn, fun ⟨hl, hb⟩ => ?_, ce, hce, hrec⟩
    obtain ⟨hl', hb'⟩ := hc e he hl hb ce hce
    exact not_recorded_of_full hl' hb' hrec
  refine ⟨agg, hagg, weaker, fun P m hm hfull => List.eq_nil_iff_forall_not_mem.2 fun c hcm => ?_⟩
  obtain ⟨e, he, hn, hnot, -⟩ := weaker P m c hm hcm
  exact hnot (hfull e he hn)

/-- Two runs of `Whizbang.Core`: one at 100% whose class is at 100%, one at
50% with the class `Bus` at 50%. -/
def twoRuns : List Element :=
  [.mk "coverage".toList [] [.mk "package".toList [("name".toList, "Whizbang.Core".toList),
      ("line-rate".toList, "1".toList), ("branch-rate".toList, "1".toList)]
      [.mk "class".toList [("name".toList, "Whizbang.Core.Bus".toList),
        ("line-rate".toList, "1".toList), ("branch-rate".toList, "1".toList)] []]],
   .mk "coverage".toList [] [.mk "package".toList [("name".toList, "Whizbang.Core".toList),
      ("line-rate".toList, "0.5".toList), ("branch-rate".toList, "0.5".toList)]
      [.mk "class".toList [("name".toList, "Whizbang.Core.Bus".toList),
        ("line-rate".toList, "0.5".toList), ("branch-rate".toList, "0.5".toList)] []]]]

section
attribute [local semireducible] Rat.mul Rat.inv

theorem classes_from_weaker_runs_two_runs :
    readAll pyFloat twoRuns = .ok [⟨"Whizbang.Core".toList, 100, 100, Dict.empty⟩,
      ⟨"Whizbang.Core".toList, 50, 50, ⟨[("Bus".toList, (50, 50))], by decide⟩⟩] ∧
    Consistent pyFloat twoRuns ∧
    ∃ agg, aggregate pyFloat twoRuns = .ok agg ∧
      (∀ P m c, agg.get? P = some m → c ∈ m.classes.keys →
        ∃ e ∈ packagesOf twoRuns, e.get "name".toList = some P ∧
          ¬(readRate pyFloat e "line-rate".toList = .ok 1 ∧
            readRate pyFloat e "branch-rate".toList = .ok 1) ∧
          ∃ ce ∈ e.findall "class".toList, Recorded true pyFloat ce c) ∧
      ∀ P m, agg.get? P = some m →
        (∀ e ∈ packagesOf twoRuns, e.get "name".toList = some P →
          readRate pyFloat e "line-rate".toList = .ok 1 ∧
            readRate pyFloat e "branch-rate".toList = .ok 1) →
        m.classes.keys = [] :=
  have h : readAll pyFloat twoRuns = .ok [⟨"Whizbang.Core".toList, 100, 100, Dict.empty⟩,
      ⟨"Whizbang.Core".toList, 50, 50, ⟨[("Bus".toList, (50, 50))], by decide⟩⟩] := by decide
  have hc : Consistent pyFloat twoRuns := by decide
  ⟨h, hc, classes_from_weaker_runs _ _ _ h hc⟩

/-- The two runs are internally consistent, and the report prints
`Whizbang.Core` as `✓ 100%` followed by a `Classes needing coverage` block. -/
theorem complete_with_classes :
    Consistent pyFloat twoRuns ∧
    main pyFloat twoRuns =
      ([.header 2, .summaryTitle, .package "Whizbang.Core".toList 100 100 .complete, .classesHeader,
        .classRow "Bus".toList 50 50, .blank, .summaryHeader, .total 1, .fullyCovered 1,
        .needingWork 0], none) := by
  decide

end

end WhizbangScripts.Coverage.AnalyzeAllCoverage
