import WhizbangScripts.Coverage.Legacy
import WhizbangScripts.Coverage.RunOrder

/-!
# The report of analyze_coverage.py

The legacy `main` prints, after the aggregation, one line per package in
sorted order with a status, then every class of the package below 100%, and
a summary with the rate of complete packages. Report lines are kept as data,
without the column widths and the `5.1f` rounding.

* `main`: the printed lines, and the exception that stopped the aggregation;
* `main_complete_lists_no_class`: in internally consistent reports, a
  package printed `✓ 100%` has no class line: its record is that of one
  package element, whose classes are then all at 100%;
* `mains_stop_at_first_error`: the first package element that does not
  read stops its script, before it prints any package;
* `aggregates_same_names_but_tests`: the strict script summarizes the
  packages of the legacy one but those whose name contains `.Tests`.
-/

namespace WhizbangScripts.Coverage.AnalyzeCoverage
open Py

/-- The status marker of a package line. -/
inductive Status where
  /-- `" ✓ 100%"` -/
  | complete
  /-- `" ⚠ Near"` -/
  | near
  /-- `" ✗ Low"` -/
  | low
  deriving DecidableEq, Repr

/-- The status of a package with rates `line` and `branch`. -/
def status (line branch : ℚ) : Status :=
  if line = 100 ∧ branch = 100 then .complete
  else if 90 ≤ line ∧ 90 ≤ branch then .near
  else .low

/-- A line of the printed report. -/
inductive ReportLine where
  /-- `"No coverage files found. Run tests with coverage first."` -/
  | noFiles
  /-- `"=== Whizbang Solution Coverage Summary ===\n"` -/
  | title
  /-- `"{pkg_name:45s} Line: {line:5.1f}% | Branch: {branch:5.1f}%{status}"` -/
  | package (name : Str) (line branch : ℚ) (status : Status)
  /-- `"  └─ {class_name:40s} Line: {class_line:5.1f}% | Branch: {class_branch:5.1f}%"` -/
  | classRow (name : Str) (line branch : ℚ)
  /-- `"\n=== Summary ==="` -/
  | summaryHeader
  /-- `"Total Packages: {n}"` -/
  | total (n : Nat)
  /-- `"100% Coverage: {n}"` -/
  | fullyCovered (n : Nat)
  /-- `"Coverage Rate: {covered}/{total} ({percent}%)"` -/
  | coverageRate (covered total percent : Nat)
  deriving DecidableEq, Repr

/-- The lines printed for one package: its line, then each of its classes,
in name order, with a rate below 100. -/
def packageLines (name : Str) (m : Metrics) : List ReportLine :=
  .package name m.line m.branch (status m.line m.branch) ::
    (AnalyzeAllCoverage.sortedClasses m.classes).filterMap fun e =>
      if e.2.1 < 100 ∨ e.2.2 < 100 then some (.classRow e.1 e.2.1 e.2.2) else none

/-- The report and the summary, for an aggregate `all`. -/
def report (all : Dict Str Metrics) : List ReportLine :=
  let names := all.keys.insertionSort (fun a b => AnalyzeAllCoverage.strLe a b = true)
  let lines := names.flatMap fun n => match all.get? n with
    | some m => packageLines n m
    | none => []
  let complete := (names.filter fun n => match all.get? n with
    | some m => status m.line m.branch = .complete
    | none => false).length
  .title :: lines ++ [.summaryHeader, .total all.size, .fullyCovered complete,
    .coverageRate complete all.size (if all.size > 0 then complete * 100 / all.size else 0)]

/-- `main` on the reports `find_coverage_files` found: the printed lines,
and the exception that stopped it, if any. Nothing is printed before the
aggregation ends. -/
def main (float : Str → Option ℚ) (docs : List Element) : List ReportLine × Option PyError :=
  if docs.isEmpty then ([.noFiles], none)
  else match aggregate float docs with
    | .ok all => (report all, none)
    | .error e => ([], some e)

/-! ## A complete package -/

/-- Every package of the aggregate has its block of lines in the report. -/
theorem packageLines_infix_report {all : Dict Str Metrics} {P : Str} {m : Metrics}
    (hm : all.get? P = some m) : packageLines P m <:+: report all := by
  have hP : P ∈ all.keys.insertionSort (fun a b => AnalyzeAllCoverage.strLe a b = true) :=
    (List.mem_insertionSort _).2 ((Dict.mem_keys _ _).2 ⟨m, hm⟩)
  have hblock : packageLines P m <:+: (all.keys.insertionSort (fun a b => AnalyzeAllCoverage.strLe a b = true)).flatMap
      fun n => match all.get? n with
        | some m => packageLines n m
        | none => [] := by
    rw [List.flatMap_def]
    exact List.infix_of_mem_flatten (List.mem_map.2 ⟨P, hP, by rw [hm]⟩)
  dsimp only [report]
  exact (List.infix_cons hblock).trans (List.prefix_append _ _).isInfix

/-- A class map whose classes are all at 100% prints no class line. -/
theorem packageLines_of_full {P : Str} {m : Metrics} (h : ∀ c r, m.classes.get? c = some r → r = (100, 100)) :
    packageLines P m = [.package P m.line m.branch (status m.line m.branch)] := by
  rw [packageLines, List.filterMap_eq_nil_iff.2]
  intro e he
  have hr := h e.1 e.2 (m.classes.get?_of_mem ((AnalyzeAllCoverage.sortedClasses_perm _).subset he))
  rw [hr]
  exact if_neg fun h => h.elim (lt_irrefl _) (lt_irrefl _)

/-- The classes the legacy class loop reads from a package element whose
class elements are all at rate 1 are all at 100%. -/
theorem readClasses_full {float : Str → Option ℚ} {e : Element} {cls : Dict Str (ℚ × ℚ)}
    (h : readClasses false float e = .ok cls)
    (hfull : ∀ ce ∈ e.findall "class".toList,
      readRate float ce "line-rate".toList = .ok 1 ∧ readRate float ce "branch-rate".toList = .ok 1)
    (c : Str) (r : ℚ × ℚ) (hr : cls.get? c = some r) : r = (100, 100) := by
  rw [readClasses_get? h] at hr
  obtain ⟨ce, hce, hrec⟩ := List.mem_filterMap.1 (lastValue_mem hr)
  obtain ⟨hl, hb⟩ := hfull ce hce
  cases hn : ce.get "name".toList with
  | none => simp only [recordedClass, hn] at hrec; cases hrec
  | some n =>
    simp only [recordedClass, hn, hl, hb, Bool.false_eq_true, false_and, if_false,
      Option.some.injEq, Prod.mk.injEq] at hrec
    rw [← hrec.2, one_mul]

theorem status_complete {line branch : ℚ} (h : status line branch = .complete) :
    line = 100 ∧ branch = 100 := by
  unfold status at h
  split at h
  · assumption
  · split at h <;> cases h

theorem rate_eq_one {l : ℚ} (h : l * 100 = 100) : l = 1 :=
  (mul_left_inj' (by norm_cast : (100 : ℚ) ≠ 0)).1 (by rw [h, one_mul])

/-- A record the legacy aggregation keeps is that of a package element of
the reports. -/
theorem read_of_lastNamed {float : Str → Option ℚ} {docs : List Element}
    {rs : List (Option PackageRead)} (hrs : (packagesOf docs).mapM (readPackage float) = .ok rs)
    {P : Str} {m : Metrics} (hm : lastNamed (rs.filterMap id) P = some m) :
    ∃ e ∈ packagesOf docs, ∃ p, readPackage float e = .ok (some p) ∧ p.metrics = m := by
  obtain ⟨p, hp, rfl⟩ := Option.map_eq_some'.1 hm
  obtain ⟨hpr, -⟩ := List.mem_filter.1 (List.mem_of_getLast?_eq_some hp)
  obtain ⟨r, hr, hrp⟩ := List.mem_filterMap.1 hpr
  obtain ⟨e, he, hre⟩ := (AnalyzeAllCoverage.mapM_ok_mem hrs).2 _ hr
  exact ⟨e, he, p, by rw [hre, show r = some p from hrp], rfl⟩

/-- **A complete package lists no class.** Whenever the reports read and are
internally consistent, the legacy `main` prints the report of its aggregate,
with the block of every package in it; and the block of a package printed
`✓ 100%` is its one line: its record is that of the last package element of
its name, whose class elements are then all at 100%. -/
theorem main_complete_lists_no_class {float : Str → Option ℚ} {docs : List Element}
    {ps : List PackageRead} (h : readAll float docs = .ok ps)
    (hc : AnalyzeAllCoverage.Consistent float docs) (hne : docs ≠ []) :
    ∃ agg, main float docs = (report agg, none) ∧ ∀ P m, agg.get? P = some m →
      packageLines P m <:+: (main float docs).1 ∧
      (status m.line m.branch = .complete → packageLines P m = [.package P 100 100 .complete]) := by
  obtain ⟨rs, hrs, rfl⟩ := except_map_ok.1 h
  obtain ⟨agg, hagg, hget⟩ := foldlM_fileStep float docs Dict.empty hrs
  have hmain : main float docs = (report agg, none) := by
    rw [main, if_neg (by simpa using hne)]
    rw [show aggregate float docs = .ok agg from hagg]
  refine ⟨agg, hmain, fun P m hm => ⟨hmain ▸ packageLines_infix_report hm, fun hst => ?_⟩⟩
  rw [hget, Dict.get?_empty, Option.or_none] at hm
  obtain ⟨e, he, p, hre, rfl⟩ := read_of_lastNamed hrs hm
  obtain ⟨-, ⟨l, hl, hpl⟩, ⟨b, hb, hpb⟩, hcls⟩ := readPackage_some hre
  obtain ⟨hline, hbranch⟩ := status_complete hst
  have hfull := hc e he (rate_eq_one (hpl.symm.trans hline) ▸ hl) (rate_eq_one (hpb.symm.trans hbranch) ▸ hb)
  rw [packageLines_of_full (readClasses_full hcls hfull), hst, hline, hbranch]

section
attribute [local semireducible] Rat.mul Rat.inv

/-- The two runs of `twoRuns` the other way round: the legacy report keeps
the run at 100%, and prints no class under `Whizbang.Core`. -/
theorem main_complete_lists_no_class_two_runs :
    readAll pyFloat AnalyzeAllCoverage.twoRuns.reverse = .ok
      [⟨"Whizbang.Core".toList, 50, 50, ⟨[("Bus".toList, (50, 50))], by decide⟩⟩,
       ⟨"Whizbang.Core".toList, 100, 100, ⟨[("Bus".toList, (100, 100))], by decide⟩⟩] ∧
    AnalyzeAllCoverage.Consistent pyFloat AnalyzeAllCoverage.twoRuns.reverse ∧ AnalyzeAllCoverage.twoRuns.reverse ≠ [] ∧
    main pyFloat AnalyzeAllCoverage.twoRuns.reverse = ([.title, .package "Whizbang.Core".toList 100 100 .complete,
      .summaryHeader, .total 1, .fullyCovered 1, .coverageRate 1 1 100], none) ∧
    ∃ agg, main pyFloat AnalyzeAllCoverage.twoRuns.reverse = (report agg, none) ∧ ∀ P m, agg.get? P = some m →
      packageLines P m <:+: (main pyFloat AnalyzeAllCoverage.twoRuns.reverse).1 ∧
      (status m.line m.branch = .complete → packageLines P m = [.package P 100 100 .complete]) :=
  have h : readAll pyFloat AnalyzeAllCoverage.twoRuns.reverse = .ok
      [⟨"Whizbang.Core".toList, 50, 50, ⟨[("Bus".toList, (50, 50))], by decide⟩⟩,
       ⟨"Whizbang.Core".toList, 100, 100, ⟨[("Bus".toList, (100, 100))], by decide⟩⟩] := by decide
  have hc : AnalyzeAllCoverage.Consistent pyFloat AnalyzeAllCoverage.twoRuns.reverse := by decide
  have hne : AnalyzeAllCoverage.twoRuns.reverse ≠ [] := by
    rw [Ne, List.reverse_eq_nil_iff]; exact List.cons_ne_nil _ _
  ⟨h, hc, hne, by decide, main_complete_lists_no_class h hc hne⟩

end

/-! ## A package that does not read -/

/-- **The first package that does not read stops its script.** For each
script: when its reading of the package elements of the reports, in order,
raises, its `main` stops with the exception of the first element that
raises: the strict one after printing only its header, the legacy one before
printing anything. No report read before it is summarized. -/
theorem mains_stop_at_first_error {float : Str → Option ℚ} {docs : List Element} (hne : docs ≠ []) :
    (∀ e, AnalyzeAllCoverage.readAll float docs = .error e →
      AnalyzeAllCoverage.main float docs = ([.header docs.length], some e)) ∧
    (∀ e, readAll float docs = .error e → main float docs = ([], some e)) := by
  have hempty : docs.isEmpty = false := by cases docs <;> simp_all
  refine ⟨fun e h => ?_, fun e h => ?_⟩
  · rw [AnalyzeAllCoverage.main, hempty, AnalyzeAllCoverage.aggregate_error h]; rfl
  · rw [main, hempty, aggregate_error h]; rfl

/-- A report whose one package, `Whizbang.Core.Tests`, has rates `abc`. -/
def unreadTests : Element :=
  .mk "coverage".toList []
    [.mk "package".toList [("name".toList, "Whizbang.Core.Tests".toList),
      ("line-rate".toList, "abc".toList), ("branch-rate".toList, "abc".toList)] []]

/-- The strict script skips the tests package of `unreadTests` and reads
nothing; the legacy one reads its rate `abc` and stops with `ValueError`. -/
theorem mains_stop_at_first_error_unread_tests :
    [unreadTests] ≠ [] ∧
    AnalyzeAllCoverage.readAll pyFloat [unreadTests] = .ok [] ∧
    readAll pyFloat [unreadTests] = .error (.valueError "could not convert string to float") ∧
    main pyFloat [unreadTests] = ([], some (.valueError "could not convert string to float")) :=
  have hne : [unreadTests] ≠ [] := List.cons_ne_nil _ _
  have h : readAll pyFloat [unreadTests] = .error (.valueError "could not convert string to float") := by
    decide
  ⟨hne, by decide, h, (mains_stop_at_first_error hne).2 _ h⟩

/-! ## The packages the two scripts summarize -/

theorem isSome_lastNamed (ps : List PackageRead) (P : Str) :
    (lastNamed ps P).isSome ↔ P ∈ ps.map (·.name) := by
  simp [lastNamed, readsNamed, List.getLast?_isSome, List.filter_eq_nil_iff]

/-- The names the legacy aggregation holds are those of the package
elements that start with `Whizbang`. -/
theorem mem_keys_aggregate {float : Str → Option ℚ} {docs : List Element} {ps : List PackageRead}
    (h : readAll float docs = .ok ps) :
    ∃ agg, aggregate float docs = .ok agg ∧ ∀ P, P ∈ agg.keys ↔
      startswith P "Whizbang".toList = true ∧ ∃ e ∈ packagesOf docs, e.get "name".toList = some P := by
  obtain ⟨rs, hrs, rfl⟩ := except_map_ok.1 h
  obtain ⟨agg, hagg, hget⟩ := foldlM_fileStep float docs Dict.empty hrs
  refine ⟨agg, hagg, fun P => ?_⟩
  rw [Dict.mem_keys, ← Option.isSome_iff_exists, hget, Dict.get?_empty, Option.or_none,
    isSome_lastNamed, AnalyzeAllCoverage.mem_names_readPackage hrs]
  simp

/-- **The strict script summarizes the legacy script's packages but the
tests.** Whenever both read the reports, the package names of the strict
aggregate are those of the legacy aggregate that do not contain `.Tests`. -/
theorem aggregates_same_names_but_tests {float : Str → Option ℚ} {docs : List Element}
    {ps ps' : List PackageRead} (h : AnalyzeAllCoverage.readAll float docs = .ok ps)
    (h' : readAll float docs = .ok ps') :
    ∃ agg agg', AnalyzeAllCoverage.aggregate float docs = .ok agg ∧ aggregate float docs = .ok agg' ∧
      ∀ P, P ∈ agg.keys ↔ P ∈ agg'.keys ∧ contains P ".Tests".toList = false := by
  obtain ⟨agg, hagg, hkeys, -⟩ := AnalyzeAllCoverage.bestOfRuns_of_readAll h
  obtain ⟨agg', hagg', hkeys'⟩ := mem_keys_aggregate h'
  refine ⟨agg, agg', hagg, hagg', fun P => ?_⟩
  rw [hkeys, hkeys', AnalyzeAllCoverage.keptName_iff]
  simp only [true_and, Bool.not_eq_true]
  exact and_right_comm

/-- A report with `Whizbang.Core` at 50% and its tests at 100%. -/
def withTests : Element :=
  .mk "coverage".toList []
    [.mk "package".toList [("name".toList, "Whizbang.Core".toList), ("line-rate".toList, "0.5".toList),
      ("branch-rate".toList, "0.5".toList)] [],
     .mk "package".toList [("name".toList, "Whizbang.Core.Tests".toList), ("line-rate".toList, "1".toList),
      ("branch-rate".toList, "1".toList)] []]

section
attribute [local semireducible] Rat.mul Rat.inv

/-- On `withTests` the legacy script summarizes both packages, the strict
one `Whizbang.Core` only. -/
theorem aggregates_same_names_but_tests_with_tests :
    AnalyzeAllCoverage.readAll pyFloat [withTests] = .ok [⟨"Whizbang.Core".toList, 50, 50, Dict.empty⟩] ∧
    readAll pyFloat [withTests] = .ok [⟨"Whizbang.Core".toList, 50, 50, Dict.empty⟩,
      ⟨"Whizbang.Core.Tests".toList, 100, 100, Dict.empty⟩] ∧
    ∃ agg agg', AnalyzeAllCoverage.aggregate pyFloat [withTests] = .ok agg ∧
      aggregate pyFloat [withTests] = .ok agg' ∧
      ∀ P, P ∈ agg.keys ↔ P ∈ agg'.keys ∧ contains P ".Tests".toList = false :=
  have h : AnalyzeAllCoverage.readAll pyFloat [withTests] =
      .ok [⟨"Whizbang.Core".toList, 50, 50, Dict.empty⟩] := by decide
  have h' : readAll pyFloat [withTests] = .ok [⟨"Whizbang.Core".toList, 50, 50, Dict.empty⟩,
      ⟨"Whizbang.Core.Tests".toList, 100, 100, Dict.empty⟩] := by decide
  ⟨h, h', aggregates_same_names_but_tests h h'⟩

end

end WhizbangScripts.Coverage.AnalyzeCoverage
