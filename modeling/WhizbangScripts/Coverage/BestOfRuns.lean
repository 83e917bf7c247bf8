import WhizbangScripts.Coverage.Aggregate

/-!
# The best-of-all-runs view

What the strict aggregation computes, stated over the reports alone:

* its names are the kept names of the package elements;
* under each name, each rate is `max(0, max of 100 * rate)` over the package
  elements of that name (`ratesNamed`), and the class names are those of the
  nested class elements that the 90/90 filter keeps (`ListedClass`);
* so the result does not depend on the order of the reports, nor on the
  order of the package elements inside them (`aggregate_max_union`).
-/

namespace WhizbangScripts.Coverage
open Py

/-- `100 * rate` of every package element named `P`, report after report. -/
def ratesNamed (float : Str → Option ℚ) (docs : List Element) (key P : Str) : List ℚ :=
  (packagesOf docs).filterMap fun e =>
    if e.get "name".toList = some P then (readRate float e key).toOption.map (· * 100) else none

namespace AnalyzeAllCoverage

/-- `c` is the short name of a class, nested in a package element named `P`,
that the class loop records. -/
def ListedClass (float : Str → Option ℚ) (docs : List Element) (P c : Str) : Prop :=
  ∃ e ∈ packagesOf docs, e.get "name".toList = some P ∧
    ∃ ce ∈ e.findall "class".toList, Recorded true float ce c

/-- The aggregate the reports determine: the kept names, and under each the
peak rates and the listed classes. -/
def BestOfRuns (float : Str → Option ℚ) (docs : List Element) (agg : Dict Str Metrics) : Prop :=
  (∀ P, P ∈ agg.keys ↔ keptName P = true ∧ ∃ e ∈ packagesOf docs, e.get "name".toList = some P) ∧
  ∀ P m, agg.get? P = some m →
    m.line = peak (ratesNamed float docs "line-rate".toList P) ∧
    m.branch = peak (ratesNamed float docs "branch-rate".toList P) ∧
    ∀ c, c ∈ m.classes.keys ↔ ListedClass float docs P c

/-- Two aggregates with the same names, and under each name the same rates
and the same class names. -/
def SameView (a b : Dict Str Metrics) : Prop :=
  (∀ P, P ∈ a.keys ↔ P ∈ b.keys) ∧ ∀ P m m', a.get? P = some m → b.get? P = some m' →
    m.line = m'.line ∧ m.branch = m'.branch ∧ ∀ c, c ∈ m.classes.keys ↔ c ∈ m'.classes.keys

section
variable {α β ε : Type}

theorem mapM_ok_mem {f : α → Except ε β} {l : List α} {rs : List β} (h : l.mapM f = .ok rs) :
    (∀ x ∈ l, ∃ r ∈ rs, f x = .ok r) ∧ ∀ r ∈ rs, ∃ x ∈ l, f x = .ok r := by
  induction l generalizing rs with
  | nil => cases h; simp
  | cons x l ih =>
    obtain ⟨r, rs', hx, hl, rfl⟩ := mapM_cons_ok.1 h
    obtain ⟨h₁, h₂⟩ := ih hl
    refine ⟨?_, ?_⟩
    · rintro y (_ | ⟨_, hy⟩)
      · exact ⟨r, .head _, hx⟩
      · obtain ⟨r', hr', hy'⟩ := h₁ y hy; exact ⟨r', .tail _ hr', hy'⟩
    · rintro r₁ (_ | ⟨_, hr⟩)
      · exact ⟨x, .head _, hx⟩
      · obtain ⟨y, hy, hy'⟩ := h₂ r₁ hr; exact ⟨y, .tail _ hy, hy'⟩

theorem mapM_ok_of_forall {f : α → Except ε β} {l : List α} (h : ∀ x ∈ l, ∃ r, f x = .ok r) :
    ∃ rs, l.mapM f = .ok rs := by
  induction l with
  | nil => exact ⟨[], rfl⟩
  | cons x l ih =>
    obtain ⟨r, hr⟩ := h x (.head _)
    obtain ⟨rs, hrs⟩ := ih fun y hy => h y (.tail _ hy)
    exact ⟨r :: rs, mapM_cons_ok.2 ⟨r, rs, hr, hrs, rfl⟩⟩

end

theorem keptName_iff (n : Str) :
    keptName n = true ↔ startswith n "Whizbang".toList = true ∧ ¬(true = true ∧ contains n ".Tests".toList = true) := by
  simp [keptName]

/-- The names of the reads the package loop keeps, with or without the test
package filter: the names of the package elements that pass the filters. -/
theorem mem_names_readPackage {skipTests skipCovered : Bool} {float : Str → Option ℚ}
    {l : List Element} {rs : List (Option PackageRead)}
    (h : l.mapM (Coverage.readPackage skipTests skipCovered float) = .ok rs) (P : Str) :
    P ∈ (rs.filterMap id).map (·.name) ↔
      (startswith P "Whizbang".toList = true ∧ ¬(skipTests ∧ contains P ".Tests".toList = true)) ∧
        ∃ e ∈ l, e.get "name".toList = some P := by
  obtain ⟨h₁, h₂⟩ := mapM_ok_mem h
  constructor
  · intro hP
    obtain ⟨p, hp, rfl⟩ := List.mem_map.1 hP
    obtain ⟨e, he, hr⟩ := h₂ (some p) (List.mem_filterMap.1 hp |>.elim fun _ ⟨h, h'⟩ => h' ▸ h)
    obtain ⟨n, hn, -, hsome⟩ := readPackage_ok hr
    obtain ⟨rfl, hw, ht⟩ := hsome p rfl
    exact ⟨⟨hw, ht⟩, e, he, hn⟩
  · rintro ⟨hk, e, he, hn⟩
    obtain ⟨r, hr, hre⟩ := h₁ e he
    obtain ⟨n, hn', hkept, -⟩ := readPackage_ok hre
    rw [hn] at hn'; cases hn'
    obtain ⟨p, rfl, rfl, -⟩ := hkept hk
    exact List.mem_map.2 ⟨p, List.mem_filterMap.2 ⟨some p, hr, rfl⟩, rfl⟩

/-- The names of the kept reads are the kept names of the package elements. -/
theorem mem_names_read {float : Str → Option ℚ} {l : List Element}
    {rs : List (Option PackageRead)} (h : l.mapM (readPackage float) = .ok rs) (P : Str) :
    P ∈ (rs.filterMap id).map (·.name) ↔ keptName P = true ∧ ∃ e ∈ l, e.get "name".toList = some P := by
  rw [mem_names_readPackage h, keptName_iff]

/-- The rates of the kept reads named `P`, for a rate `sel` read from `key`. -/
theorem rates_read {float : Str → Option ℚ} (sel : PackageRead → ℚ) (key : Str)
    (hsel : ∀ e p, readPackage float e = .ok (some p) →
      ∃ x, readRate float e key = .ok x ∧ sel p = x * 100)
    {P : Str} (hP : keptName P = true) (l : List Element) :
    ∀ {rs : List (Option PackageRead)}, l.mapM (readPackage float) = .ok rs →
      (readsNamed (rs.filterMap id) P).map sel = l.filterMap fun e =>
        if e.get "name".toList = some P then (readRate float e key).toOption.map (· * 100) else none := by
  induction l with
  | nil => intro rs h; cases h; rfl
  | cons e l ih =>
    intro rs h
    obtain ⟨r, rs', he, hl, rfl⟩ := mapM_cons_ok.1 h
    obtain ⟨n, hn, hkept, hsome⟩ := readPackage_ok he
    by_cases hnP : n = P
    · subst hnP
      obtain ⟨p, rfl, rfl, -⟩ := hkept ((keptName_iff _).1 hP)
      obtain ⟨x, hx, hsx⟩ := hsel e p he
      have hnamed : readsNamed ((some p :: rs').filterMap id) p.name =
          p :: readsNamed (rs'.filterMap id) p.name := by simp [readsNamed]
      rw [hnamed, List.map_cons, ih hl, List.filterMap_cons, if_pos hn, hx, hsx]; rfl
    · have hskip : (Option.toList r).filter (·.name == P) = [] := by
        cases r with
        | none => rfl
        | some p => simp [(hsome p rfl).1, hnP]
      have hget : e.get "name".toList ≠ some P := by rw [hn]; simpa using hnP
      simp only [List.filterMap_cons, id, readsNamed, if_neg hget] at ih ⊢
      cases r <;> simp_all

/-- The class names of the kept reads named `P` are the listed classes. -/
theorem classes_read {float : Str → Option ℚ} {P : Str} (hP : keptName P = true)
    {docs : List Element} {rs : List (Option PackageRead)}
    (h : (packagesOf docs).mapM (readPackage float) = .ok rs) (c : Str) :
    (∃ q ∈ readsNamed (rs.filterMap id) P, c ∈ q.classes.keys) ↔ ListedClass float docs P c := by
  obtain ⟨h₁, h₂⟩ := mapM_ok_mem h
  constructor
  · rintro ⟨q, hq, hc⟩
    simp only [readsNamed, List.mem_filter, beq_iff_eq, List.mem_filterMap, id] at hq
    obtain ⟨⟨r, hr, rfl⟩, rfl⟩ := hq
    obtain ⟨e, he, hre⟩ := h₂ _ hr
    obtain ⟨hn, -, -, hcls⟩ := readPackage_some hre
    exact ⟨e, he, hn, (readClasses_keys hcls c).1 hc⟩
  · rintro ⟨e, he, hn, hlisted⟩
    obtain ⟨r, hr, hre⟩ := h₁ e he
    obtain ⟨n, hn', hkept, -⟩ := readPackage_ok hre
    rw [hn] at hn'; cases hn'
    obtain ⟨p, rfl, rfl, -, -, hcls⟩ := hkept ((keptName_iff _).1 hP)
    refine ⟨p, ?_, (readClasses_keys hcls c).2 hlisted⟩
    simp only [readsNamed, List.mem_filter, beq_iff_eq, List.mem_filterMap, id]
    exact ⟨⟨some p, hr, rfl⟩, by simp⟩

theorem bestOfRuns_of_readAll {float : Str → Option ℚ} {docs : List Element}
    {ps : List PackageRead} (h : readAll float docs = .ok ps) :
    ∃ agg, aggregate float docs = .ok agg ∧ BestOfRuns float docs agg := by
  obtain ⟨agg, hagg, hsum, hnn⟩ := aggregate_summarizes h
  obtain ⟨rs, hrs, rfl⟩ := except_map_ok.1 h
  refine ⟨agg, hagg, fun P => by rw [(hsum P).1, mem_names_read hrs], fun P m hm => ?_⟩
  have hP : keptName P = true :=
    ((mem_names_read hrs P).1 ((hsum P).1.1 ((Dict.mem_keys _ _).2 ⟨m, hm⟩))).1
  obtain ⟨hl, hb, hc⟩ := (hsum P).2 m hm
  obtain ⟨l0, b0⟩ := hnn P m hm
  refine ⟨?_, ?_, fun c => (hc c).trans (classes_read hP hrs c)⟩
  · rw [← max_eq_right l0, hl,
      rates_read (·.line) _ (fun _ _ hp => (readPackage_some hp).2.1) hP _ hrs]; rfl
  · rw [← max_eq_right b0, hb,
      rates_read (·.branch) _ (fun _ _ hp => (readPackage_some hp).2.2.1) hP _ hrs]; rfl

theorem sameView_of_perm {float : Str → Option ℚ} {docs docs' : List Element}
    (hperm : (packagesOf docs').Perm (packagesOf docs)) {agg agg' : Dict Str Metrics}
    (h : BestOfRuns float docs agg) (h' : BestOfRuns float docs' agg') : SameView agg agg' := by
  have hmem : ∀ e, e ∈ packagesOf docs' ↔ e ∈ packagesOf docs := fun e => hperm.mem_iff
  refine ⟨fun P => by rw [h.1, h'.1]; simp only [hmem], fun P m m' hm hm' => ?_⟩
  obtain ⟨l, b, c⟩ := h.2 P m hm
  obtain ⟨l', b', c'⟩ := h'.2 P m' hm'
  have hr : ∀ key, (ratesNamed float docs' key P).Perm (ratesNamed float docs key P) :=
    fun key => hperm.filterMap _
  refine ⟨by rw [l, l', peak_perm (hr _)], by rw [b, b', peak_perm (hr _)], fun k => ?_⟩
  rw [c, c']
  simp only [ListedClass, hmem]

theorem readAll_perm {float : Str → Option ℚ} {docs docs' : List Element}
    (hperm : (packagesOf docs').Perm (packagesOf docs)) {ps : List PackageRead}
    (h : readAll float docs = .ok ps) : ∃ ps', readAll float docs' = .ok ps' := by
  obtain ⟨rs, hrs, -⟩ := except_map_ok.1 h
  obtain ⟨rs', hrs'⟩ := mapM_ok_of_forall fun e he =>
    ((mapM_ok_mem hrs).1 e (hperm.mem_iff.1 he)).elim fun r ⟨_, hr⟩ => ⟨r, hr⟩
  exact ⟨_, by rw [readAll, hrs']; rfl⟩

/-- Whenever every package name is present and every rate of a kept package
reads as a rational, the strict `main` aggregates: the kept names of the
package elements; under each, `max(0, ...)` of `100 * line-rate` and of
`100 * branch-rate` over all elements of that name in all reports; and the
union of the listed class names. So the view is the same for every
permutation of the package elements, across and inside reports. -/
theorem aggregate_max_union (float : Str → Option ℚ) (docs : List Element) (ps : List PackageRead)
    (h : readAll float docs = .ok ps) :
    ∃ agg, aggregate float docs = .ok agg ∧ BestOfRuns float docs agg ∧
      ∀ docs', (packagesOf docs').Perm (packagesOf docs) →
        ∃ agg', aggregate float docs' = .ok agg' ∧ BestOfRuns float docs' agg' ∧
          SameView agg agg' := by
  obtain ⟨agg, hagg, hbest⟩ := bestOfRuns_of_readAll h
  refine ⟨agg, hagg, hbest, fun docs' hperm => ?_⟩
  obtain ⟨ps', h'⟩ := readAll_perm hperm h
  obtain ⟨agg', hagg', hbest'⟩ := bestOfRuns_of_readAll h'
  exact ⟨agg', hagg', hbest', sameView_of_perm hperm hbest hbest'⟩

/-- A report with one kept package: a class below the 90/90 cut and a
compiler-generated one at 100%. -/
def sampleReport : Element :=
  .mk "coverage".toList [] [.mk "packages".toList [] [
    .mk "package".toList [("name".toList, "Whizbang.Core".toList),
        ("line-rate".toList, "0.5".toList), ("branch-rate".toList, "0.25".toList)] [
      .mk "classes".toList [] [
        .mk "class".toList [("name".toList, "Whizbang.Core.Bus".toList),
          ("line-rate".toList, "0.5".toList), ("branch-rate".toList, "0.25".toList)] [],
        .mk "class".toList [("name".toList, "Whizbang.Core.Bus.<>c".toList),
          ("line-rate".toList, "1".toList), ("branch-rate".toList, "1".toList)] []]]]]

/-- What the strict `parse_coverage` reads from `sampleReport`. -/
def sampleReads : List PackageRead :=
  [⟨"Whizbang.Core".toList, 50, 25, ⟨[("Bus".toList, (50, 25))], by decide⟩⟩]

section
attribute [local semireducible] Rat.mul Rat.inv

theorem aggregate_max_union_sample :
    readAll pyFloat [sampleReport] = .ok sampleReads ∧
    ∃ agg, aggregate pyFloat [sampleReport] = .ok agg ∧ BestOfRuns pyFloat [sampleReport] agg ∧
      ∀ docs', (packagesOf docs').Perm (packagesOf [sampleReport]) →
        ∃ agg', aggregate pyFloat docs' = .ok agg' ∧ BestOfRuns pyFloat docs' agg' ∧
          SameView agg agg' :=
  have h : readAll pyFloat [sampleReport] = .ok sampleReads := by decide
  ⟨h, aggregate_max_union pyFloat [sampleReport] sampleReads h⟩

end

end AnalyzeAllCoverage

end WhizbangScripts.Coverage
