import WhizbangScripts.Coverage.Report

/-!
# The class listing of analyze_all_coverage.py

Under each package the report prints `sorted(classes.items())[:10]`
filtered for a rate below 100, and then `... and {len(classes) - 10} more
classes`. The ten are taken before the filter and the rest are counted from
the whole map, so the listing is exact only because every class map of the
aggregate holds classes below the 90/90 cut of `parse_coverage` alone.

* `BelowCut`: every class of a map has its line or its branch rate below 90;
  the class loop, `storePackage` and `mergeInto` keep it, and
  `aggregate_belowCut` carries it over every report;
* `classRows_packageLines`: the rows printed under a package are, of its
  first ten classes in name order, those that need coverage;
* `class_listing_exact`: after any run, every package's block of the report
  lists `min(n, 10)` classes and counts the other `n - 10`.
-/

namespace WhizbangScripts.Coverage
open Py

/-! ## The 90/90 cut -/

/-- Every class of the map has its line or its branch rate below 90: the
classes that the `class_line >= 90 and class_branch >= 90` test keeps. -/
def BelowCut (classes : Dict Str (ℚ × ℚ)) : Prop :=
  classes.All fun r => r.1 < 90 ∨ r.2 < 90

theorem classStep_belowCut {float : Str → Option ℚ} {D D' : Dict Str (ℚ × ℚ)} {ce : Element}
    (hD : BelowCut D) (h : classStep true float D ce = .ok D') : BelowCut D' := by
  obtain ⟨n, l, b, -, -, -, rfl⟩ := classStep_ok h
  split
  · exact hD
  · rename_i hc
    simp only [true_and, not_and_or, not_le] at hc
    exact hD.insert _ hc

theorem readPackage_belowCut {skipTests : Bool} {float : Str → Option ℚ} {e : Element}
    {p : PackageRead} (h : readPackage skipTests true float e = .ok (some p)) :
    BelowCut p.classes :=
  foldlM_ok_inv BelowCut (fun _ _ _ => classStep_belowCut) _ (Dict.all_empty _)
    (readPackage_some h).2.2.2

namespace AnalyzeAllCoverage

/-- Every package of `all` has a class map below the cut. -/
def ClassesBelowCut (all : Dict Str Metrics) : Prop :=
  all.All fun m => BelowCut m.classes

theorem merge_belowCut {a b : Metrics} (ha : BelowCut a.classes) (hb : BelowCut b.classes) :
    BelowCut (a.merge b).classes :=
  Dict.All.update ha hb

theorem storePackage_belowCut {D : Dict Str Metrics} {p : PackageRead} (hD : ClassesBelowCut D)
    (hp : BelowCut p.classes) : ClassesBelowCut (storePackage D p) := by
  unfold storePackage
  split
  · exact hD.insert _ hp
  · rename_i m hm
    exact hD.insert _ (merge_belowCut (hD _ m hm) hp)

theorem packageStep_belowCut {float : Str → Option ℚ} {D D' : Dict Str Metrics} {e : Element}
    (hD : ClassesBelowCut D) (h : packageStep float D e = .ok D') : ClassesBelowCut D' := by
  unfold packageStep at h
  cases hr : readPackage float e with
  | error => rw [hr] at h; cases h
  | ok r =>
    rw [hr] at h
    cases r with
    | none => cases h; exact hD
    | some p => cases h; exact storePackage_belowCut hD (readPackage_belowCut hr)

theorem parseCoverage_belowCut {float : Str → Option ℚ} {root : Element} {D : Dict Str Metrics}
    (h : parseCoverage float root = .ok D) : ClassesBelowCut D :=
  foldlM_ok_inv ClassesBelowCut (fun _ _ _ => packageStep_belowCut) _ (Dict.all_empty _) h

theorem foldl_mergeInto_belowCut (l : List (Str × Metrics)) (hl : ∀ e ∈ l, BelowCut e.2.classes) :
    ∀ {A : Dict Str Metrics}, ClassesBelowCut A → ClassesBelowCut (l.foldl mergeInto A) := by
  induction l with
  | nil => exact id
  | cons e rest ih =>
    intro A hA
    refine ih (fun e' he' => hl e' (.tail _ he')) (hA.insert _ (merge_belowCut ?_ (hl e (.head _))))
    cases h : A.get? e.1 with
    | none => exact Dict.all_empty _
    | some m => exact hA _ m h

theorem fileStep_belowCut {float : Str → Option ℚ} {A A' : Dict Str Metrics} {doc : Element}
    (hA : ClassesBelowCut A) (h : fileStep float A doc = .ok A') : ClassesBelowCut A' := by
  unfold fileStep at h
  cases hp : parseCoverage float doc with
  | error => rw [hp] at h; cases h
  | ok D =>
    rw [hp] at h
    cases h
    exact foldl_mergeInto_belowCut _ (fun e he => (parseCoverage_belowCut hp).of_mem he) hA

/-- Every class map of the strict aggregate is below the 90/90 cut. -/
theorem aggregate_belowCut {float : Str → Option ℚ} {docs : List Element} {all : Dict Str Metrics}
    (h : aggregate float docs = .ok all) : ClassesBelowCut all :=
  foldlM_ok_inv ClassesBelowCut (fun _ _ _ => fileStep_belowCut) _ (Dict.all_empty _) h

/-! ## The listing of one package -/

/-- The classes of a map in the order of `sorted(classes.items())`. -/
def sortedClasses (classes : Dict Str (ℚ × ℚ)) : List (Str × ℚ × ℚ) :=
  classes.entries.insertionSort fun a b => strLe a.1 b.1 = true

/-- The class rows among printed lines, as `(name, (line, branch))`. -/
def classRows (lines : List ReportLine) : List (Str × ℚ × ℚ) :=
  lines.filterMap fun
    | .classRow n l b => some (n, l, b)
    | _ => none

/-- A class needs coverage: one of its rates is below 100. -/
def NeedsCoverage (e : Str × ℚ × ℚ) : Prop := e.2.1 < 100 ∨ e.2.2 < 100

instance : DecidablePred NeedsCoverage := fun _ => inferInstanceAs (Decidable (_ ∨ _))

theorem sortedClasses_perm (classes : Dict Str (ℚ × ℚ)) : (sortedClasses classes).Perm classes.entries :=
  List.perm_insertionSort _ _

theorem length_sortedClasses (classes : Dict Str (ℚ × ℚ)) :
    (sortedClasses classes).length = classes.size :=
  (sortedClasses_perm classes).length_eq

theorem nodup_sortedClasses (classes : Dict Str (ℚ × ℚ)) :
    ((sortedClasses classes).map Prod.fst).Nodup :=
  ((sortedClasses_perm classes).map _).nodup_iff.2 classes.nodup

/-- Below the cut, every class needs coverage. -/
theorem needsCoverage_of_belowCut {classes : Dict Str (ℚ × ℚ)} (h : BelowCut classes)
    {e : Str × ℚ × ℚ} (he : e ∈ sortedClasses classes) : NeedsCoverage e :=
  have hcut : (90 : ℚ) < 100 := by norm_cast
  (h.of_mem ((sortedClasses_perm classes).subset he)).imp (·.trans hcut) (·.trans hcut)

/-- The rows printed under a package: of the first ten classes in name
order, those that need coverage. -/
theorem classRows_packageLines (P : Str) (m : Metrics) :
    classRows (packageLines P m) = ((sortedClasses m.classes).take 10).filter (NeedsCoverage ·) := by
  unfold packageLines
  split
  · rename_i h
    simp [classRows, sortedClasses, h]
  · rw [← List.filterMap_eq_filter]
    have hrow : ∀ e : Str × ℚ × ℚ, ((if e.2.1 < 100 ∨ e.2.2 < 100 then
        some (ReportLine.classRow e.1 e.2.1 e.2.2) else none).bind fun
          | .classRow n l b => some (n, l, b)
          | _ => none) = Option.guard (fun e => decide (NeedsCoverage e) = true) e := fun e => by
      by_cases h : e.2.1 < 100 ∨ e.2.2 < 100 <;> simp [Option.guard, NeedsCoverage, h]
    split <;>
      simp only [classRows, List.filterMap_cons, List.filterMap_append, List.filterMap_filterMap,
        List.filterMap_nil, List.append_nil, hrow] <;> rfl

theorem more_mem_packageLines (P : Str) (m : Metrics) (k : Nat) :
    .more k ∈ packageLines P m ↔ 10 < m.classes.size ∧ k = m.classes.size - 10 := by
  unfold packageLines
  split
  · rename_i h
    simp [Dict.size, h]
  · simp

/-- Below the cut, every class needs coverage: the printed rows are the
first ten classes in name order. -/
theorem classRows_packageLines_of_belowCut {P : Str} {m : Metrics} (hm : BelowCut m.classes) :
    classRows (packageLines P m) = (sortedClasses m.classes).take 10 := by
  rw [classRows_packageLines, List.filter_eq_self]
  exact fun e he => decide_eq_true (needsCoverage_of_belowCut hm (List.mem_of_mem_take he))

/-- In a list with no key twice, the entries whose key is not among the
first `k` are the other `length - k`. -/
theorem length_filter_not_mem_take {α β : Type} [DecidableEq α] {l : List (α × β)}
    (h : (l.map Prod.fst).Nodup) (k : Nat) :
    (l.filter fun e => e.1 ∉ (l.take k).map Prod.fst).length = l.length - k := by
  have hsplit : l.filter (fun e => e.1 ∉ (l.take k).map Prod.fst) =
      (l.take k).filter (fun e => e.1 ∉ (l.take k).map Prod.fst) ++
        (l.drop k).filter (fun e => e.1 ∉ (l.take k).map Prod.fst) := by
    rw [← List.filter_append, List.take_append_drop]
  have htake : (l.take k).filter (fun e => e.1 ∉ (l.take k).map Prod.fst) = [] :=
    List.filter_eq_nil_iff.2 fun e he => by simpa using List.mem_map_of_mem Prod.fst he
  have hdrop : (l.drop k).filter (fun e => e.1 ∉ (l.take k).map Prod.fst) = l.drop k := by
    refine List.filter_eq_self.2 fun e he => ?_
    have hd := List.disjoint_take_drop h (le_refl k)
    rw [← List.map_take, ← List.map_drop] at hd
    simpa using fun ht => hd ht (List.mem_map_of_mem Prod.fst he)
  rw [hsplit, htake, hdrop, List.nil_append, List.length_drop]

/-- Below the cut, the classes needing coverage that are not printed are
all but the first ten. -/
theorem unprinted_of_belowCut {P : Str} {m : Metrics} (hm : BelowCut m.classes) :
    (m.classes.entries.filter fun e =>
        NeedsCoverage e ∧ e.1 ∉ (classRows (packageLines P m)).map Prod.fst).length =
      m.classes.size - 10 := by
  rw [classRows_packageLines_of_belowCut hm, ← length_sortedClasses,
    ← length_filter_not_mem_take (nodup_sortedClasses m.classes)]
  refine ((sortedClasses_perm _).filter _).length_eq.symm.trans (congrArg List.length ?_)
  exact List.filter_congr fun e he =>
    decide_eq_decide.2 (and_iff_right (needsCoverage_of_belowCut hm he))

/-! ## The package blocks of the report -/

/-- Every package of the aggregate has its block of lines in the report. -/
theorem packageLines_infix_report {all : Dict Str Metrics} {P : Str} {m : Metrics}
    (hm : all.get? P = some m) : packageLines P m <:+: report all := by
  have hP : P ∈ all.keys.insertionSort (fun a b => strLe a b = true) :=
    (List.mem_insertionSort _).2 ((Dict.mem_keys _ _).2 ⟨m, hm⟩)
  have hblock : packageLines P m <:+: (all.keys.insertionSort (fun a b => strLe a b = true)).flatMap
      fun n => match all.get? n with
        | some m => packageLines n m
        | none => [] := by
    rw [List.flatMap_def]
    exact List.infix_of_mem_flatten (List.mem_map.2 ⟨P, hP, by rw [hm]⟩)
  dsimp only [report]
  exact (List.infix_cons hblock).trans (List.prefix_append _ _).isInfix

theorem packageLines_infix_main {float : Str → Option ℚ} {docs : List Element}
    {all : Dict Str Metrics} (h : aggregate float docs = .ok all) {P : Str} {m : Metrics}
    (hm : all.get? P = some m) : packageLines P m <:+: (main float docs).1 := by
  cases docs with
  | nil => cases h; cases hm
  | cons d ds =>
    rw [main, if_neg (by simp), h]
    exact List.infix_cons (packageLines_infix_report hm)

/-- **The class listing is exact.** After the strict `main` has read the
reports, every class of every aggregated class map is below the 90/90 cut.
So for every package, of its `n` classes the report prints `min(n, 10)`
rows, each of a class needing coverage, and prints `... and k more
classes` exactly when `n > 10`, with `k = n - 10` the number of its classes
needing coverage that have no row. -/
theorem class_listing_exact {float : Str → Option ℚ} {docs : List Element}
    {all : Dict Str Metrics} (h : aggregate float docs = .ok all) {P : Str} {m : Metrics}
    (hm : all.get? P = some m) :
    (∀ e ∈ m.classes.entries, e.2.1 < 90 ∨ e.2.2 < 90) ∧
    packageLines P m <:+: (main float docs).1 ∧
    (classRows (packageLines P m)).length = min m.classes.size 10 ∧
    (∀ r ∈ classRows (packageLines P m), NeedsCoverage r) ∧
    (∀ k, .more k ∈ packageLines P m ↔ 10 < m.classes.size ∧ k = m.classes.size - 10) ∧
    (m.classes.entries.filter fun e =>
        NeedsCoverage e ∧ e.1 ∉ (classRows (packageLines P m)).map Prod.fst).length =
      m.classes.size - 10 := by
  have hcut : BelowCut m.classes := aggregate_belowCut h P m hm
  refine ⟨fun e he => hcut.of_mem he, packageLines_infix_main h hm, ?_, fun r hr => ?_,
    more_mem_packageLines P m, unprinted_of_belowCut hcut⟩
  · rw [classRows_packageLines_of_belowCut hcut, List.length_take, length_sortedClasses, min_comm]
  · rw [classRows_packageLines] at hr
    exact of_decide_eq_true (List.mem_filter.1 hr).2

/-- The aggregate of `twoRuns` under `Whizbang.Core`: the higher rates and
the class `Bus` of the weaker run. -/
def twoRunsCore : Metrics := ⟨100, 100, ⟨[("Bus".toList, (50, 50))], by decide⟩⟩

section
attribute [local semireducible] Rat.mul Rat.inv

theorem class_listing_exact_two_runs :
    aggregate pyFloat twoRuns = .ok ⟨[("Whizbang.Core".toList, twoRunsCore)], by decide⟩ ∧
    (⟨[("Whizbang.Core".toList, twoRunsCore)], by decide⟩ : Dict Str Metrics).get?
      "Whizbang.Core".toList = some twoRunsCore ∧
    (∀ e ∈ twoRunsCore.classes.entries, e.2.1 < 90 ∨ e.2.2 < 90) ∧
    packageLines "Whizbang.Core".toList twoRunsCore <:+: (main pyFloat twoRuns).1 ∧
    (classRows (packageLines "Whizbang.Core".toList twoRunsCore)).length =
      min twoRunsCore.classes.size 10 ∧
    (∀ r ∈ classRows (packageLines "Whizbang.Core".toList twoRunsCore), NeedsCoverage r) ∧
    (∀ k, .more k ∈ packageLines "Whizbang.Core".toList twoRunsCore ↔
      10 < twoRunsCore.classes.size ∧ k = twoRunsCore.classes.size - 10) ∧
    (twoRunsCore.classes.entries.filter fun e => NeedsCoverage e ∧
        e.1 ∉ (classRows (packageLines "Whizbang.Core".toList twoRunsCore)).map Prod.fst).length =
      twoRunsCore.classes.size - 10 :=
  have h : aggregate pyFloat twoRuns = .ok ⟨[("Whizbang.Core".toList, twoRunsCore)], by decide⟩ := by
    decide
  ⟨h, rfl, class_listing_exact h rfl⟩

end

end AnalyzeAllCoverage

end WhizbangScripts.Coverage
