import WhizbangScripts.Coverage.ClassListing

/-!
# The order of the runs

`main` reads the reports in the order `find_latest_coverage_files` lists
them. The rates of a package and the names of its classes do not depend on
that order (`aggregate_max_union`), but the rates of a class do: every store
of a class map is a `dict` assignment, so the last run that records a class
wins, over a better one too.

* `aggregate_class_rates_last`: under every package the aggregate holds, for
  each class, the rates of the last class element of that name recorded;
* `sort_eq_of_perm`: `strLe` is a total order, so two lists of the same
  names sort to one list;
* `main_withoutClassRates_perm`: reordering the package elements changes the
  report at most in the rates printed in its class rows;
* `main_package_lines`: each package line shows the best rates of the
  package over all runs.
-/

namespace WhizbangScripts.Coverage
open Py

/-! ## The class loop -/

/-- What the class loop records from a class element that reads: its short
name and its rates in percent, or nothing when the 90/90 filter drops it. -/
def recordedClass (skipCovered : Bool) (float : Str → Option ℚ) (ce : Element) :
    Option (Str × ℚ × ℚ) :=
  match ce.get "name".toList, readRate float ce "line-rate".toList,
      readRate float ce "branch-rate".toList with
  | some n, .ok l, .ok b =>
    if skipCovered ∧ 90 ≤ l * 100 ∧ 90 ≤ b * 100 then none
    else some (shortName n, l * 100, b * 100)
  | _, _, _ => none

theorem foldlM_classStep_eq (skip : Bool) (float : Str → Option ℚ) (l : List Element) :
    ∀ {D D' : Dict Str (ℚ × ℚ)}, l.foldlM (classStep skip float) D = .ok D' →
      D' = (l.filterMap (recordedClass skip float)).foldl (fun d e => d.insert e.1 e.2) D := by
  induction l with
  | nil => intro D D' h; cases h; rfl
  | cons ce l ih =>
    intro D D' h
    rw [List.foldlM_cons] at h
    cases hs : classStep skip float D ce with
    | error => simp [hs, bind, Except.bind] at h
    | ok D₁ =>
      simp only [hs, bind, Except.bind] at h
      obtain ⟨n, l₁, b, hn, hl, hb, rfl⟩ := classStep_ok hs
      rw [ih h, List.filterMap_cons]
      simp only [recordedClass, hn, hl, hb]
      split <;> rfl

/-- A class map that the class loop builds holds, under each short name, the
rates of the last class element of that name it records. -/
theorem readClasses_get? {skip : Bool} {float : Str → Option ℚ} {pkg : Element}
    {cls : Dict Str (ℚ × ℚ)} (h : readClasses skip float pkg = .ok cls) (c : Str) :
    cls.get? c = lastValue ((pkg.findall "class".toList).filterMap (recordedClass skip float)) c := by
  rw [foldlM_classStep_eq skip float _ h, Dict.get?_foldl_insert_last, Dict.get?_empty, Option.or_none]

namespace AnalyzeAllCoverage

/-! ## The last run wins the class rates -/

/-- The rates of class `c` in the last of the reads named `P` that records it. -/
def lastClassRates (ps : List PackageRead) (P c : Str) : Option (ℚ × ℚ) :=
  (readsNamed ps P).reverse.findSome? (·.classes.get? c)

/-- Under every name, `D` holds for each class the rates that the last read
of that name recording the class gives it. -/
def ClassesLast (D : Dict Str Metrics) (ps : List PackageRead) : Prop :=
  ∀ P m, D.get? P = some m → ∀ c, m.classes.get? c = lastClassRates ps P c

theorem lastClassRates_append (ps qs : List PackageRead) (P c : Str) :
    lastClassRates (ps ++ qs) P c = (lastClassRates qs P c).or (lastClassRates ps P c) := by
  simp [lastClassRates, List.findSome?_append]

theorem lastClassRates_of_not_mem {ps : List PackageRead} {P : Str} (h : P ∉ ps.map (·.name))
    (c : Str) : lastClassRates ps P c = none := by
  rw [lastClassRates, readsNamed_of_not_mem h]; rfl

theorem lastClassRates_single (p : PackageRead) (P c : Str) :
    lastClassRates [p] P c = if p.name = P then p.classes.get? c else none := by
  rw [lastClassRates, readsNamed_single]
  split
  · rw [List.reverse_singleton, List.findSome?_cons]
    split <;> simp_all
  · rfl

theorem classesLast_empty : ClassesLast Dict.empty [] := fun _ _ h => by cases h

theorem storePackage_classesLast {D : Dict Str Metrics} {ps : List PackageRead}
    (hs : Summarizes D ps) (h : ClassesLast D ps) (p : PackageRead) :
    ClassesLast (storePackage D p) (ps ++ [p]) := by
  intro P m hm c
  rw [lastClassRates_append, lastClassRates_single]
  by_cases hP : p.name = P
  · subst hP
    unfold storePackage at hm
    split at hm
    · rename_i hD
      have hn : p.name ∉ ps.map (·.name) := by
        rw [← (hs p.name).1, ← Dict.get?_eq_none]; exact hD
      simp only [Dict.get?_insert, if_true, Option.some.injEq] at hm
      rw [← hm, if_pos rfl, lastClassRates_of_not_mem hn, Option.or_none]; rfl
    · rename_i m₀ hD
      simp only [Dict.get?_insert, if_true, Option.some.injEq] at hm
      rw [← hm, if_pos rfl, ← h _ m₀ hD c]
      exact Dict.get?_update _ _ c
  · have hm' : D.get? P = some m := by
      unfold storePackage at hm; split at hm <;> simpa [hP] using hm
    rw [if_neg hP, Option.none_or]
    exact h P m hm' c

theorem foldl_storePackage_classesLast (qs : List PackageRead) :
    ∀ {D : Dict Str Metrics} {ps : List PackageRead}, Summarizes D ps → ClassesLast D ps →
      ClassesLast (qs.foldl storePackage D) (ps ++ qs) := by
  induction qs with
  | nil => intro D ps _ h; simpa using h
  | cons q qs ih =>
    intro D ps hs h
    simpa using ih (storePackage_summarizes hs q) (storePackage_classesLast hs h q)

theorem foldl_mergeInto_classesLast {A D : Dict Str Metrics} {ps qs : List PackageRead}
    (hA : Summarizes A ps) (hcA : ClassesLast A ps) (hD : Summarizes D qs)
    (hcD : ClassesLast D qs) : ClassesLast (D.entries.foldl mergeInto A) (ps ++ qs) := by
  intro P m hm c
  rw [get?_foldl_mergeInto _ D.nodup] at hm
  rw [lastClassRates_append]
  cases hf : findEntry P D.entries with
  | some md =>
    simp only [hf, Option.some.injEq] at hm
    subst hm
    rw [Metrics.merge, Dict.get?_update, hcD P md hf c]
    congr 1
    cases hAP : A.get? P with
    | some a => exact hcA P a hAP c
    | none =>
      have hn : P ∉ ps.map (·.name) := by rw [← (hA P).1, ← Dict.get?_eq_none]; exact hAP
      rw [lastClassRates_of_not_mem hn]; rfl
  | none =>
    simp only [hf] at hm
    have hn : P ∉ qs.map (·.name) := by rw [← (hD P).1, ← Dict.get?_eq_none]; exact hf
    rw [lastClassRates_of_not_mem hn, Option.none_or]
    exact hcA P m hm c

theorem foldlM_fileStep_classesLast (float : Str → Option ℚ) (docs : List Element) :
    ∀ {rs : List (Option PackageRead)} {A A' : Dict Str Metrics} {ps : List PackageRead},
      (packagesOf docs).mapM (readPackage float) = .ok rs → Summarizes A ps → ClassesLast A ps →
        docs.foldlM (fileStep float) A = .ok A' → ClassesLast A' (ps ++ rs.filterMap id) := by
  induction docs with
  | nil => intro rs A A' ps h _ hc hrun; cases h; cases hrun; simpa using hc
  | cons d rest ih =>
    intro rs A A' ps h hs hc hrun
    rw [packagesOf, List.flatMap_cons] at h
    obtain ⟨rs₁, rs₂, h₁, h₂, rfl⟩ := mapM_append_ok h
    have hparse : parseCoverage float d = .ok ((rs₁.filterMap id).foldl storePackage Dict.empty) :=
      foldlM_packageStep float _ Dict.empty h₁
    have hD := foldl_storePackage_summarizes (rs₁.filterMap id) summarizes_empty
    have hcD := foldl_storePackage_classesLast (rs₁.filterMap id) summarizes_empty classesLast_empty
    rw [List.nil_append] at hD hcD
    simp only [List.foldlM_cons, fileStep, hparse, bind, Except.bind, pure, Except.pure] at hrun
    simpa [List.filterMap_append, List.append_assoc] using
      ih h₂ (foldl_mergeInto_summarizes hs hD) (foldl_mergeInto_classesLast hs hc hD hcD) hrun

/-- The classes that the class loop records under the package elements named
`P`, in the order read. -/
def listedClasses (float : Str → Option ℚ) (pkgs : List Element) (P : Str) : List (Str × ℚ × ℚ) :=
  pkgs.flatMap fun e => if e.get "name".toList = some P then
    (e.findall "class".toList).filterMap (recordedClass true float) else []

theorem lastClassRates_read {float : Str → Option ℚ} {P : Str} (hP : keptName P = true)
    {l : List Element} {rs : List (Option PackageRead)}
    (h : l.mapM (readPackage float) = .ok rs) (c : Str) :
    lastClassRates (rs.filterMap id) P c = lastValue (listedClasses float l P) c := by
  induction l generalizing rs with
  | nil => cases h; rfl
  | cons e l ih =>
    obtain ⟨r, rs', he, hl, rfl⟩ := mapM_cons_ok.1 h
    rw [listedClasses, List.flatMap_cons, ← listedClasses, lastValue_append, ← ih hl]
    obtain ⟨n, hn, hkept, hsome⟩ := readPackage_ok he
    cases r with
    | none =>
      have hnP : n ≠ P := fun hnP => by
        subst hnP; obtain ⟨p, hp, -⟩ := hkept ((keptName_iff _).1 hP); cases hp
      rw [hn, if_neg (mt Option.some.inj hnP)]
      exact Option.or_none.symm
    | some p =>
      obtain ⟨rfl, -, -⟩ := hsome p rfl
      rw [show (some p :: rs').filterMap id = [p] ++ rs'.filterMap id from rfl, lastClassRates_append,
        lastClassRates_single, hn]
      by_cases hpP : p.name = P
      · rw [if_pos hpP, if_pos (congrArg some hpP), readClasses_get? (readPackage_some he).2.2.2]
      · rw [if_neg hpP, if_neg (mt Option.some.inj hpP)]; rfl

/-- Under every package, the strict aggregate holds for each class the rates
of the last class element of that short name that the class loop records
under a package element of that name, reports and elements in the order
read: a later run overwrites the rates of an earlier one, a better one
included. -/
theorem aggregate_class_rates_last {float : Str → Option ℚ} {docs : List Element}
    {ps : List PackageRead} (h : readAll float docs = .ok ps) :
    ∃ agg, aggregate float docs = .ok agg ∧ ∀ P m, agg.get? P = some m →
      ∀ c, m.classes.get? c = lastValue (listedClasses float (packagesOf docs) P) c := by
  obtain ⟨agg, hagg, hsum, -⟩ := aggregate_summarizes h
  obtain ⟨rs, hrs, rfl⟩ := except_map_ok.1 h
  refine ⟨agg, hagg, fun P m hm c => ?_⟩
  have hP : keptName P = true :=
    ((mem_names_read hrs P).1 ((hsum P).1.1 ((Dict.mem_keys _ _).2 ⟨m, hm⟩))).1
  rw [foldlM_fileStep_classesLast float docs hrs summarizes_empty classesLast_empty hagg P m hm c,
    List.nil_append, lastClassRates_read hP hrs]


/-- A report of one run of `Whizbang.Core` at `rate`, with its class `Bus` at
`rate` too. -/
def coreRun (rate : Str) : Element :=
  .mk "coverage".toList [] [.mk "package".toList [("name".toList, "Whizbang.Core".toList),
      ("line-rate".toList, rate), ("branch-rate".toList, rate)]
    [.mk "class".toList [("name".toList, "Whizbang.Core.Bus".toList),
      ("line-rate".toList, rate), ("branch-rate".toList, rate)] []]]

/-- A run at 80%, then a run at 50%. -/
def betterRunFirst : List Element := [coreRun "0.8".toList, coreRun "0.5".toList]

section
attribute [local semireducible] Rat.mul Rat.inv

/-- The two runs read: `Whizbang.Core` at 80%, then at 50%, its class `Bus`
with it. -/
theorem readAll_betterRunFirst :
    readAll pyFloat betterRunFirst = .ok
      [⟨"Whizbang.Core".toList, 80, 80, ⟨[("Bus".toList, (80, 80))], by decide⟩⟩,
       ⟨"Whizbang.Core".toList, 50, 50, ⟨[("Bus".toList, (50, 50))], by decide⟩⟩] := by
  decide

/-- After a run at 80% and one at 50%, `Whizbang.Core` is at 80% and its
class `Bus` at 50%. -/
theorem aggregate_class_rates_last_better_run_first :
    readAll pyFloat betterRunFirst = .ok
      [⟨"Whizbang.Core".toList, 80, 80, ⟨[("Bus".toList, (80, 80))], by decide⟩⟩,
       ⟨"Whizbang.Core".toList, 50, 50, ⟨[("Bus".toList, (50, 50))], by decide⟩⟩] ∧
    lastValue (listedClasses pyFloat (packagesOf betterRunFirst) "Whizbang.Core".toList)
      "Bus".toList = some (50, 50) ∧
    ∃ agg, aggregate pyFloat betterRunFirst = .ok agg ∧ ∀ P m, agg.get? P = some m →
      ∀ c, m.classes.get? c = lastValue (listedClasses pyFloat (packagesOf betterRunFirst) P) c :=
  ⟨readAll_betterRunFirst, by decide, aggregate_class_rates_last readAll_betterRunFirst⟩

end

/-! ## The order of names -/

theorem char_lt_trichotomy (c d : Char) : c < d ∨ c = d ∨ d < c := by
  rcases Nat.lt_trichotomy c.val.toNat d.val.toNat with h | h | h
  · exact Or.inl h
  · exact Or.inr (Or.inl (Char.ext (UInt32.toNat.inj h)))
  · exact Or.inr (Or.inr h)

theorem strLe_cons (c d : Char) (cs ds : Str) :
    strLe (c :: cs) (d :: ds) = true ↔ c < d ∨ c = d ∧ strLe cs ds = true := by
  simp [strLe]

theorem strLe_total (a b : Str) : strLe a b = true ∨ strLe b a = true := by
  induction a generalizing b with
  | nil => exact Or.inl rfl
  | cons c cs ih =>
    cases b with
    | nil => exact Or.inr rfl
    | cons d ds =>
      simp only [strLe_cons]
      rcases char_lt_trichotomy c d with h | rfl | h
      · exact Or.inl (Or.inl h)
      · exact (ih ds).imp (Or.inr ⟨rfl, ·⟩) (Or.inr ⟨rfl, ·⟩)
      · exact Or.inr (Or.inl h)

theorem strLe_trans {a b c : Str} (h₁ : strLe a b = true) (h₂ : strLe b c = true) :
    strLe a c = true := by
  induction a generalizing b c with
  | nil => rfl
  | cons x xs ih =>
    cases b with
    | nil => cases h₁
    | cons y ys =>
      cases c with
      | nil => cases h₂
      | cons z zs =>
        rw [strLe_cons] at h₁ h₂ ⊢
        rcases h₁ with h₁ | ⟨rfl, h₁⟩ <;> rcases h₂ with h₂ | ⟨rfl, h₂⟩
        · exact Or.inl (Char.lt_trans h₁ h₂)
        · exact Or.inl h₁
        · exact Or.inl h₂
        · exact Or.inr ⟨rfl, ih h₁ h₂⟩

theorem strLe_antisymm {a b : Str} (h₁ : strLe a b = true) (h₂ : strLe b a = true) : a = b := by
  induction a generalizing b with
  | nil =>
    cases b with
    | nil => rfl
    | cons => cases h₂
  | cons x xs ih =>
    cases b with
    | nil => cases h₁
    | cons y ys =>
      rw [strLe_cons] at h₁ h₂
      rcases h₁ with h₁ | ⟨rfl, h₁⟩
      · rcases h₂ with h₂ | ⟨rfl, -⟩
        · exact absurd h₂ (Char.lt_asymm h₁)
        · exact absurd rfl (Char.ne_of_lt h₁)
      · rcases h₂ with h₂ | ⟨-, h₂⟩
        · exact absurd rfl (Char.ne_of_lt h₂)
        · rw [ih h₁ h₂]

instance strLe_isTotal : IsTotal Str (fun a b => strLe a b = true) := ⟨strLe_total⟩

instance strLe_isTrans : IsTrans Str (fun a b => strLe a b = true) := ⟨fun _ _ _ => strLe_trans⟩

instance strLe_isAntisymm : IsAntisymm Str (fun a b => strLe a b = true) :=
  ⟨fun _ _ => strLe_antisymm⟩

instance strLe_fst_isTotal : IsTotal (Str × ℚ × ℚ) (fun a b => strLe a.1 b.1 = true) :=
  ⟨fun a b => strLe_total a.1 b.1⟩

instance strLe_fst_isTrans : IsTrans (Str × ℚ × ℚ) (fun a b => strLe a.1 b.1 = true) :=
  ⟨fun _ _ _ => strLe_trans⟩

/-- `sorted()` of two lists with the same names is one list. -/
theorem sort_eq_of_perm {l l' : List Str} (h : l.Perm l') :
    l.insertionSort (fun a b => strLe a b = true) = l'.insertionSort (fun a b => strLe a b = true) :=
  List.eq_of_perm_of_sorted
    ((List.perm_insertionSort _ l).trans (h.trans (List.perm_insertionSort _ l').symm))
    (List.sorted_insertionSort _ l) (List.sorted_insertionSort _ l')

/-- The names of `sorted(classes.items())` are `sorted(classes)`. -/
theorem sortedClasses_names (classes : Dict Str (ℚ × ℚ)) :
    (sortedClasses classes).map Prod.fst = classes.keys.insertionSort (fun a b => strLe a b = true) :=
  List.eq_of_perm_of_sorted
    (((sortedClasses_perm classes).map Prod.fst).trans (List.perm_insertionSort _ _).symm)
    (@List.Pairwise.map _ _ _ _ (fun a b : Str => strLe a b = true) Prod.fst (fun _ _ => id)
      (List.sorted_insertionSort _ _)) (List.sorted_insertionSort _ _)

/-! ## What the report says apart from the class rates -/

/-- A report line with the rates of a class row dropped. -/
def withoutClassRates : ReportLine → ReportLine
  | .classRow n _ _ => .classRow n 0 0
  | l => l

/-- The lines of a package block, given its rates and the sorted names of its
classes, with the class rates dropped. -/
def packageShape (name : Str) (line branch : ℚ) (classNames : List Str) : List ReportLine :=
  .package name line branch (status line branch) ::
    if classNames = [] then []
    else .classesHeader :: (classNames.take 10).map (fun c => .classRow c 0 0) ++
      (if classNames.length > 10 then [.more (classNames.length - 10)] else []) ++ [.blank]

/-- Below the cut, a package block without its class rates depends only on
the package's rates and the names of its classes. -/
theorem packageLines_withoutClassRates (name : Str) {m : Metrics} (hm : BelowCut m.classes) :
    (packageLines name m).map withoutClassRates = packageShape name m.line m.branch
      (m.classes.keys.insertionSort (fun a b => strLe a b = true)) := by
  rw [← sortedClasses_names]
  have hnil : (sortedClasses m.classes).map Prod.fst = [] ↔ m.classes.entries = [] := by
    rw [List.map_eq_nil_iff]
    exact ⟨fun h => ((sortedClasses_perm _).symm.trans (h ▸ List.Perm.refl _)).eq_nil,
      fun h => (h ▸ sortedClasses_perm m.classes).eq_nil⟩
  have hrows : ((sortedClasses m.classes).take 10).filterMap (fun e =>
      if e.2.1 < 100 ∨ e.2.2 < 100 then some (ReportLine.classRow e.1 e.2.1 e.2.2) else none) =
      ((sortedClasses m.classes).take 10).map (fun e => .classRow e.1 e.2.1 e.2.2) := by
    rw [← List.filterMap_eq_map]
    exact List.filterMap_congr fun e he =>
      if_pos (needsCoverage_of_belowCut hm (List.mem_of_mem_take he))
  unfold packageLines packageShape
  simp only [hnil, List.length_map, length_sortedClasses]
  split
  · rfl
  · simp only [List.map_cons, List.map_append, List.map_take, List.map_map]
    erw [hrows]
    have hrow : withoutClassRates ∘ (fun e : Str × ℚ × ℚ => ReportLine.classRow e.1 e.2.1 e.2.2) =
        (fun c => ReportLine.classRow c 0 0) ∘ Prod.fst := rfl
    simp only [List.map_map, hrow, List.map_take]
    split <;> rfl

/-- A name of one of two aggregates with the same view has, in both, the
same status and the same block of lines apart from the class rates. -/
theorem block_withoutClassRates {a b : Dict Str Metrics} (ha : ClassesBelowCut a)
    (hb : ClassesBelowCut b) (h : SameView a b) {n : Str} (hn : n ∈ a.keys) :
    ∃ m m', a.get? n = some m ∧ b.get? n = some m' ∧
      status m.line m.branch = status m'.line m'.branch ∧
      (packageLines n m).map withoutClassRates = (packageLines n m').map withoutClassRates := by
  obtain ⟨m, hm⟩ := (Dict.mem_keys _ _).1 hn
  obtain ⟨m', hm'⟩ := (Dict.mem_keys _ _).1 ((h.1 n).1 hn)
  obtain ⟨hl, hbr, hc⟩ := h.2 n m m' hm hm'
  have hclasses : m.classes.keys.Perm m'.classes.keys :=
    (List.perm_ext_iff_of_nodup m.classes.nodup m'.classes.nodup).2 hc
  refine ⟨m, m', hm, hm', by rw [hl, hbr], ?_⟩
  rw [packageLines_withoutClassRates n (ha n m hm), packageLines_withoutClassRates n (hb n m' hm'),
    hl, hbr, sort_eq_of_perm hclasses]

/-- Two aggregates with the same view, below the cut, give the same report
apart from the class rates. -/
theorem report_withoutClassRates {a b : Dict Str Metrics} (ha : ClassesBelowCut a)
    (hb : ClassesBelowCut b) (h : SameView a b) :
    (report a).map withoutClassRates = (report b).map withoutClassRates := by
  have hkeys : a.keys.Perm b.keys := (List.perm_ext_iff_of_nodup a.nodup b.nodup).2 h.1
  have hsize : a.size = b.size := by simpa [Dict.size, Dict.keys] using hkeys.length_eq
  have hmem : ∀ n ∈ b.keys.insertionSort (fun a b => strLe a b = true), n ∈ a.keys := fun n hn =>
    (h.1 n).2 ((List.mem_insertionSort _).1 hn)
  dsimp only [report]
  rw [sort_eq_of_perm hkeys, hsize]
  simp only [List.map_cons, List.map_append, List.map_flatMap]
  congr 2
  · refine List.flatMap_congr fun n hn => ?_
    obtain ⟨m, m', hm, hm', -, hlines⟩ := block_withoutClassRates ha hb h (hmem n hn)
    simp only [hm, hm', hlines]
  · refine congrArg (fun k => withoutClassRates (.total b.size) :: withoutClassRates (.fullyCovered k) ::
      withoutClassRates (.needingWork (b.size - k)) :: List.map withoutClassRates [])
      (congrArg List.length (List.filter_congr fun n hn => ?_))
    obtain ⟨m, m', hm, hm', hst, -⟩ := block_withoutClassRates ha hb h (hmem n hn)
    simp only [hm, hm', hst]

/-- **The report does not depend on the order of the runs, apart from the
class rates.** Whenever every report reads, the same package elements listed
in any other order, across the reports and inside them, in as many reports,
give the same report except for the rates printed in class rows; neither run
raises. -/
theorem main_withoutClassRates_perm {float : Str → Option ℚ} {docs docs' : List Element}
    {ps : List PackageRead} (h : readAll float docs = .ok ps) (hlen : docs'.length = docs.length)
    (hperm : (packagesOf docs').Perm (packagesOf docs)) :
    (main float docs).2 = none ∧ (main float docs').2 = none ∧
      (main float docs').1.map withoutClassRates = (main float docs).1.map withoutClassRates := by
  obtain ⟨agg, hagg, hbest⟩ := bestOfRuns_of_readAll h
  obtain ⟨ps', h'⟩ := readAll_perm hperm h
  obtain ⟨agg', hagg', hbest'⟩ := bestOfRuns_of_readAll h'
  have hempty : docs'.isEmpty = docs.isEmpty := by
    rw [Bool.eq_iff_iff, List.isEmpty_iff_length_eq_zero, List.isEmpty_iff_length_eq_zero, hlen]
  unfold main
  rw [hempty, hagg, hagg']
  split
  · exact ⟨rfl, rfl, rfl⟩
  · refine ⟨rfl, rfl, ?_⟩
    rw [List.map_cons, List.map_cons, hlen, (report_withoutClassRates (aggregate_belowCut hagg)
      (aggregate_belowCut hagg') (sameView_of_perm hperm hbest hbest')).symm]

section
attribute [local semireducible] Rat.mul Rat.inv

/-- The two runs in the other order: the reports differ, only in the rates
of the row of `Bus`. -/
theorem main_withoutClassRates_reversed :
    readAll pyFloat betterRunFirst = .ok
      [⟨"Whizbang.Core".toList, 80, 80, ⟨[("Bus".toList, (80, 80))], by decide⟩⟩,
       ⟨"Whizbang.Core".toList, 50, 50, ⟨[("Bus".toList, (50, 50))], by decide⟩⟩] ∧
    (main pyFloat betterRunFirst.reverse).1 ≠ (main pyFloat betterRunFirst).1 ∧
    (main pyFloat betterRunFirst).2 = none ∧ (main pyFloat betterRunFirst.reverse).2 = none ∧
      (main pyFloat betterRunFirst.reverse).1.map withoutClassRates =
        (main pyFloat betterRunFirst).1.map withoutClassRates :=
  have hperm : (packagesOf betterRunFirst.reverse).Perm (packagesOf betterRunFirst) :=
    List.reverse_perm (packagesOf betterRunFirst)
  ⟨readAll_betterRunFirst, by decide, main_withoutClassRates_perm readAll_betterRunFirst rfl hperm⟩

end

/-! ## The package lines -/

/-- The package a report line names, when it is a package line. -/
def ReportLine.packageName? : ReportLine → Option Str
  | .package n _ _ _ => some n
  | _ => none

/-- A package block is its package line, then lines that name no package. -/
theorem packageLines_cons (n : Str) (m : Metrics) :
    ∃ rest, packageLines n m = .package n m.line m.branch (status m.line m.branch) :: rest ∧
      ∀ l ∈ rest, l.packageName? = none := by
  refine ⟨_, rfl, fun l hl => ?_⟩
  split at hl
  · cases hl
  · simp only [List.mem_cons, List.mem_append, List.mem_filterMap, List.mem_singleton,
      List.not_mem_nil, or_false] at hl
    rcases hl with ((rfl | ⟨e, -, he⟩) | h) | rfl
    · rfl
    · split at he <;> cases he; rfl
    · split at h
      · rw [List.mem_singleton] at h; subst h; rfl
      · cases h
    · rfl

/-- The package lines of a report are the first lines of the blocks of the
aggregate's packages. -/
theorem package_mem_report {all : Dict Str Metrics} {P : Str} {line branch : ℚ} {st : Status} :
    .package P line branch st ∈ report all ↔
      ∃ m, all.get? P = some m ∧ line = m.line ∧ branch = m.branch ∧ st = status m.line m.branch := by
  dsimp only [report]
  simp only [List.mem_append, List.mem_cons, List.mem_flatMap, List.mem_insertionSort,
    reduceCtorEq, false_or, List.not_mem_nil, or_false]
  constructor
  · rintro ⟨n, hn, hl⟩
    obtain ⟨m, hm⟩ := (Dict.mem_keys _ _).1 hn
    rw [hm] at hl; dsimp only at hl
    obtain ⟨rest, h, hrest⟩ := packageLines_cons n m
    rw [h, List.mem_cons] at hl
    rcases hl with hl | hl
    · cases hl; exact ⟨m, hm, rfl, rfl, rfl⟩
    · exact absurd (hrest _ hl) (by simp [ReportLine.packageName?])
  · rintro ⟨m, hm, rfl, rfl, rfl⟩
    refine ⟨P, (Dict.mem_keys _ _).2 ⟨m, hm⟩, ?_⟩
    rw [hm]; dsimp only
    obtain ⟨rest, h, -⟩ := packageLines_cons P m
    rw [h]
    exact List.mem_cons_self _ _

/-- **Each kept package is printed with its best rates.** Whenever the reports
read, `main` prints a package line for `P` exactly when `P` is the kept name of
some package element, and that line shows `max(0, ...)` of the best
`100 * line-rate` and of the best `100 * branch-rate` over all the package
elements named `P`, with the status of these two rates. -/
theorem main_package_lines {float : Str → Option ℚ} {docs : List Element} {ps : List PackageRead}
    (h : readAll float docs = .ok ps) (hne : docs ≠ []) (P : Str) (line branch : ℚ) (st : Status) :
    .package P line branch st ∈ (main float docs).1 ↔
      (keptName P = true ∧ ∃ e ∈ packagesOf docs, e.get "name".toList = some P) ∧
      line = peak (ratesNamed float docs "line-rate".toList P) ∧
      branch = peak (ratesNamed float docs "branch-rate".toList P) ∧ st = status line branch := by
  obtain ⟨agg, hagg, hkeys, hrates⟩ := bestOfRuns_of_readAll h
  have hempty : docs.isEmpty = false := by cases docs <;> simp_all
  rw [main, hempty, if_neg Bool.false_ne_true, hagg, List.mem_cons, package_mem_report]
  simp only [reduceCtorEq, false_or]
  constructor
  · rintro ⟨m, hm, rfl, rfl, rfl⟩
    obtain ⟨hl, hb, -⟩ := hrates P m hm
    exact ⟨(hkeys P).1 ((Dict.mem_keys _ _).2 ⟨m, hm⟩), hl, hb, rfl⟩
  · rintro ⟨hP, rfl, rfl, rfl⟩
    obtain ⟨m, hm⟩ := (Dict.mem_keys _ _).1 ((hkeys P).2 hP)
    obtain ⟨hl, hb, -⟩ := hrates P m hm
    exact ⟨m, hm, hl.symm, hb.symm, by rw [hl, hb]⟩

section
attribute [local semireducible] Rat.mul Rat.inv

/-- After a run at 80% and one at 50%, `Whizbang.Core` is printed at 80%. -/
theorem main_package_lines_better_run_first :
    readAll pyFloat betterRunFirst = .ok
      [⟨"Whizbang.Core".toList, 80, 80, ⟨[("Bus".toList, (80, 80))], by decide⟩⟩,
       ⟨"Whizbang.Core".toList, 50, 50, ⟨[("Bus".toList, (50, 50))], by decide⟩⟩] ∧
    betterRunFirst ≠ [] ∧
    (.package "Whizbang.Core".toList 80 80 .needsWork ∈ (main pyFloat betterRunFirst).1 ↔
      (keptName "Whizbang.Core".toList = true ∧
        ∃ e ∈ packagesOf betterRunFirst, e.get "name".toList = some "Whizbang.Core".toList) ∧
      80 = peak (ratesNamed pyFloat betterRunFirst "line-rate".toList "Whizbang.Core".toList) ∧
      80 = peak (ratesNamed pyFloat betterRunFirst "branch-rate".toList "Whizbang.Core".toList) ∧
      Status.needsWork = status 80 80) :=
  have hne : betterRunFirst ≠ [] := List.cons_ne_nil _ _
  ⟨readAll_betterRunFirst, hne, main_package_lines readAll_betterRunFirst hne _ _ _ _⟩

end

end AnalyzeAllCoverage

end WhizbangScripts.Coverage
