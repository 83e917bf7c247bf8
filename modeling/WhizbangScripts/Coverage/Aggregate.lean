import WhizbangScripts.Coverage.Cobertura

/-!
# Aggregating coverage over test projects

The strict script (analyze_all_coverage.py) stores a repeated package by
taking the higher rates and the union of the class maps, inside one report
(`storePackage`) and across reports (`mergeInto`, from a `defaultdict` whose
default rates are `0`). The legacy script (analyze_coverage.py) overwrites.

* `readAll`: what `parse_coverage` reads from every package element of the
  reports; it succeeds when names are present and rates read as rationals;
* `Summarizes`: a dictionary holds, per name, the peak rates and the union of
  the class names of a list of package reads; both folds of the strict
  script keep it (`storePackage_summarizes`, `mergeInto_summarizes`);
* `AnalyzeAllCoverage.aggregate_summarizes`: the whole run, by induction over
  the reports.
-/

namespace WhizbangScripts.Coverage
open Py

/-- `max(0, max(xs))`, with `0` for an empty list. -/
def peak (xs : List ℚ) : ℚ := xs.foldr max 0

/-- The reads named `P`, in order. -/
def readsNamed (ps : List PackageRead) (P : Str) : List PackageRead :=
  ps.filter (·.name == P)

/-- `m` holds the peak rates and the union of the class names of the reads
`qs`; a rate below `0` stands for `0`. -/
def Covers (m : Metrics) (qs : List PackageRead) : Prop :=
  max 0 m.line = peak (qs.map (·.line)) ∧ max 0 m.branch = peak (qs.map (·.branch)) ∧
    ∀ c, c ∈ m.classes.keys ↔ ∃ q ∈ qs, c ∈ q.classes.keys

/-- `D` has exactly the names of `ps` as keys, and under each name the
summary of the reads of that name. -/
def Summarizes (D : Dict Str Metrics) (ps : List PackageRead) : Prop :=
  ∀ P, (P ∈ D.keys ↔ P ∈ ps.map (·.name)) ∧ ∀ m, D.get? P = some m → Covers m (readsNamed ps P)

/-- The three updates of a stored package: the higher line rate, the higher
branch rate, and the class map updated with the new classes. -/
def Metrics.merge (a b : Metrics) : Metrics :=
  ⟨max a.line b.line, max a.branch b.branch, a.classes.update b.classes⟩

theorem peak_append (xs ys : List ℚ) : peak (xs ++ ys) = max (peak xs) (peak ys) := by
  induction xs with
  | nil =>
    have : 0 ≤ ys.foldr max 0 := by
      induction ys with
      | nil => exact le_refl _
      | cons y ys ih => exact le_max_of_le_right ih
    simpa [peak] using this
  | cons x xs ih => simp only [List.cons_append, peak, List.foldr_cons] at ih ⊢; rw [ih, max_assoc]

theorem peak_nonneg (xs : List ℚ) : 0 ≤ peak xs := by
  induction xs with
  | nil => exact le_refl _
  | cons x xs ih => exact le_max_of_le_right ih

theorem peak_perm {xs ys : List ℚ} (h : xs.Perm ys) : peak xs = peak ys := by
  induction h with
  | nil => rfl
  | cons x _ ih => simp only [peak, List.foldr_cons] at ih ⊢; rw [ih]
  | swap x y l => simp only [peak, List.foldr_cons]; rw [max_left_comm]
  | trans _ _ ih₁ ih₂ => exact ih₁.trans ih₂

theorem max_zero_max (a b : ℚ) : max 0 (max a b) = max (max 0 a) (max 0 b) := by
  rw [max_max_max_comm, max_self]

theorem covers_nil_iff (m : Metrics) :
    Covers m [] ↔ m.line ≤ 0 ∧ m.branch ≤ 0 ∧ m.classes.keys = [] := by
  simp only [Covers, List.map_nil, peak, List.foldr_nil, max_eq_left_iff, List.not_mem_nil,
    false_and, exists_false, iff_false, List.eq_nil_iff_forall_not_mem]

theorem covers_merge {a b : Metrics} {xs ys : List PackageRead} (ha : Covers a xs)
    (hb : Covers b ys) : Covers (a.merge b) (xs ++ ys) := by
  obtain ⟨la, ba, ca⟩ := ha
  obtain ⟨lb, bb, cb⟩ := hb
  refine ⟨?_, ?_, fun c => ?_⟩
  · rw [Metrics.merge, max_zero_max, la, lb, List.map_append, peak_append]
  · rw [Metrics.merge, max_zero_max, ba, bb, List.map_append, peak_append]
  · simp only [Metrics.merge, Dict.mem_keys_update, ca, cb, List.mem_append]
    constructor
    · rintro (⟨q, hq, hc⟩ | ⟨q, hq, hc⟩)
      exacts [⟨q, .inl hq, hc⟩, ⟨q, .inr hq, hc⟩]
    · rintro ⟨q, hq | hq, hc⟩
      exacts [.inl ⟨q, hq, hc⟩, .inr ⟨q, hq, hc⟩]

theorem covers_metrics (p : PackageRead) : Covers p.metrics [p] := by
  refine ⟨?_, ?_, fun c => ?_⟩ <;> simp [PackageRead.metrics, peak, max_comm]

@[simp] theorem readsNamed_append (ps qs : List PackageRead) (P : Str) :
    readsNamed (ps ++ qs) P = readsNamed ps P ++ readsNamed qs P := by
  simp [readsNamed]

theorem readsNamed_of_not_mem {ps : List PackageRead} {P : Str} (h : P ∉ ps.map (·.name)) :
    readsNamed ps P = [] := by
  simp only [readsNamed, List.filter_eq_nil_iff, beq_iff_eq]
  exact fun p hp he => h (he ▸ List.mem_map_of_mem _ hp)

theorem readsNamed_single (p : PackageRead) (P : Str) :
    readsNamed [p] P = if p.name = P then [p] else [] := by
  by_cases h : p.name = P <;> simp [readsNamed, h]

theorem summarizes_empty : Summarizes Dict.empty [] := by
  intro P; simp

/-! ## Loops in `Except` -/

section
variable {α β ε : Type}

theorem except_map_ok {f : α → β} {x : Except ε α} {b : β} :
    f <$> x = .ok b ↔ ∃ a, x = .ok a ∧ f a = b := by
  cases x <;> simp [Functor.map, Except.map]

theorem mapM_cons_ok {f : α → Except ε β} {x : α} {l : List α} {rs : List β} :
    (x :: l).mapM f = .ok rs ↔ ∃ r rs', f x = .ok r ∧ l.mapM f = .ok rs' ∧ rs = r :: rs' := by
  rw [List.mapM_cons]
  cases hx : f x <;> cases hl : l.mapM f <;>
    simp [hx, hl, bind, Except.bind, pure, Except.pure, eq_comm]

theorem mapM_append_ok {f : α → Except ε β} {l₁ l₂ : List α} {rs : List β} :
    (l₁ ++ l₂).mapM f = .ok rs →
      ∃ rs₁ rs₂, l₁.mapM f = .ok rs₁ ∧ l₂.mapM f = .ok rs₂ ∧ rs = rs₁ ++ rs₂ := by
  induction l₁ generalizing rs with
  | nil => intro h; exact ⟨[], rs, rfl, h, rfl⟩
  | cons x l₁ ih =>
    intro h
    obtain ⟨r, rs', hx, hrest, rfl⟩ := mapM_cons_ok.1 h
    obtain ⟨rs₁, rs₂, h₁, h₂, rfl⟩ := ih hrest
    exact ⟨r :: rs₁, rs₂, mapM_cons_ok.2 ⟨r, rs₁, hx, h₁, rfl⟩, h₂, rfl⟩


/-- Reading the elements of all documents raises the first exception of
reading them document by document. -/
theorem mapM_flatMap_error {γ δ : Type} {g : δ → List α} {read : α → Except ε γ} {e : ε} :
    ∀ (docs : List δ), (docs.flatMap g).mapM read = .error e →
      docs.mapM (fun d => (g d).mapM read) = .error e
  | [], h => by cases h
  | d :: docs, h => by
    rw [List.flatMap_cons, List.mapM_append] at h
    rw [List.mapM_cons]
    cases hd : (g d).mapM read with
    | error e' => rw [hd] at h; cases h; rfl
    | ok rs =>
      rw [hd] at h
      cases hr : (docs.flatMap g).mapM read with
      | ok => rw [hr] at h; cases h
      | error e' =>
        rw [hr] at h; cases h
        rw [mapM_flatMap_error docs hr]; rfl

theorem except_map_error {f : α → β} {x : Except ε α} {e : ε} :
    f <$> x = .error e ↔ x = .error e := by
  cases x <;> simp [Functor.map, Except.map]

/-- A loop whose body may raise keeps every invariant the body keeps. -/
theorem foldlM_ok_inv (I : β → Prop) {f : β → α → Except ε β}
    (hf : ∀ b a b', I b → f b a = .ok b' → I b') :
    ∀ (l : List α) {b b' : β}, I b → l.foldlM f b = .ok b' → I b'
  | [], _, _, hb, h => by cases h; exact hb
  | a :: l, b, _, hb, h => by
    rw [List.foldlM_cons] at h
    cases hs : f b a with
    | error => rw [hs] at h; cases h
    | ok b₁ => rw [hs] at h; exact foldlM_ok_inv I hf l (hf b a b₁ hb hs) h

/-- A loop whose body raises what `read` raises on the element, and goes on
when `read` succeeds, stops with the first exception of `read`. -/
theorem foldlM_error_of_mapM {γ : Type} {read : α → Except ε γ} {f : β → α → Except ε β}
    (hraise : ∀ b a e, read a = .error e → f b a = .error e)
    (hok : ∀ b a r, read a = .ok r → ∃ b', f b a = .ok b') :
    ∀ (l : List α) (b : β) {e : ε}, l.mapM read = .error e → l.foldlM f b = .error e
  | [], _, _, h => by cases h
  | a :: l, b, e, h => by
    rw [List.foldlM_cons]
    cases ha : read a with
    | error => rw [List.mapM_cons, ha] at h; cases h; rw [hraise b a _ ha]; rfl
    | ok r =>
      obtain ⟨b', hb'⟩ := hok b a r ha
      have hl : l.mapM read = .error e := by
        cases hl : l.mapM read with
        | ok rs => cases h.symm.trans (mapM_cons_ok.2 ⟨r, rs, ha, hl, rfl⟩)
        | error => rw [List.mapM_cons, ha, hl] at h; exact h
      rw [hb']
      exact foldlM_error_of_mapM hraise hok l b' hl

end

namespace AnalyzeAllCoverage

/-- The package loop body of analyze_all_coverage.py up to the store. -/
def readPackage (float : Str → Option ℚ) : Element → Except PyError (Option PackageRead) :=
  Coverage.readPackage true true float

/-- The store at the end of the package loop: a new name is stored as read;
a repeated one keeps the higher rates and the union of the class maps. -/
def storePackage (packages : Dict Str Metrics) (p : PackageRead) : Dict Str Metrics :=
  match packages.get? p.name with
  | none => packages.insert p.name p.metrics
  | some m => packages.insert p.name (m.merge p.metrics)

/-- One pass of the package loop of `parse_coverage`. -/
def packageStep (float : Str → Option ℚ) (packages : Dict Str Metrics) (pkg : Element) :
    Except PyError (Dict Str Metrics) := do
  match ← readPackage float pkg with
  | none => return packages
  | some p => return storePackage packages p

/-- `parse_coverage` on a parsed report. -/
def parseCoverage (float : Str → Option ℚ) (root : Element) : Except PyError (Dict Str Metrics) :=
  (root.findall "package".toList).foldlM (packageStep float) Dict.empty

/-- The default entry of `all_packages` in `main`. -/
def zeroMetrics : Metrics := ⟨0, 0, Dict.empty⟩

/-- One pass of the inner loop of `main`: the package's entry, created with
the default when absent, takes the higher rates and the union of classes. -/
def mergeInto (all : Dict Str Metrics) (e : Str × Metrics) : Dict Str Metrics :=
  all.insert e.1 (((all.get? e.1).getD zeroMetrics).merge e.2)

/-- One pass of the loop of `main` over the coverage files. -/
def fileStep (float : Str → Option ℚ) (all : Dict Str Metrics) (doc : Element) :
    Except PyError (Dict Str Metrics) := do
  let packages ← parseCoverage float doc
  return packages.entries.foldl mergeInto all

/-- The aggregation of `main`, over the reports in the order in which
`find_latest_coverage_files` lists them. -/
def aggregate (float : Str → Option ℚ) (docs : List Element) : Except PyError (Dict Str Metrics) :=
  docs.foldlM (fileStep float) Dict.empty

/-- What the strict `parse_coverage` reads from the package elements of all
reports, in order: the packages it keeps. -/
def readAll (float : Str → Option ℚ) (docs : List Element) : Except PyError (List PackageRead) :=
  (·.filterMap id) <$> (packagesOf docs).mapM (readPackage float)

/-- Every entry of `all_packages` has non-negative rates. -/
def NonNeg (all : Dict Str Metrics) : Prop :=
  ∀ k m, all.get? k = some m → 0 ≤ m.line ∧ 0 ≤ m.branch

/-! ## The store inside one report -/

theorem storePackage_summarizes {D : Dict Str Metrics} {ps : List PackageRead}
    (h : Summarizes D ps) (p : PackageRead) : Summarizes (storePackage D p) (ps ++ [p]) := by
  intro P
  have hkeys : P ∈ (storePackage D p).keys ↔ P = p.name ∨ P ∈ D.keys := by
    unfold storePackage; split <;> simp
  refine ⟨by rw [hkeys, (h P).1]; simp [or_comm], fun m hm => ?_⟩
  rw [readsNamed_append, readsNamed_single]
  by_cases hP : p.name = P
  · subst hP
    unfold storePackage at hm
    split at hm
    · rename_i hD
      have hn : p.name ∉ ps.map (·.name) := by
        rw [← (h p.name).1, Dict.mem_keys]; simp [hD]
      simp only [Dict.get?_insert, if_true, Option.some.injEq] at hm
      rw [readsNamed_of_not_mem hn, ← hm, if_pos rfl]
      exact covers_metrics p
    · rename_i m₀ hD
      simp only [Dict.get?_insert, if_true, Option.some.injEq] at hm
      rw [← hm, if_pos rfl]
      exact covers_merge ((h _).2 m₀ hD) (covers_metrics p)
  · have hm' : D.get? P = some m := by
      unfold storePackage at hm; split at hm <;> simpa [hP] using hm
    rw [if_neg hP, List.append_nil]
    exact (h P).2 m hm'

theorem foldl_storePackage_summarizes (qs : List PackageRead) :
    ∀ {D : Dict Str Metrics} {ps : List PackageRead}, Summarizes D ps →
      Summarizes (qs.foldl storePackage D) (ps ++ qs) := by
  induction qs with
  | nil => intro D ps h; simpa using h
  | cons q qs ih =>
    intro D ps h
    simpa using ih (storePackage_summarizes h q)

theorem foldlM_packageStep (float : Str → Option ℚ) (l : List Element) :
    ∀ {rs : List (Option PackageRead)} (D : Dict Str Metrics),
      l.mapM (readPackage float) = .ok rs →
        l.foldlM (packageStep float) D = .ok ((rs.filterMap id).foldl storePackage D) := by
  induction l with
  | nil => intro rs D h; cases h; rfl
  | cons e l ih =>
    intro rs D h
    obtain ⟨r, rs', he, hl, rfl⟩ := mapM_cons_ok.1 h
    cases r <;>
      simp [List.foldlM_cons, packageStep, he, ih _ hl, bind, Except.bind, pure, Except.pure]

/-- A package read that raises stops the package loop with its exception. -/
theorem foldlM_packageStep_error (float : Str → Option ℚ) (l : List Element) {err : PyError}
    (D : Dict Str Metrics) (h : l.mapM (readPackage float) = .error err) :
    l.foldlM (packageStep float) D = .error err :=
  foldlM_error_of_mapM (fun _ _ _ he => by rw [packageStep, he]; rfl)
    (fun _ _ r he => by cases r <;> exact ⟨_, by rw [packageStep, he]; rfl⟩) l D h

/-! ## The merge across reports -/

theorem get?_foldl_mergeInto (l : List (Str × Metrics)) (hl : (l.map Prod.fst).Nodup)
    (A : Dict Str Metrics) (k : Str) :
    (l.foldl mergeInto A).get? k = match findEntry k l with
      | some m => some (((A.get? k).getD zeroMetrics).merge m)
      | none => A.get? k := by
  induction l generalizing A with
  | nil => rfl
  | cons e rest ih =>
    rw [List.map_cons, List.nodup_cons] at hl
    rw [List.foldl_cons, ih hl.2]
    by_cases h : e.1 = k
    · subst h
      have hn : findEntry e.1 rest = none := by
        cases hf : findEntry e.1 rest
        · rfl
        · exact absurd ((findEntry_isSome _ _).1 (by simp [hf])) hl.1
      simp [hn, findEntry, mergeInto]
    · simp [findEntry, mergeInto, h]

theorem mem_keys_foldl_mergeInto (l : List (Str × Metrics)) (A : Dict Str Metrics) (k : Str) :
    k ∈ (l.foldl mergeInto A).keys ↔ k ∈ A.keys ∨ k ∈ l.map Prod.fst := by
  induction l generalizing A with
  | nil => simp
  | cons e rest ih => simp only [List.foldl_cons, ih, mergeInto, Dict.mem_keys_insert,
      List.map_cons, List.mem_cons]; tauto

theorem foldl_mergeInto_summarizes {A D : Dict Str Metrics} {ps qs : List PackageRead}
    (hA : Summarizes A ps) (hD : Summarizes D qs) :
    Summarizes (D.entries.foldl mergeInto A) (ps ++ qs) := by
  intro P
  refine ⟨?_, fun m hm => ?_⟩
  · rw [mem_keys_foldl_mergeInto, (hA P).1, ← Dict.keys, (hD P).1]; simp
  rw [get?_foldl_mergeInto _ D.nodup] at hm
  rw [readsNamed_append]
  cases hf : findEntry P D.entries with
  | some md =>
    simp only [hf, Option.some.injEq] at hm
    subst hm
    have hmd : Covers md (readsNamed qs P) := (hD P).2 md hf
    cases hAP : A.get? P with
    | some a => exact covers_merge ((hA P).2 a hAP) hmd
    | none =>
      have hn : P ∉ ps.map (·.name) := by rw [← (hA P).1, ← Dict.get?_eq_none]; exact hAP
      rw [readsNamed_of_not_mem hn]
      exact covers_merge ((covers_nil_iff _).2 ⟨le_refl _, le_refl _, rfl⟩) hmd
  | none =>
    simp only [hf] at hm
    have hn : P ∉ qs.map (·.name) := by rw [← (hD P).1, ← Dict.get?_eq_none]; exact hf
    rw [readsNamed_of_not_mem hn, List.append_nil]
    exact (hA P).2 m hm

theorem foldl_mergeInto_nonneg (l : List (Str × Metrics)) :
    ∀ {A : Dict Str Metrics}, NonNeg A → NonNeg (l.foldl mergeInto A) := by
  induction l with
  | nil => exact id
  | cons e rest ih =>
    intro A hA
    apply ih
    intro k m hm
    simp only [mergeInto, Dict.get?_insert] at hm
    split at hm
    · cases hm
      have hold : 0 ≤ ((A.get? e.1).getD zeroMetrics).line ∧
          0 ≤ ((A.get? e.1).getD zeroMetrics).branch := by
        cases h : A.get? e.1 with
        | none => exact ⟨le_refl _, le_refl _⟩
        | some a => exact hA _ a h
      exact ⟨le_max_of_le_left hold.1, le_max_of_le_left hold.2⟩
    · exact hA k m hm

/-! ## The whole run -/

theorem foldlM_fileStep (float : Str → Option ℚ) (docs : List Element) :
    ∀ {rs : List (Option PackageRead)} {A : Dict Str Metrics} {ps : List PackageRead},
      (packagesOf docs).mapM (readPackage float) = .ok rs → Summarizes A ps → NonNeg A →
        ∃ A', docs.foldlM (fileStep float) A = .ok A' ∧
          Summarizes A' (ps ++ rs.filterMap id) ∧ NonNeg A' := by
  induction docs with
  | nil => intro rs A ps h hA hn; cases h; exact ⟨A, rfl, by simpa using hA, hn⟩
  | cons d rest ih =>
    intro rs A ps h hA hn
    rw [packagesOf, List.flatMap_cons] at h
    obtain ⟨rs₁, rs₂, h₁, h₂, rfl⟩ := mapM_append_ok h
    have hparse : parseCoverage float d = .ok ((rs₁.filterMap id).foldl storePackage Dict.empty) :=
      foldlM_packageStep float _ Dict.empty h₁
    have hD := foldl_storePackage_summarizes (rs₁.filterMap id) summarizes_empty
    rw [List.nil_append] at hD
    obtain ⟨A', hrun, hA', hn'⟩ :=
      ih h₂ (foldl_mergeInto_summarizes hA hD) (foldl_mergeInto_nonneg _ hn)
    refine ⟨A', ?_, by simpa [List.filterMap_append, List.append_assoc] using hA', hn'⟩
    simpa [List.foldlM_cons, fileStep, hparse, bind, Except.bind, pure, Except.pure] using hrun

/-- The strict aggregation holds, under each package name, the peak rates
and the union of the class names of every kept package read. -/
theorem aggregate_summarizes {float : Str → Option ℚ} {docs : List Element}
    {ps : List PackageRead} (h : readAll float docs = .ok ps) :
    ∃ agg, aggregate float docs = .ok agg ∧ Summarizes agg ps ∧ NonNeg agg := by
  obtain ⟨rs, hrs, rfl⟩ := except_map_ok.1 h
  simpa using foldlM_fileStep float docs hrs summarizes_empty (fun _ _ h => by cases h)

/-- A package read that raises stops the aggregation with the first such
exception, in reading order. -/
theorem aggregate_error {float : Str → Option ℚ} {docs : List Element} {e : PyError}
    (h : readAll float docs = .error e) :
    aggregate float docs = .error e := by
  refine foldlM_error_of_mapM (fun A d e he => ?_) (fun A d rs hd => ?_) docs Dict.empty
    (mapM_flatMap_error docs (except_map_error.1 h))
  · rw [fileStep, parseCoverage,
      foldlM_packageStep_error float _ _ he]; rfl
  · exact ⟨_, by rw [fileStep, parseCoverage,
      foldlM_packageStep float _ _ hd]; rfl⟩

end AnalyzeAllCoverage

end WhizbangScripts.Coverage
