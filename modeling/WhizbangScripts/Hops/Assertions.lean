import WhizbangScripts.Py.Regex

/-!
# fix_hop_assertions.py

`fix_assertions` runs five `re.subn` passes in a row, each rewriting a
reference `.Field` (followed by a word boundary) to
`.ServiceInstance.Field`. The passes do not interfere: together they are one
simultaneous substitution, and each counts the references of its own field
in the original text.

* `fieldReference`, `patterns`, `fixAssertions`: the script;
* `occursAt`, `substitute`, `occurrences`: the simultaneous substitution of a
  list of fields, and the number of positions at which one of them occurs;
* `subn_fieldReference`: one pass is the substitution of its one field;
* `substitute_substitute`: a pass run after the substitution of earlier
  fields substitutes all of them, when the fields are `Compatible`;
* `fixAssertions_simultaneous`: the five passes, and each prefix of them;
* `fixAssertions_rerun`: every replacement holds a reference again, so a
  second run finds as many references and changes the text again.
-/

namespace WhizbangScripts.Hops.FixHopAssertions
open Py

/-- `\.<name>\b`; `word` is the table of word characters that `\b` reads. -/
def fieldReference (word : Char → Bool) (name : Str) : Re :=
  .seqs [.lit '.', .str name, .wordBoundary word]

/-- The `(old_pattern, replacement)` pairs, in the order of the source. -/
def patterns (word : Char → Bool) : List (Re × Str) :=
  [(fieldReference word "ServiceName".toList, ".ServiceInstance.ServiceName".toList),
   (fieldReference word "InstanceId".toList, ".ServiceInstance.InstanceId".toList),
   (fieldReference word "HostName".toList, ".ServiceInstance.HostName".toList),
   (fieldReference word "ProcessId".toList, ".ServiceInstance.ProcessId".toList),
   (fieldReference word "MachineName".toList, ".ServiceInstance.HostName".toList)]

/-- One turn of the loop: `new_content, count = re.subn(old_pattern,
replacement, new_content)` and `changes += count`. -/
def pass (acc : Str × Nat) (p : Re × Str) : Except PyError (Str × Nat) := do
  let (newContent, count) ← p.1.subn p.2 acc.1 0
  return (newContent, acc.2 + count)

/-- `fix_assertions(content)`: the new text and the number of changes. -/
def fixAssertions (word : Char → Bool) (content : Str) : Except PyError (Str × Nat) :=
  (patterns word).foldlM pass (content, 0)

/-! ## The simultaneous substitution -/

/-- The fields that moved into `ServiceInstance`: the name after the dot,
and the name inside `ServiceInstance`. -/
def movedFields : List (Str × Str) :=
  [("ServiceName".toList, "ServiceName".toList), ("InstanceId".toList, "InstanceId".toList),
   ("HostName".toList, "HostName".toList), ("ProcessId".toList, "ProcessId".toList),
   ("MachineName".toList, "HostName".toList)]

/-- The text a reference to the field `f` becomes. -/
def moved (f : Str × Str) : Str := ".ServiceInstance.".toList ++ f.2

/-- A reference `.name` followed by a word boundary at the start of `s`. -/
def occursAt (word : Char → Bool) (name s : Str) : Bool :=
  ('.' :: name).isPrefixOf s &&
    Cursor.atBoundary word ⟨('.' :: name).getLast?, s.drop (name.length + 1)⟩

section Substitute
variable (word : Char → Bool)

/-- The simultaneous substitution of the fields `fs`, left to right: where a
field occurs (the first of `fs` that does) it is replaced and the scan goes
on after it; every other character is kept. -/
def substitute (fs : List (Str × Str)) : Str → Str
  | [] => []
  | c :: cs =>
    match fs.find? (fun f => occursAt word f.1 (c :: cs)) with
    | some f => moved f ++ substitute fs (cs.drop f.1.length)
    | none => c :: substitute fs cs
termination_by s => s.length
decreasing_by all_goals simp_wf <;> omega

/-- The number of positions of `s` at which one of the fields `fs` occurs. -/
def occurrences (fs : List (Str × Str)) (s : Str) : Nat :=
  s.tails.countP fun t => fs.any fun f => occursAt word f.1 t

end Substitute

/-- No reference to the field `name` can start inside `t`, whatever text
follows `t`: each dot of `t` is followed, inside `t`, by a character other
than the first of `name`. -/
def clearOf (name : Str) : Str → Bool
  | [] => true
  | [c] => c != '.'
  | c :: d :: ds => (c != '.' || name.head? != some d) && clearOf name (d :: ds)

/-- The field `f` can be substituted after the fields `fs`: names are
non-empty and without dots, no two start with the same letter, and no
reference to `f` starts inside the text that replaces one of `fs`. -/
def Compatible (fs : List (Str × Str)) (f : Str × Str) : Prop :=
  f.1 ≠ [] ∧ '.' ∉ f.1 ∧
    ∀ g ∈ fs, g.1 ≠ [] ∧ '.' ∉ g.1 ∧ g.1.head? ≠ f.1.head? ∧ clearOf f.1 (moved g) = true

instance (fs : List (Str × Str)) (f : Str × Str) : Decidable (Compatible fs f) :=
  inferInstanceAs (Decidable (_ ∧ _ ∧ ∀ g ∈ fs, _))

/-- Each field of `gs` is compatible with `fs` and the fields of `gs` before it. -/
def sequential : List (Str × Str) → List (Str × Str) → Bool
  | _, [] => true
  | fs, g :: gs => decide (Compatible fs g) && sequential (fs ++ [g]) gs

section Lemmas
variable {word : Char → Bool}

/-! ## Where a reference occurs -/

theorem occursAt_cons (name : Str) (c : Char) (Y : Str) :
    occursAt word name (c :: Y) = ('.' == c && name.isPrefixOf Y &&
      Cursor.atBoundary word ⟨('.' :: name).getLast?, Y.drop name.length⟩) := rfl

theorem occursAt_of_ne_dot (name : Str) {c : Char} (h : c ≠ '.') (cs : Str) :
    occursAt word name (c :: cs) = false := by
  simp [occursAt_cons, Ne.symm h]

theorem eq_of_occursAt {name s : Str} (h : occursAt word name s = true) :
    ∃ t, s = '.' :: (name ++ t) := by
  simp only [occursAt, Bool.and_eq_true] at h
  obtain ⟨t, rfl⟩ := List.isPrefixOf_iff_prefix.1 h.1
  exact ⟨t, rfl⟩

theorem head?_eq_of_occursAt {a b s : Str} (ha : a ≠ []) (hb : b ≠ [])
    (h₁ : occursAt word a s = true) (h₂ : occursAt word b s = true) : a.head? = b.head? := by
  obtain ⟨t, rfl⟩ := eq_of_occursAt h₁
  obtain ⟨u, hu⟩ := eq_of_occursAt h₂
  obtain ⟨x, a, rfl⟩ := List.exists_cons_of_ne_nil ha
  obtain ⟨y, b, rfl⟩ := List.exists_cons_of_ne_nil hb
  simp only [List.cons_append, List.cons.injEq] at hu
  simp [hu.2.1]

theorem atBoundary_congr (p : Option Char) {r r' : Str} (h : r.head? = r'.head?) :
    Cursor.atBoundary word ⟨p, r⟩ = Cursor.atBoundary word ⟨p, r'⟩ := by
  simp only [Cursor.atBoundary, h]

/-! ## The substitution, one position at a time -/

@[simp] theorem substitute_nil (fs : List (Str × Str)) : substitute word fs [] = [] := by
  rw [substitute]

theorem substitute_cons_some {fs : List (Str × Str)} {c : Char} {cs : Str} {f : Str × Str}
    (h : fs.find? (fun f => occursAt word f.1 (c :: cs)) = some f) :
    substitute word fs (c :: cs) = moved f ++ substitute word fs (cs.drop f.1.length) := by
  rw [substitute, h]

theorem substitute_cons_none {fs : List (Str × Str)} {c : Char} {cs : Str}
    (h : fs.find? (fun f => occursAt word f.1 (c :: cs)) = none) :
    substitute word fs (c :: cs) = c :: substitute word fs cs := by
  rw [substitute, h]

theorem find?_occursAt_of_ne_dot (fs : List (Str × Str)) {c : Char} (h : c ≠ '.') (cs : Str) :
    fs.find? (fun f => occursAt word f.1 (c :: cs)) = none :=
  List.find?_eq_none.2 fun f _ => by simp [occursAt_of_ne_dot f.1 h]

/-- Text without a dot is copied as it is. -/
theorem substitute_dotFree (fs : List (Str × Str)) {w : Str} (hw : '.' ∉ w) (X : Str) :
    substitute word fs (w ++ X) = w ++ substitute word fs X := by
  induction w with
  | nil => rfl
  | cons a w ih =>
    rw [List.mem_cons, not_or] at hw
    rw [List.cons_append, substitute_cons_none (find?_occursAt_of_ne_dot fs (Ne.symm hw.1) _),
      ih hw.2, List.cons_append]

/-- Every replacement starts with the dot it replaces. -/
theorem head?_substitute (fs : List (Str × Str)) (s : Str) :
    (substitute word fs s).head? = s.head? := by
  cases s with
  | nil => simp
  | cons c cs =>
    cases h : fs.find? (fun f => occursAt word f.1 (c :: cs)) with
    | none => rw [substitute_cons_none h]; rfl
    | some f =>
      have ho := List.find?_some h
      obtain ⟨t, ht⟩ := eq_of_occursAt ho
      obtain ⟨rfl, rfl⟩ := List.cons.inj ht
      rw [substitute_cons_some h]
      rfl

theorem isPrefixOf_substitute (fs : List (Str × Str)) {w : Str} (hw : '.' ∉ w) (Y : Str) :
    w.isPrefixOf (substitute word fs Y) = w.isPrefixOf Y := by
  induction w generalizing Y with
  | nil => simp [List.isPrefixOf]
  | cons a w ih =>
    rw [List.mem_cons, not_or] at hw
    cases Y with
    | nil => simp
    | cons d ds =>
      by_cases hd : d = '.'
      · subst hd
        have hh := @head?_substitute word fs ('.' :: ds)
        cases h : substitute word fs ('.' :: ds) with
        | nil => rw [h] at hh; cases hh
        | cons e es =>
          rw [h] at hh
          cases hh
          simp [List.isPrefixOf, beq_eq_false_iff_ne.2 (Ne.symm hw.1)]
      · rw [substitute_cons_none (find?_occursAt_of_ne_dot fs hd _)]
        simp only [List.isPrefixOf, ih hw.2]

/-- Whether a reference to a dot-free name starts after `c` does not change
when the text after `c` is substituted. -/
theorem occursAt_cons_substitute (fs : List (Str × Str)) {name : Str} (hn : '.' ∉ name)
    (c : Char) (cs : Str) :
    occursAt word name (c :: substitute word fs cs) = occursAt word name (c :: cs) := by
  rw [occursAt_cons, occursAt_cons, isPrefixOf_substitute fs hn]
  by_cases hp : name.isPrefixOf cs
  · obtain ⟨t, rfl⟩ := List.isPrefixOf_iff_prefix.1 hp
    rw [substitute_dotFree fs hn, List.drop_left, List.drop_left,
      atBoundary_congr _ (head?_substitute fs t)]
  · simp [hp]

/-! ## Counting occurrences -/

@[simp] theorem occurrences_nil (fs : List (Str × Str)) : occurrences word fs [] = 0 := by
  simp [occurrences, occursAt]

theorem occurrences_cons (fs : List (Str × Str)) (c : Char) (cs : Str) :
    occurrences word fs (c :: cs) =
      occurrences word fs cs + if fs.any (fun f => occursAt word f.1 (c :: cs)) then 1 else 0 := by
  rw [occurrences, occurrences, List.tails, List.countP_cons]

theorem occurrences_dotFree (fs : List (Str × Str)) {w : Str} (hw : '.' ∉ w) (X : Str) :
    occurrences word fs (w ++ X) = occurrences word fs X := by
  induction w with
  | nil => rfl
  | cons a w ih =>
    rw [List.mem_cons, not_or] at hw
    rw [List.cons_append, occurrences_cons, ih hw.2]
    simp [occursAt_of_ne_dot _ (Ne.symm hw.1)]

/-! ## One pass of `re.subn` -/

theorem getLast?_dot_cons (name : Str) : ('.' :: name).getLast? = name.getLast?.or (some '.') := by
  rw [List.getLast?_cons]; cases name.getLast? <;> rfl

theorem pick_fieldReference (name : Str) (must : Bool) (p : Option Char) (s : Str) :
    (fieldReference word name).pick must ⟨p, s⟩ =
      if occursAt word name s then some (⟨('.' :: name).getLast?, s.drop (name.length + 1)⟩, [])
      else none := by
  by_cases hp : ('.' :: name).isPrefixOf s
  · obtain ⟨t, rfl⟩ := List.isPrefixOf_iff_prefix.1 hp
    simp [Re.pick, fieldReference, Re.seqs, Re.run, Re.run_lit, Re.run_str, Cursor.advance,
      Cursor.advance_append, occursAt, getLast?_dot_cons]
    split <;> simp; omega
  · rw [if_neg (by simp [occursAt, hp])]
    cases s with
    | nil => rfl
    | cons d ds =>
      by_cases hd : d = '.'
      · subst hd
        simp only [List.isPrefixOf, beq_self_eq_true, Bool.true_and] at hp
        simp [Re.pick, fieldReference, Re.seqs, Re.run, Re.run_lit, Re.run_str, List.isPrefixOf, hp]
      · simp [Re.pick, fieldReference, Re.seqs, Re.run, Re.run_lit, List.isPrefixOf, hd]

/-- From any position with enough fuel, the loop of `re.subn` for one field
is the substitution of that field, and counts its occurrences. -/
theorem subnLoop_fieldReference {f : Str × Str} (hd : '.' ∉ f.1) (s : Str) :
    ∀ (fuel n : Nat) (must : Bool) (p : Option Char), s.length < fuel →
      (fieldReference word f.1).subnLoop (fun _ => pure (moved f)) 0 fuel n must ⟨p, s⟩ =
        .ok (substitute word [f] s, n + occurrences word [f] s) := by
  generalize h : s.length = len
  induction len using Nat.strong_induction_on generalizing s with
  | _ len ih =>
  intro fuel n must p hf
  obtain ⟨fuel, rfl⟩ : ∃ k, fuel = k + 1 := ⟨fuel - 1, by omega⟩
  cases s with
  | nil =>
    rw [Re.subnLoop_nil _ _ _ _ _ _ (by rw [pick_fieldReference]; rfl), substitute_nil,
      occurrences_nil]
    rfl
  | cons c cs =>
    subst h
    by_cases ho : occursAt word f.1 (c :: cs)
    · obtain ⟨t, ht⟩ := eq_of_occursAt ho
      obtain ⟨rfl, rfl⟩ := List.cons.inj ht
      have hany : ([f].any fun g => occursAt word g.1 ('.' :: (f.1 ++ t))) = true := by simp [ho]
      have hfind : [f].find? (fun g => occursAt word g.1 ('.' :: (f.1 ++ t))) = some f := by
        simp [ho]
      rw [Re.subnLoop_of_pick_some _ _ _ _ _ _ _ (by rw [pick_fieldReference, if_pos ho]),
        List.drop_succ_cons, List.drop_left,
        ih t.length (by simp; omega) t rfl fuel (n + 1) _ _ (by simp at hf; omega),
        substitute_cons_some hfind, occurrences_cons, occurrences_dotFree _ hd,
        List.drop_left, hany, if_pos rfl, show n + (occurrences word [f] t + 1) =
          n + 1 + occurrences word [f] t by omega]
      rfl
    · have hany : ([f].any fun g => occursAt word g.1 (c :: cs)) = false := by simpa using ho
      rw [Re.subnLoop_of_pick_none _ (fun _ => pure (moved f)) (fun _ _ => rfl) _ _ _ _ _ _ _
          (by rw [pick_fieldReference, if_neg ho]),
        ih cs.length (by simp) cs rfl (fuel + 1) n false (some c) (by simp at hf; omega),
        substitute_cons_none (by simpa using ho), occurrences_cons, hany]
      rfl

/-- One pass: `re.subn(r'\.<name>\b', replacement, s)` substitutes the field
and counts its occurrences. -/
theorem subn_fieldReference {f : Str × Str} (hd : '.' ∉ f.1) (hb : '\\' ∉ moved f) (s : Str) :
    (fieldReference word f.1).subn (moved f) s 0 =
      .ok (substitute word [f] s, occurrences word [f] s) := by
  have hrepl : (fun m => pure (expand ((moved f).map fun c => .text [c]) m) :
      Match → Except PyError Str) = fun _ => pure (moved f) := funext fun m => by rw [expand_plain]
  rw [Re.subn, parseTemplate_plain _ hb]
  show (fieldReference word f.1).subnLoop _ 0 (2 * s.length + 2) 0 false ⟨none, s⟩ = _
  rw [hrepl, subnLoop_fieldReference hd s _ 0 false none (by omega), Nat.zero_add]

/-! ## Passes in a row -/

@[simp] theorem substitute_no_fields (s : Str) : substitute word [] s = s := by
  induction s with
  | nil => exact substitute_nil _
  | cons c cs ih => rw [substitute_cons_none (List.find?_nil), ih]

@[simp] theorem occurrences_no_fields (s : Str) : occurrences word [] s = 0 := by
  simp [occurrences]

theorem occursAt_cons_head {name : Str} (hn : name ≠ []) {c : Char} {Z : Str}
    (h : occursAt word name (c :: Z) = true) : c = '.' ∧ Z.head? = name.head? := by
  obtain ⟨t, ht⟩ := eq_of_occursAt h
  obtain ⟨rfl, rfl⟩ := List.cons.inj ht
  obtain ⟨a, name, rfl⟩ := List.exists_cons_of_ne_nil hn
  exact ⟨rfl, rfl⟩

/-- No reference to `f` starts inside a text clear of it: the substitution
of `f` copies it. -/
theorem substitute_clearOf {f : Str × Str} (hn : f.1 ≠ []) {R : Str} (hR : clearOf f.1 R = true)
    (Y : Str) :
    substitute word [f] (R ++ Y) = R ++ substitute word [f] Y ∧
      occurrences word [f] (R ++ Y) = occurrences word [f] Y := by
  induction R using clearOf.induct f.1 with
  | case1 => exact ⟨rfl, rfl⟩
  | case2 c =>
    have hc : c ≠ '.' := by simpa [clearOf] using hR
    rw [List.singleton_append, substitute_cons_none (find?_occursAt_of_ne_dot _ hc _),
      occurrences_cons]
    simp [occursAt_of_ne_dot _ hc]
  | case3 c d ds ih =>
    simp only [clearOf, Bool.and_eq_true, Bool.or_eq_true, bne_iff_ne, ne_eq] at hR
    have hno : occursAt word f.1 (c :: d :: (ds ++ Y)) = false := by
      by_contra ho
      obtain ⟨rfl, hd⟩ := occursAt_cons_head hn (Bool.not_eq_false _ ▸ ho)
      exact hR.1.elim (· rfl) (· hd.symm)
    obtain ⟨ih₁, ih₂⟩ := ih hR.2
    refine ⟨?_, ?_⟩
    · rw [List.cons_append, substitute_cons_none (by simp [hno]), ih₁]
      rfl
    · rw [List.cons_append, occurrences_cons, ih₂]
      simp [hno]

theorem occurrences_append {fs : List (Str × Str)} {f : Str × Str} (hc : Compatible fs f)
    (s : Str) :
    occurrences word (fs ++ [f]) s = occurrences word fs s + occurrences word [f] s := by
  induction s with
  | nil => simp
  | cons c cs ih =>
    rw [occurrences_cons, occurrences_cons, occurrences_cons, ih]
    have hdis : (fs.any fun g => occursAt word g.1 (c :: cs)) = true →
        occursAt word f.1 (c :: cs) = false := by
      rw [List.any_eq_true]
      rintro ⟨g, hg, hog⟩
      by_contra hof
      have h := hc.2.2 g hg
      exact h.2.2.1 (head?_eq_of_occursAt h.1 hc.1 hog (Bool.not_eq_false _ ▸ hof))
    simp only [List.any_append, List.any_cons, List.any_nil, Bool.or_false]
    cases hF : fs.any fun g => occursAt word g.1 (c :: cs) <;>
      cases hf : occursAt word f.1 (c :: cs) <;> simp_all <;> omega

/-- The substitution of `f` after that of the compatible fields `fs` is the
substitution of `fs` and `f` together, and counts the references to `f` of
the original text. -/
theorem substitute_substitute {fs : List (Str × Str)} {f : Str × Str} (hc : Compatible fs f)
    (s : Str) :
    substitute word [f] (substitute word fs s) = substitute word (fs ++ [f]) s ∧
      occurrences word [f] (substitute word fs s) = occurrences word [f] s := by
  generalize h : s.length = len
  induction len using Nat.strong_induction_on generalizing s with
  | _ len ih =>
  subst h
  cases s with
  | nil => simp
  | cons c cs =>
    cases hF : fs.find? (fun g => occursAt word g.1 (c :: cs)) with
    | some g =>
      -- a field of `fs` occurs here; its replacement is clear of `f`
      have hog := List.find?_some hF
      obtain ⟨hgn, hgd, hhead, hclear⟩ := hc.2.2 g (List.mem_of_find?_eq_some hF)
      obtain ⟨t, ht⟩ := eq_of_occursAt hog
      obtain ⟨rfl, rfl⟩ := List.cons.inj ht
      have hof : occursAt word f.1 ('.' :: (g.1 ++ t)) = false := by
        by_contra hof
        exact hhead (head?_eq_of_occursAt hgn hc.1 hog (Bool.not_eq_false _ ▸ hof))
      have hF' : (fs ++ [f]).find? (fun h => occursAt word h.1 ('.' :: (g.1 ++ t))) = some g := by
        rw [List.find?_append, hF]; rfl
      obtain ⟨ih₁, ih₂⟩ := ih t.length (by simp; omega) t rfl
      obtain ⟨hR₁, hR₂⟩ := substitute_clearOf hc.1 hclear (substitute word fs t)
      rw [substitute_cons_some hF, List.drop_left, hR₁, hR₂, ih₁, ih₂, substitute_cons_some hF',
        List.drop_left, occurrences_cons, occurrences_dotFree _ hgd]
      simp [hof]
    | none =>
      have hd := hc.2.1
      by_cases hof : occursAt word f.1 (c :: cs)
      · -- `f` occurs here, and still does after the substitution of `fs`
        obtain ⟨t, ht⟩ := eq_of_occursAt hof
        obtain ⟨rfl, rfl⟩ := List.cons.inj ht
        have hof' : occursAt word f.1 ('.' :: substitute word fs (f.1 ++ t)) = true := by
          rw [occursAt_cons_substitute fs hd]; exact hof
        have h₁ : [f].find? (fun h => occursAt word h.1 ('.' :: substitute word fs (f.1 ++ t))) =
            some f := by simp [hof']
        have h₂ : (fs ++ [f]).find? (fun h => occursAt word h.1 ('.' :: (f.1 ++ t))) = some f := by
          rw [List.find?_append, hF]; simp [hof]
        obtain ⟨ih₁, ih₂⟩ := ih t.length (by simp; omega) t rfl
        refine ⟨?_, ?_⟩
        · rw [substitute_cons_none hF, substitute_cons_some h₁, substitute_dotFree fs hd,
            List.drop_left, ih₁, substitute_cons_some h₂, List.drop_left]
        · rw [substitute_cons_none hF, occurrences_cons, occurrences_cons, substitute_dotFree fs hd,
            occurrences_dotFree _ hd, occurrences_dotFree _ hd, ih₂]
          rw [substitute_dotFree fs hd] at hof'
          simp [hof, hof']
      · -- nothing occurs here
        have hof' : occursAt word f.1 (c :: substitute word fs cs) = false := by
          rw [occursAt_cons_substitute fs hd]; simpa using hof
        have h₂ : (fs ++ [f]).find? (fun h => occursAt word h.1 (c :: cs)) = none := by
          rw [List.find?_append, hF]; simpa using hof
        obtain ⟨ih₁, ih₂⟩ := ih cs.length (by simp) cs rfl
        rw [substitute_cons_none hF, substitute_cons_none (by simpa using hof'), ih₁,
          substitute_cons_none h₂, occurrences_cons, occurrences_cons, ih₂]
        simp [hof, hof']

/-- Passes for the fields `gs`, run after the substitution of `fs`, give the
substitution of `fs ++ gs` and the count of its references. -/
theorem foldlM_pass (fs gs : List (Str × Str)) (hs : sequential fs gs = true)
    (hb : ∀ g ∈ gs, '\\' ∉ moved g) (c : Str) :
    (gs.map fun g => (fieldReference word g.1, moved g)).foldlM pass
        (substitute word fs c, occurrences word fs c) =
      .ok (substitute word (fs ++ gs) c, occurrences word (fs ++ gs) c) := by
  induction gs generalizing fs with
  | nil => rw [List.append_nil]; rfl
  | cons g gs ih =>
    rw [sequential, Bool.and_eq_true, decide_eq_true_iff] at hs
    obtain ⟨h₁, h₂⟩ := substitute_substitute hs.1 c
    have hpass : pass (substitute word fs c, occurrences word fs c) (fieldReference word g.1, moved g) =
        .ok (substitute word (fs ++ [g]) c, occurrences word (fs ++ [g]) c) := by
      rw [pass, subn_fieldReference hs.1.2.1 (hb g (List.mem_cons_self _ _)), h₁, h₂,
        occurrences_append hs.1]
      rfl
    rw [List.map_cons, List.foldlM_cons, hpass]
    exact (ih (fs ++ [g]) hs.2 fun g' hg' => hb g' (List.mem_cons_of_mem _ hg')).trans
      (by rw [List.append_assoc, List.singleton_append])

end Lemmas

/-- The source's pattern list is the list of moved fields, each with its
reference pattern and its replacement. -/
theorem patterns_eq (word : Char → Bool) :
    patterns word = movedFields.map fun g => (fieldReference word g.1, moved g) := rfl

theorem sequential_movedFields : ∀ k ≤ 5, sequential [] (movedFields.take k) = true := by
  decide

theorem moved_movedFields : ∀ g ∈ movedFields, '\\' ∉ moved g := by
  decide

/-- `fix_assertions` is the simultaneous substitution of the five moved
fields, and counts their references in the original text; after each prefix
of its passes the text is the substitution of that prefix of the fields, so
no pass matches a text that an earlier pass inserted. -/
theorem fixAssertions_simultaneous (word : Char → Bool) (c : Str) :
    fixAssertions word c = .ok (substitute word movedFields c, occurrences word movedFields c) ∧
      ∀ k ≤ 5, ((patterns word).take k).foldlM pass (c, 0) =
        .ok (substitute word (movedFields.take k) c, occurrences word (movedFields.take k) c) := by
  have hk : ∀ k ≤ 5, ((patterns word).take k).foldlM pass (c, 0) =
      .ok (substitute word (movedFields.take k) c, occurrences word (movedFields.take k) c) := by
    intro k hk
    have h := @foldlM_pass word [] (movedFields.take k) (sequential_movedFields k hk)
      (fun g hg => moved_movedFields g (List.mem_of_mem_take hg)) c
    rwa [substitute_no_fields, occurrences_no_fields, List.nil_append, List.map_take,
      ← patterns_eq] at h
  exact ⟨hk 5 le_rfl, hk⟩

/-! ## Running the script again -/

/-- The replacement of a field: `.ServiceInstance`, then the reference to
the name inside it. -/
theorem moved_eq (f : Str × Str) : moved f = ".ServiceInstance".toList ++ '.' :: f.2 := by
  rw [moved, show ".ServiceInstance.".toList = ".ServiceInstance".toList ++ ['.'] by decide,
    List.append_assoc]; rfl

/-- The name inside `ServiceInstance` is a moved field that ends in the same
character: `HostName` for `MachineName`, the name itself otherwise. -/
theorem inner_movedFields :
    ∀ f ∈ movedFields, (f.2, f.2) ∈ movedFields ∧ f.2.getLast? = f.1.getLast? ∧ '.' ∉ f.2 ∧
      '.' ∉ f.1 ∧ f.1.length + 2 ≤ (moved f).length := by
  decide

/-- No moved field is referenced at the start of `.ServiceInstance`. -/
theorem serviceInstance_clear :
    ∀ g ∈ movedFields, (('.' :: g.1).isPrefixOf ".ServiceInstance".toList ||
      ".ServiceInstance".toList.isPrefixOf ('.' :: g.1)) = false := by
  decide

section Rerun
variable {word : Char → Bool}

theorem occursAt_dot_append (name t : Str) :
    occursAt word name ('.' :: (name ++ t)) = Cursor.atBoundary word ⟨('.' :: name).getLast?, t⟩ := by
  simp [occursAt, List.isPrefixOf_iff_prefix]

theorem occurrences_serviceInstance (X : Str) :
    occurrences word movedFields (".ServiceInstance".toList ++ X) = occurrences word movedFields X := by
  have hno : (movedFields.any fun g => occursAt word g.1 (".ServiceInstance".toList ++ X)) = false := by
    refine List.any_eq_false.2 fun g hg ho => ?_
    obtain ⟨t, ht⟩ := eq_of_occursAt ho
    have h := serviceInstance_clear g hg
    have hg : ('.' :: g.1) <+: ".ServiceInstance".toList ++ X := by
      rw [ht]; exact List.prefix_append ('.' :: g.1) t
    rcases List.prefix_or_prefix_of_prefix hg (List.prefix_append _ X) with hp | hp <;>
      simp only [List.isPrefixOf_iff_prefix.2 hp, Bool.true_or, Bool.or_true, Bool.true_eq_false] at h
  have hsplit : ".ServiceInstance".toList ++ X = '.' :: ("ServiceInstance".toList ++ X) := rfl
  rw [hsplit, occurrences_cons, occurrences_dotFree _ (by decide), ← hsplit, hno]
  rfl

/-- Every reference of the substituted text is one that the substitution
wrote, or one that the original text had: no more, no fewer. -/
theorem occurrences_substitute_movedFields (s : Str) :
    occurrences word movedFields (substitute word movedFields s) = occurrences word movedFields s := by
  generalize h : s.length = len
  induction len using Nat.strong_induction_on generalizing s with
  | _ len ih =>
  subst h
  cases s with
  | nil => simp
  | cons c cs =>
    cases hF : movedFields.find? (fun g => occursAt word g.1 (c :: cs)) with
    | some f =>
      have hof := List.find?_some hF
      obtain ⟨hin, hlast, hd₂, hd₁, -⟩ := inner_movedFields f (List.mem_of_find?_eq_some hF)
      obtain ⟨t, ht⟩ := eq_of_occursAt hof
      obtain ⟨rfl, rfl⟩ := List.cons.inj ht
      -- the reference to the name inside `ServiceInstance` keeps the boundary of the original
      have hinner : occursAt word f.2 ('.' :: (f.2 ++ substitute word movedFields t)) = true := by
        rw [occursAt_dot_append, getLast?_dot_cons, hlast, ← getLast?_dot_cons,
          atBoundary_congr _ (head?_substitute _ _), ← occursAt_dot_append]
        exact hof
      have hany : ∀ x xs, (movedFields.any fun g => occursAt word g.1 (x :: xs)) = true →
          occurrences word movedFields (x :: xs) = occurrences word movedFields xs + 1 :=
        fun x xs hX => by rw [occurrences_cons, if_pos hX]
      rw [substitute_cons_some hF, List.drop_left, moved_eq, List.append_assoc,
        occurrences_serviceInstance, List.cons_append,
        hany _ _ (List.any_eq_true.2 ⟨(f.2, f.2), hin, hinner⟩),
        hany _ _ (List.any_eq_true.2 ⟨f, List.mem_of_find?_eq_some hF, hof⟩),
        occurrences_dotFree _ hd₂, occurrences_dotFree _ hd₁,
        ih t.length (by simp; omega) t rfl]
    | none =>
      have hsame : (movedFields.any fun g => occursAt word g.1 (c :: substitute word movedFields cs)) =
          movedFields.any fun g => occursAt word g.1 (c :: cs) := by
        simp only [movedFields, List.any_cons, List.any_nil,
          occursAt_cons_substitute _ (by decide : '.' ∉ "ServiceName".toList),
          occursAt_cons_substitute _ (by decide : '.' ∉ "InstanceId".toList),
          occursAt_cons_substitute _ (by decide : '.' ∉ "HostName".toList),
          occursAt_cons_substitute _ (by decide : '.' ∉ "ProcessId".toList),
          occursAt_cons_substitute _ (by decide : '.' ∉ "MachineName".toList)]
      rw [substitute_cons_none hF, occurrences_cons, occurrences_cons, hsame,
        ih cs.length (by simp) cs rfl]

/-- Each replacement is longer than the reference it replaces: the
substituted text grows by at least one character per reference. -/
theorem length_substitute_movedFields (s : Str) :
    s.length + occurrences word movedFields s ≤ (substitute word movedFields s).length := by
  generalize h : s.length = len
  induction len using Nat.strong_induction_on generalizing s with
  | _ len ih =>
  subst h
  cases s with
  | nil => simp
  | cons c cs =>
    rw [occurrences_cons]
    cases hF : movedFields.find? (fun g => occursAt word g.1 (c :: cs)) with
    | some f =>
      have hof := List.find?_some hF
      obtain ⟨-, -, -, hd₁, hlen⟩ := inner_movedFields f (List.mem_of_find?_eq_some hF)
      obtain ⟨t, ht⟩ := eq_of_occursAt hof
      obtain ⟨rfl, rfl⟩ := List.cons.inj ht
      have ih' := ih t.length (by simp; omega) t rfl
      rw [substitute_cons_some hF, List.drop_left, occurrences_dotFree _ hd₁,
        if_pos (List.any_eq_true.2 ⟨f, List.mem_of_find?_eq_some hF, hof⟩)]
      simp only [List.length_cons, List.length_append]
      omega
    | none =>
      have ih' := ih cs.length (by simp) cs rfl
      rw [substitute_cons_none hF, if_neg (by simpa [List.find?_eq_none] using hF)]
      simp only [List.length_cons]
      omega

/-- A text without references is left as it is. -/
theorem substitute_of_occurrences_eq_zero {fs : List (Str × Str)} {s : Str}
    (h : occurrences word fs s = 0) : substitute word fs s = s := by
  induction s with
  | nil => exact substitute_nil fs
  | cons c cs ih =>
    rw [occurrences_cons] at h
    have hno : (fs.any fun f => occursAt word f.1 (c :: cs)) = false := by
      by_contra hany; rw [if_pos (Bool.not_eq_false _ ▸ hany)] at h; omega
    rw [substitute_cons_none (List.find?_eq_none.2 fun f hf => List.any_eq_false.1 hno f hf),
      ih (by rw [hno] at h; simpa using h)]

end Rerun

/-- `fix_assertions` returns the substitution of the moved fields and the
number of their references. -/
theorem fixAssertions_eq (word : Char → Bool) (c : Str) :
    fixAssertions word c = .ok (substitute word movedFields c, occurrences word movedFields c) := by
  have h := @foldlM_pass word [] movedFields (sequential_movedFields 5 le_rfl) moved_movedFields c
  rwa [substitute_no_fields, occurrences_no_fields, List.nil_append, ← patterns_eq] at h

/-- **Running the script again rewrites every reference again.** On its own
output `fix_assertions` finds exactly as many references as on its input:
each `.ServiceInstance.ServiceName` it wrote holds a `.ServiceName`. So a
text it changed is changed again, to a longer one
(`.ServiceInstance.ServiceInstance.ServiceName`), and only a text without
references is left as it is. -/
theorem fixAssertions_rerun (word : Char → Bool) (c : Str) :
    ∃ c' c'' n, fixAssertions word c = .ok (c', n) ∧ fixAssertions word c' = .ok (c'', n) ∧
      (n = 0 → c' = c ∧ c'' = c) ∧ (0 < n → c'.length < c''.length) := by
  refine ⟨substitute word movedFields c, substitute word movedFields (substitute word movedFields c),
    occurrences word movedFields c, fixAssertions_eq word c, ?_, fun h0 => ?_, fun hn => ?_⟩
  · rw [fixAssertions_eq, occurrences_substitute_movedFields]
  · rw [substitute_of_occurrences_eq_zero (occurrences_substitute_movedFields c ▸ h0),
      substitute_of_occurrences_eq_zero h0]
    exact ⟨rfl, rfl⟩
  · have h := @length_substitute_movedFields word (substitute word movedFields c)
    rw [occurrences_substitute_movedFields] at h
    omega

end WhizbangScripts.Hops.FixHopAssertions
