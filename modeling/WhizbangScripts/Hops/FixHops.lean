import WhizbangScripts.Py.Regex

/-!
# fix_hops.py

`fix_file` rewrites one-line `MessageHop` initializers with two `re.sub`
passes: `pattern` with `fix_simple_hop` for a `ServiceName` followed by ` }`
or `,`, then `pattern2` with `fix_with_type` for a `ServiceName` followed by
`, Type = ...}`.

* `pattern`, `pattern2`, `fixSimpleHop`, `fixWithType`, `fixFile`: the two
  passes and the text `fix_file` writes back;
* `hopAt`, `firstPass`: the hop `pattern` matches at a position, read off
  the pattern, and the text the first pass writes; `run_pattern` and
  `subnWith_pattern` connect them to the matcher of `re`;
* `hopAt_suffix_firstPass`: no hop is left anywhere in that text;
* `fixFile_eq_firstPass`: so the second pass never finds anything and
  `fix_with_type` never runs; `fixFile_idempotent`: a second run of the
  script changes nothing.
-/

namespace WhizbangScripts.Hops.FixHops
open Py

/-- `[^"]`. -/
def notQuote (c : Char) : Bool := c != '"'

/-- `[^}]`. -/
def notBrace (c : Char) : Bool := c != '\x7d'

/-- `new MessageHop \{ ServiceName = "`, the text both patterns match after
the indentation. -/
def hopOpening : Str := "new MessageHop \x7b ServiceName = \"".toList

/-- `pattern`: `(\s+)new MessageHop \{ ServiceName = "([^"]+)"( \}|,)`. -/
def pattern : Re :=
  .seqs [.group 1 (.plus isSpace), .str hopOpening, .group 2 (.plus notQuote), .lit '"',
    .group 3 (.alt (.str " \x7d".toList) (.lit ','))]

/-- `pattern2`: `(\s+)new MessageHop \{ ServiceName = "([^"]+)", (Type = [^}]+\})`. -/
def pattern2 : Re :=
  .seqs [.group 1 (.plus isSpace), .str hopOpening, .group 2 (.plus notQuote), .str "\", ".toList,
    .group 3 (.seqs [.str "Type = ".toList, .plus notBrace, .lit '\x7d'])]

/-- The text both replacement functions write, up to the brace that closes
`ServiceInstanceInfo`. -/
def serviceInstance (indent serviceName : Str) : Str :=
  indent ++ "new MessageHop \x7b\n".toList ++
  indent ++ "  ServiceInstance = new ServiceInstanceInfo \x7b\n".toList ++
  indent ++ "    ServiceName = \"".toList ++ serviceName ++ "\",\n".toList ++
  indent ++ "    InstanceId = Guid.NewGuid(),\n".toList ++
  indent ++ "    HostName = \"test-host\",\n".toList ++
  indent ++ "    ProcessId = 12345\n".toList ++
  indent ++ "  \x7d".toList

/-- `fix_simple_hop`: `rest` is group 3 when it took part and is not empty. -/
def fixSimpleHop (m : Match) : Except PyError Str :=
  let indent := (m.group 1).getD []
  let serviceName := (m.group 2).getD []
  let rest := (m.group 3).getD []
  pure (serviceInstance indent serviceName ++ rest)

/-- `fix_with_type`, the replacement function of the second pass. -/
def fixWithType (m : Match) : Except PyError Str :=
  let indent := (m.group 1).getD []
  let serviceName := (m.group 2).getD []
  let restProps := (m.group 3).getD []
  pure (serviceInstance indent serviceName ++ ",\n".toList ++ indent ++ "  ".toList ++ restProps)

/-- `fix_file` on a file holding `content`: the text written back. -/
def fixFile (content : Str) : Except PyError Str := do
  let content ← Prod.fst <$> pattern.subnWith fixSimpleHop content 0
  Prod.fst <$> pattern2.subnWith fixWithType content 0

/-! ## The hops `pattern` matches -/

/-- `( \}|,)`: the text that closes a hop, the first alternative first, and
the text after it. -/
def closing (r : Str) : Option (Str × Str) :=
  if " \x7d".toList.isPrefixOf r then some (" \x7d".toList, r.drop 2)
  else if [','].isPrefixOf r then some (",".toList, r.drop 1)
  else none

/-- The one-line hop that `pattern` matches at the start of `s`: the
indentation, the service name, the closing text and the text after it. -/
def hopAt (s : Str) : Option (Str × Str × Str × Str) :=
  let indent := s.takeWhile isSpace
  let t := (s.dropWhile isSpace).drop hopOpening.length
  let serviceName := t.takeWhile notQuote
  if indent = [] ∨ !hopOpening.isPrefixOf (s.dropWhile isSpace) ∨ serviceName = [] then none else
  (closing ((t.dropWhile notQuote).drop 1)).map fun (rest, u) => (indent, serviceName, rest, u)

theorem run_closing (p : Option Char) (r : Str) (g : Captures) :
    (Re.group 3 (.alt (.str " \x7d".toList) (.lit ','))).run ⟨p, r⟩ g =
      (closing r).toList.map fun (rest, u) => (⟨rest.getLast?, u⟩, (3, rest) :: g) := by
  show ((Re.str _).run ⟨p, r⟩ g ++ (Re.lit ',').run ⟨p, r⟩ g).map _ = _
  rw [Re.run_str, Re.run_lit, closing]
  by_cases h1 : " \x7d".toList.isPrefixOf r
  · obtain ⟨u, rfl⟩ := List.isPrefixOf_iff_prefix.1 h1
    rw [if_pos h1, if_pos h1, if_neg (by simp), Cursor.advance_append]
    simp only [List.append_nil, List.map_cons, List.map_nil, Option.toList_some,
      Cursor.upTo_append]
    rw [show (2 : Nat) = " \x7d".toList.length from rfl, List.drop_left]
    rfl
  · by_cases h2 : [','].isPrefixOf r
    · obtain ⟨u, rfl⟩ := List.isPrefixOf_iff_prefix.1 h2
      rw [if_neg h1, if_neg h1, if_pos h2, if_pos h2, show (1 : Nat) = [','].length from rfl,
        Cursor.advance_append]
      simp only [List.nil_append, List.map_cons, List.map_nil, Option.toList_some,
        Cursor.upTo_append, List.drop_left]
      rfl
    · rw [if_neg h1, if_neg h1, if_neg h2, if_neg h2]; rfl

/-- After the indentation comes `new`: a whitespace character does not start
`hopOpening`. -/
theorem run_hopOpening_of_space (b : Re) {q : Option Char} {d : Char} {ds : Str} {g : Captures}
    (hd : isSpace d = true) : (Re.seq (.str hopOpening) b).run ⟨q, d :: ds⟩ g = [] := by
  rw [Re.run_seq_str, if_neg]
  intro h
  obtain ⟨t, ht⟩ := List.isPrefixOf_iff_prefix.1 h
  cases congrArg List.head? ht
  exact absurd hd (by decide)

theorem run_pattern (q : Option Char) (s : Str) :
    pattern.run ⟨q, s⟩ [] = (hopAt s).toList.map fun (indent, serviceName, rest, u) =>
      (⟨rest.getLast?, u⟩, [(3, rest), (2, serviceName), (1, indent)]) := by
  show Re.run (.seq (.group 1 (.plus isSpace)) (.seq (.str hopOpening) (.seq
    (.group 2 (.plus notQuote)) (.seq (.lit '"') (.group 3 (.alt (.str " \x7d".toList)
      (.lit ','))))))) _ _ = _
  rw [Re.run_group_plus_seq _ _ _ fun _ _ _ _ hd => run_hopOpening_of_space _ hd]
  unfold hopAt
  by_cases h₁ : s.takeWhile isSpace = []
  · simp [h₁]
  rw [if_neg h₁, Re.run_seq_str]
  by_cases h₂ : hopOpening.isPrefixOf (s.dropWhile isSpace)
  swap
  · simp [h₁, h₂]
  rw [if_pos h₂]
  obtain ⟨t, ht⟩ := List.isPrefixOf_iff_prefix.1 h₂
  rw [← ht, Cursor.advance_append, List.drop_left, Re.run_group_plus_seq _ _ _ fun q d ds g hd => by
    rw [Re.run_seq_lit]; simp_all [notQuote]]
  simp only [h₁, List.isPrefixOf_iff_prefix.2 (List.prefix_append _ _), Bool.not_true, false_or,
    Bool.false_eq_true]
  by_cases h₃ : t.takeWhile notQuote = []
  · simp [h₃]
  rw [if_neg h₃, if_neg h₃, Re.run_seq_lit]
  rcases hr : t.dropWhile notQuote with _ | ⟨d, r⟩
  · rfl
  · obtain rfl : d = '"' := by
      have := List.head_dropWhile_not notQuote t (by simp [hr])
      simpa [hr, notQuote] using this
    dsimp only
    rw [if_pos rfl, run_closing, List.drop_one, List.tail_cons]
    cases closing r <;> rfl

/-- The two texts that close a hop. -/
def IsCloser (r : Str) : Prop := r = " \x7d".toList ∨ r = ",".toList

theorem closing_eq_some {x r u : Str} : closing x = some (r, u) ↔ IsCloser r ∧ x = r ++ u := by
  unfold closing IsCloser
  constructor
  · intro h
    split_ifs at h with h₁ h₂ <;> cases h
    · exact ⟨.inl rfl, by obtain ⟨v, rfl⟩ := List.isPrefixOf_iff_prefix.1 h₁; rfl⟩
    · exact ⟨.inr rfl, by obtain ⟨v, rfl⟩ := List.isPrefixOf_iff_prefix.1 h₂; rfl⟩
  · rintro ⟨rfl | rfl, rfl⟩
    · rw [if_pos (List.isPrefixOf_iff_prefix.2 (List.prefix_append _ _))]; rfl
    · rw [if_neg (by simp)]; simp

theorem span_append_cons {p : Char → Bool} {w : Str} {c : Char} (hw : ∀ a ∈ w, p a = true)
    (hc : p c = false) (t : Str) :
    (w ++ c :: t).takeWhile p = w ∧ (w ++ c :: t).dropWhile p = c :: t := by
  rw [List.takeWhile_append_of_pos hw, List.dropWhile_append_of_pos hw,
    List.takeWhile_cons_of_neg (by simp [hc]), List.dropWhile_cons_of_neg (by simp [hc]),
    List.append_nil]
  exact ⟨rfl, rfl⟩

theorem notQuote_iff {c : Char} : notQuote c = true ↔ c ≠ '"' := by simp [notQuote]

/-- `hopAt` finds exactly the texts made of an indentation, `hopOpening`, a
service name without quotes, a quote and a closing text. -/
theorem hopAt_eq_some {s indent serviceName rest u : Str} :
    hopAt s = some (indent, serviceName, rest, u) ↔
      indent ≠ [] ∧ (∀ c ∈ indent, isSpace c = true) ∧ serviceName ≠ [] ∧ '"' ∉ serviceName ∧
        IsCloser rest ∧ s = indent ++ hopOpening ++ serviceName ++ '"' :: (rest ++ u) := by
  constructor
  · intro h
    unfold hopAt at h
    simp only at h
    split_ifs at h with hc
    obtain ⟨⟨rest', u'⟩, hcl, he⟩ := Option.map_eq_some'.1 h
    cases he
    simp only [not_or, Bool.not_eq_true', Bool.not_eq_false'] at hc
    obtain ⟨hw, hK, hsn⟩ := hc
    obtain ⟨hr, hx⟩ := closing_eq_some.1 hcl
    obtain ⟨t, ht⟩ := List.isPrefixOf_iff_prefix.1 (Bool.not_eq_false _ ▸ hK)
    rw [← ht, List.drop_left] at hx hsn
    rw [← ht, List.drop_left]
    show _ ∧ _ ∧ _ ∧ _ ∧ IsCloser rest' ∧ s = _ ++ _ ++ _ ++ '"' :: (rest' ++ u')
    have hne : t.dropWhile notQuote ≠ [] := fun h0 => by
      rw [h0] at hx; rcases hr with rfl | rfl <;> cases hx
    have hd : t.dropWhile notQuote = '"' :: (rest' ++ u') := by
      obtain ⟨d, r, hdr⟩ := List.exists_cons_of_ne_nil hne
      have := List.head_dropWhile_not notQuote t hne
      simp only [hdr, List.head_cons, notQuote, bne_eq_false_iff_eq] at this
      rw [← hx, hdr, this]; rfl
    refine ⟨hw, fun c hc => List.mem_takeWhile_imp hc, hsn,
      fun hq => absurd (List.mem_takeWhile_imp hq) (by decide), hr, ?_⟩
    rw [← hd, List.append_assoc, List.takeWhile_append_dropWhile, List.append_assoc, ht,
      List.takeWhile_append_dropWhile]
  · rintro ⟨hw, hsp, hsn, hq, hr, rfl⟩
    have hsn' : ∀ c ∈ serviceName, notQuote c = true := fun c hc =>
      notQuote_iff.2 fun e => hq (e ▸ hc)
    obtain ⟨h₁, h₂⟩ := span_append_cons hsp (show isSpace 'n' = false by decide)
      (hopOpening.tail ++ serviceName ++ '"' :: (rest ++ u))
    obtain ⟨h₃, h₄⟩ := span_append_cons hsn' (show notQuote '"' = false by decide) (rest ++ u)
    have e₁ : (indent ++ (hopOpening ++ (serviceName ++ '"' :: (rest ++ u)))).takeWhile isSpace =
        indent := h₁
    have e₂ : (indent ++ (hopOpening ++ (serviceName ++ '"' :: (rest ++ u)))).dropWhile isSpace =
        hopOpening ++ (serviceName ++ '"' :: (rest ++ u)) := h₂
    unfold hopAt
    simp only [List.append_assoc, e₁, e₂, List.isPrefixOf_iff_prefix.2 (List.prefix_append _ _),
      List.drop_left, h₃, h₄, hw, hsn, Bool.not_true, Bool.false_eq_true, or_self, if_false,
      List.drop_one, List.tail_cons, closing_eq_some.2 ⟨hr, rfl⟩]
    rfl

theorem hopAt_length {s indent serviceName rest u : Str}
    (h : hopAt s = some (indent, serviceName, rest, u)) : u.length < s.length := by
  obtain ⟨-, -, -, -, -, rfl⟩ := hopAt_eq_some.1 h
  simp only [List.length_append, List.length_cons]
  omega

theorem pick_pattern (must : Bool) (q : Option Char) (s : Str) :
    pattern.pick must ⟨q, s⟩ = (hopAt s).map fun (indent, serviceName, rest, u) =>
      (⟨rest.getLast?, u⟩, [(3, rest), (2, serviceName), (1, indent)]) := by
  rw [Re.pick, run_pattern]
  rcases h : hopAt s with _ | ⟨indent, serviceName, rest, u⟩
  · rfl
  · simp [hopAt_length h]

/-! ## The first pass -/

/-- The text the first `re.sub` writes: from left to right, each hop that
`hopAt` finds is replaced by the text of `fix_simple_hop`, and every other
character is kept. -/
def firstPass (s : Str) : Str :=
  match _hm : hopAt s with
  | some (indent, serviceName, rest, u) =>
    serviceInstance indent serviceName ++ rest ++ firstPass u
  | none => match s with
    | [] => []
    | c :: cs => c :: firstPass cs
termination_by s.length
decreasing_by
  · exact hopAt_length _hm
  · simp

theorem firstPass_of_hopAt {s indent serviceName rest u : Str}
    (h : hopAt s = some (indent, serviceName, rest, u)) :
    firstPass s = serviceInstance indent serviceName ++ rest ++ firstPass u := by
  rw [firstPass]; split <;> simp_all

theorem firstPass_cons {c : Char} {cs : Str} (h : hopAt (c :: cs) = none) :
    firstPass (c :: cs) = c :: firstPass cs := by
  rw [firstPass]; split <;> simp_all

@[simp] theorem hopAt_nil : hopAt [] = none := rfl

@[simp] theorem firstPass_nil : firstPass [] = [] := by
  rw [firstPass]; split <;> simp_all

/-- From any position, with enough fuel, the loop of the first `re.sub`
writes `firstPass`. -/
theorem subnLoop_pattern (s : Str) : ∀ (fuel n : Nat) (must : Bool) (q : Option Char),
    s.length < fuel →
      ∃ k, pattern.subnLoop fixSimpleHop 0 fuel n must ⟨q, s⟩ = .ok (firstPass s, k) := by
  generalize h : s.length = len
  induction len using Nat.strong_induction_on generalizing s with
  | _ len ih =>
  intro fuel n must q hf
  obtain ⟨fuel, rfl⟩ : ∃ k, fuel = k + 1 := ⟨fuel - 1, by omega⟩
  subst h
  rcases hh : hopAt s with _ | ⟨indent, serviceName, rest, u⟩
  · cases s with
    | nil =>
      exact ⟨n, by rw [Re.subnLoop_nil _ _ _ _ _ _ (by rw [pick_pattern, hh]; rfl), firstPass_nil]; rfl⟩
    | cons c cs =>
      obtain ⟨k, hk⟩ := ih cs.length (by simp) cs rfl (fuel + 1) n false (some c)
        (by simp at hf; omega)
      refine ⟨k, ?_⟩
      rw [Re.subnLoop_of_pick_none _ fixSimpleHop (fun _ _ => rfl) _ _ _ _ _ _ _
        (by rw [pick_pattern, hh]; rfl), hk, firstPass_cons hh]
      rfl
  · have hlen := hopAt_length hh
    rw [Re.subnLoop_of_pick_some _ _ _ _ _ _ _ (by rw [pick_pattern, hh]; rfl)]
    obtain ⟨k, hk⟩ := ih u.length hlen u rfl fuel (n + 1)
      (Cursor.upTo ⟨q, s⟩ ⟨rest.getLast?, u⟩).isEmpty rest.getLast? (by omega)
    refine ⟨k, ?_⟩
    rw [hk, firstPass_of_hopAt hh]
    rfl

/-- The first `re.sub` of `fix_file` writes `firstPass`. -/
theorem subnWith_pattern (s : Str) :
    ∃ k, pattern.subnWith fixSimpleHop s 0 = .ok (firstPass s, k) :=
  subnLoop_pattern s _ 0 false none (by omega)

/-! ## What the first pass copies -/

/-- A replacement can start at the front of `x`: it opens with whitespace,
then whitespace or the `n` of `new`. -/
def mayOpen : Str → Bool
  | c :: d :: _ => isSpace c && (isSpace d || d == 'n')
  | _ => false

theorem mayOpen_of_not_space {c : Char} (hc : isSpace c = false) (u : Str) :
    mayOpen (c :: u) = false := by
  cases u <;> simp [mayOpen, hc]

theorem mayOpen_serviceInstance {indent : Str} (hw : indent ≠ [])
    (hsp : ∀ c ∈ indent, isSpace c = true) (serviceName X : Str) :
    mayOpen (serviceInstance indent serviceName ++ X) = true := by
  obtain ⟨c, w, rfl⟩ := List.exists_cons_of_ne_nil hw
  obtain ⟨r, hr⟩ : ∃ r, serviceInstance (c :: w) serviceName ++ X = c :: w ++ 'n' :: r :=
    ⟨_, by simp only [serviceInstance, List.append_assoc]; rfl⟩
  rw [hr]
  cases w with
  | nil => simp [mayOpen, hsp c (List.mem_cons_self _ _)]
  | cons d w => simp [mayOpen, hsp c (List.mem_cons_self _ _), hsp d (by simp)]

/-- Where no replacement can start, the first pass copies a character. -/
theorem firstPass_eq_cons {s u : Str} {c : Char} (h : firstPass s = c :: u)
    (hc : mayOpen (c :: u) = false) : ∃ cs, s = c :: cs ∧ hopAt s = none ∧ firstPass cs = u := by
  rcases hh : hopAt s with _ | ⟨indent, serviceName, rest, v⟩
  · cases s with
    | nil => simp at h
    | cons c' cs =>
      rw [firstPass_cons hh] at h
      obtain ⟨rfl, rfl⟩ := List.cons.inj h
      exact ⟨cs, rfl, rfl, rfl⟩
  · obtain ⟨hw, hsp, -⟩ := hopAt_eq_some.1 hh
    rw [← h, firstPass_of_hopAt hh, List.append_assoc, mayOpen_serviceInstance hw hsp] at hc
    cases hc

/-- No replacement can start anywhere in `x`. -/
def closedText : Str → Bool
  | [] => true
  | [c] => !isSpace c
  | c :: d :: x => (!isSpace c || !(isSpace d || d == 'n')) && closedText (d :: x)

/-- A text no replacement can start in is copied from the input. -/
theorem firstPass_eq_append {x : Str} (hx : closedText x = true) {s u : Str}
    (h : firstPass s = x ++ u) : ∃ s', s = x ++ s' ∧ firstPass s' = u := by
  induction x using closedText.induct generalizing s with
  | case1 => exact ⟨s, rfl, h⟩
  | case2 c =>
    obtain ⟨cs, rfl, -, hcs⟩ := firstPass_eq_cons h
      (mayOpen_of_not_space (by simpa [closedText] using hx) u)
    exact ⟨cs, rfl, hcs⟩
  | case3 c d x ih =>
    simp only [closedText, Bool.and_eq_true] at hx
    obtain ⟨cs, rfl, -, hcs⟩ := firstPass_eq_cons h (by
      have h₁ := hx.1
      show (isSpace c && (isSpace d || d == 'n')) = false
      generalize isSpace c = a at h₁ ⊢
      generalize (isSpace d || d == 'n') = b at h₁ ⊢
      cases a <;> cases b <;> simp_all)
    obtain ⟨s', rfl, hs'⟩ := ih hx.2 hcs
    exact ⟨s', rfl, hs'⟩

theorem closedText_hopOpening : closedText hopOpening = true := by decide

theorem closedText_of_isCloser {r : Str} (hr : IsCloser r) : closedText r = true := by
  rcases hr with rfl | rfl <;> decide

/-! ## Quotes -/

theorem quote_split {x y x' y' : Str} (hx : '"' ∉ x) (hx' : '"' ∉ x')
    (h : x ++ '"' :: y = x' ++ '"' :: y') : x = x' ∧ y = y' := by
  induction x generalizing x' with
  | nil =>
    cases x' with
    | nil => exact ⟨rfl, (List.cons.inj h).2⟩
    | cons a x' =>
      obtain ⟨rfl, -⟩ := List.cons.inj h
      exact absurd (List.mem_cons_self _ _) hx'
  | cons a x ih =>
    cases x' with
    | nil =>
      obtain ⟨rfl, -⟩ := List.cons.inj h
      exact absurd (List.mem_cons_self _ _) hx
    | cons b x' =>
      simp only [List.cons_append] at h
      obtain ⟨rfl, h'⟩ := List.cons.inj h
      obtain ⟨rfl, rfl⟩ := ih (fun m => hx (List.mem_cons_of_mem _ m))
        (fun m => hx' (List.mem_cons_of_mem _ m)) h'
      exact ⟨rfl, rfl⟩

theorem prefix_of_quote {x z x' y' : Str} (hx : '"' ∉ x) (h : x ++ z = x' ++ '"' :: y') :
    x <+: x' := by
  rcases List.append_eq_append_iff.1 h with ⟨a, rfl, -⟩ | ⟨c, rfl, hc⟩
  · exact List.prefix_append _ _
  · cases c with
    | nil => simp
    | cons e c => exact absurd ((List.cons.inj hc).1 ▸ by simp) hx

/-- The text of `serviceInstance` before its first quote. -/
def namePrefix (indent : Str) : Str :=
  indent ++ "new MessageHop \x7b\n".toList ++
  indent ++ "  ServiceInstance = new ServiceInstanceInfo \x7b\n".toList ++
  indent ++ "    ServiceName = ".toList

/-- The text of `serviceInstance` between the quote after the service name
and the next quote. -/
def idLines (indent : Str) : Str :=
  ",\n".toList ++ indent ++ "    InstanceId = Guid.NewGuid(),\n".toList ++
  indent ++ "    HostName = ".toList

/-- The text of `serviceInstance` after its last quote. -/
def closeLines (indent : Str) : Str :=
  ",\n".toList ++ indent ++ "    ProcessId = 12345\n".toList ++ indent ++ "  \x7d".toList

theorem serviceInstance_eq_quotes (indent serviceName : Str) :
    serviceInstance indent serviceName = namePrefix indent ++ '"' :: (serviceName ++ '"' ::
      (idLines indent ++ '"' :: ("test-host".toList ++ '"' :: closeLines indent))) := by
  simp only [serviceInstance, namePrefix, idLines, closeLines, List.append_assoc]
  rfl

section Quotes
variable {indent : Str} (hq : '"' ∉ indent)
include hq

theorem quote_not_mem_namePrefix : '"' ∉ namePrefix indent := by simp [namePrefix, hq]

theorem quote_not_mem_idLines : '"' ∉ idLines indent := by simp [idLines, hq]

theorem quote_not_mem_closeLines : '"' ∉ closeLines indent := by simp [closeLines, hq]

end Quotes

theorem quote_not_mem_of_space {w : Str} (hsp : ∀ c ∈ w, isSpace c = true) : '"' ∉ w :=
  fun h => absurd (hsp _ h) (by decide)

theorem quote_not_mem_of_isCloser {r : Str} (hr : IsCloser r) : '"' ∉ r := by
  rcases hr with rfl | rfl <;> decide

/-- `hopOpening` without its quote. -/
def hopKeyword : Str := "new MessageHop \x7b ServiceName = ".toList

theorem hopOpening_eq : hopOpening = hopKeyword ++ ['"'] := rfl

theorem quote_not_mem_hopKeyword : '"' ∉ hopKeyword := by decide

/-- The text from a service name on: where the first pass writes a text
without quotes, a quote and a closing text, the input has such a text too. -/
theorem firstPass_eq_quote {s n r u : Str} (hn : '"' ∉ n) (hr : IsCloser r)
    (h : firstPass s = n ++ '"' :: (r ++ u)) :
    ∃ n' u', '"' ∉ n' ∧ (n ≠ [] → n' ≠ []) ∧ s = n' ++ '"' :: (r ++ u') := by
  induction s using firstPass.induct generalizing n u with
  | case1 s indent serviceName rest v hh _ =>
    obtain ⟨hw, hsp, -, hsq, hrest, rfl⟩ := hopAt_eq_some.1 hh
    have hiq := quote_not_mem_of_space hsp
    rw [firstPass_of_hopAt hh, serviceInstance_eq_quotes] at h
    simp only [List.append_assoc, List.cons_append] at h
    obtain ⟨-, h⟩ := quote_split (quote_not_mem_namePrefix hiq) hn h
    -- the closing text `r` starts the service name
    obtain ⟨a, rfl⟩ : ∃ a, serviceName = r ++ a := by
      rcases List.append_eq_append_iff.1 h with ⟨c, rfl, hc⟩ | ⟨a, rfl, -⟩
      · cases c with
        | nil => exact ⟨[], by simp⟩
        | cons e c =>
          obtain ⟨rfl, -⟩ := List.cons.inj hc
          exact absurd (List.mem_append_right _ (List.mem_cons_self _ _))
            (quote_not_mem_of_isCloser hr)
      · exact ⟨a, rfl⟩
    refine ⟨indent ++ hopKeyword, a ++ '"' :: (rest ++ v), ?_, fun _ => by simp [hw], ?_⟩
    · simp [hiq, quote_not_mem_hopKeyword]
    · simp [hopOpening_eq]
  | case2 => simp at h
  | case3 c cs hh _ ih =>
    rw [firstPass_cons hh] at h
    cases n with
    | nil =>
      obtain ⟨rfl, h'⟩ := List.cons.inj h
      obtain ⟨s', rfl, -⟩ := firstPass_eq_append (closedText_of_isCloser hr) h'
      exact ⟨[], s', List.not_mem_nil _, fun h => absurd rfl h, rfl⟩
    | cons d n =>
      obtain ⟨rfl, h'⟩ := List.cons.inj h
      obtain ⟨n', u', hq, -, rfl⟩ := ih (fun m => hn (List.mem_cons_of_mem _ m)) h'
      refine ⟨c :: n', u', ?_, fun _ => List.cons_ne_nil _ _, rfl⟩
      simp only [List.mem_cons, not_or] at hn ⊢
      exact ⟨hn.1, hq⟩

/-! ## No hop starts inside a replacement -/

theorem not_suffix_of_tails {K l : Str} (a b : Str) (ha : a <:+ K) (hb : b <:+ l)
    (hlen : a.length = b.length) (hne : a ≠ b) : ¬K <:+ l := fun h =>
  hne ((List.suffix_of_suffix_length_le (ha.trans h) hb hlen.le).eq_of_length hlen)

theorem hopKeyword_not_suffix_namePrefix (indent : Str) : ¬hopKeyword <:+ namePrefix indent :=
  not_suffix_of_tails "\x7b ServiceName = ".toList "  ServiceName = ".toList (by decide)
    ((show _ <:+ "    ServiceName = ".toList by decide).trans (List.suffix_append _ _)) rfl
    (by decide)

theorem hopKeyword_not_suffix_idLines (indent : Str) : ¬hopKeyword <:+ idLines indent :=
  not_suffix_of_tails "eName = ".toList "tName = ".toList (by decide)
    ((show _ <:+ "    HostName = ".toList by decide).trans (List.suffix_append _ _)) rfl
    (by decide)

theorem hopKeyword_not_suffix_testHost : ¬hopKeyword <:+ "test-host".toList := fun h =>
  absurd h.length_le (by decide)

theorem suffix_quote_cases {x a b : Str} (h : x <:+ a ++ '"' :: b) :
    x <:+ b ∨ ∃ a', a' <:+ a ∧ x = a' ++ '"' :: b := by
  obtain ⟨p, hp⟩ := h
  rcases List.append_eq_append_iff.1 hp with ⟨a', rfl, rfl⟩ | ⟨c, rfl, hc⟩
  · exact .inr ⟨a', List.suffix_append _ _, rfl⟩
  · cases c with
    | nil => exact .inr ⟨[], List.nil_suffix, by simpa using hc.symm⟩
    | cons e c =>
      obtain ⟨-, rfl⟩ := List.cons.inj hc
      exact .inl (List.suffix_append _ _)

/-- A hop's keyword ends at the first quote of the text: where that quote
closes a quote-free text `p`, the keyword is a suffix of `p`. -/
theorem keyword_at_quote {p Z w Y : Str} (hp : '"' ∉ p) (hw : '"' ∉ w)
    (h : p ++ '"' :: Z = w ++ hopKeyword ++ '"' :: Y) : hopKeyword <:+ p ∧ Z = Y := by
  obtain ⟨rfl, rfl⟩ := quote_split hp (by simp [hw, quote_not_mem_hopKeyword]) h
  exact ⟨List.suffix_append _ _, rfl⟩

/-- No hop starts inside the text of `fix_simple_hop`. -/
theorem hopAt_inside_serviceInstance {indent serviceName rest x : Str}
    (hsp : ∀ c ∈ indent, isSpace c = true) (hsn : '"' ∉ serviceName) (hr : IsCloser rest)
    (hx : x <:+ serviceInstance indent serviceName ++ rest) (hne : x ≠ []) (X : Str) :
    hopAt (x ++ X) = none := by
  rcases hh : hopAt (x ++ X) with _ | ⟨w, sn, r, u⟩
  · rfl
  exfalso
  obtain ⟨-, hwsp, -, hsnq, hr', he⟩ := hopAt_eq_some.1 hh
  have hwq := quote_not_mem_of_space hwsp
  have hiq := quote_not_mem_of_space hsp
  replace he : x ++ X = w ++ hopKeyword ++ '"' :: (sn ++ '"' :: (r ++ u)) := by
    simp [he, hopOpening_eq]
  rw [serviceInstance_eq_quotes] at hx
  simp only [List.append_assoc, List.cons_append] at hx
  rcases suffix_quote_cases hx with hx | ⟨p, hp, rfl⟩
  swap
  · -- a keyword ending at the quote before the service name
    simp only [List.append_assoc, List.cons_append] at he
    exact hopKeyword_not_suffix_namePrefix indent ((keyword_at_quote
      (fun m => quote_not_mem_namePrefix hiq (hp.subset m)) hwq (by simpa using he)).1.trans hp)
  rcases suffix_quote_cases hx with hx | ⟨p, hp, rfl⟩
  swap
  · -- a keyword ending at the quote after the service name: the next quote
    -- opens `test-host`, not a closing text
    have h₁ := (keyword_at_quote (fun m => hsn (hp.subset m)) hwq (by simpa using he)).2
    obtain ⟨-, h₂⟩ := quote_split (quote_not_mem_idLines hiq) hsnq h₁
    have h₃ := congrArg List.head? h₂
    rcases hr' with rfl | rfl <;> simp at h₃
  rcases suffix_quote_cases hx with hx | ⟨p, hp, rfl⟩
  swap
  · exact hopKeyword_not_suffix_idLines indent ((keyword_at_quote
      (fun m => quote_not_mem_idLines hiq (hp.subset m)) hwq (by simpa using he)).1.trans hp)
  rcases suffix_quote_cases hx with hx | ⟨p, hp, rfl⟩
  swap
  · exact hopKeyword_not_suffix_testHost ((keyword_at_quote
      (fun m => absurd (hp.subset m) (by decide)) hwq (by simpa using he)).1.trans hp)
  · -- inside the last lines: `x` ends in the brace or comma of `rest`, which
    -- neither the indentation nor the keyword holds
    have hxq : '"' ∉ x := fun m => by
      rcases List.mem_append.1 (hx.subset m) with m | m
      · exact quote_not_mem_closeLines hiq m
      · exact quote_not_mem_of_isCloser hr m
    have hpre := prefix_of_quote hxq he
    obtain ⟨e, he', hlast⟩ : ∃ e, (e = '\x7d' ∨ e = ',') ∧ x.getLast? = some e := by
      obtain ⟨p, hp⟩ := hx
      rw [← List.getLast?_append_of_ne_nil p hne, hp,
        List.getLast?_append_of_ne_nil _ (by rcases hr with rfl | rfl <;> decide)]
      rcases hr with rfl | rfl
      · exact ⟨'\x7d', .inl rfl, rfl⟩
      · exact ⟨',', .inr rfl, rfl⟩
    obtain ⟨ys, rfl⟩ := List.getLast?_eq_some_iff.1 hlast
    rcases List.mem_append.1 (hpre.subset (List.mem_append_right _ (List.mem_singleton_self e)))
      with m | m
    · rcases he' with rfl | rfl <;> exact absurd (hwsp _ m) (by decide)
    · rcases he' with rfl | rfl <;> exact absurd m (by decide)

/-- **The first pass leaves no hop behind.** No hop that `pattern` matches
starts anywhere in the text the first pass writes. -/
theorem hopAt_suffix_firstPass (s : Str) : ∀ t, t <:+ firstPass s → hopAt t = none := by
  induction s using firstPass.induct with
  | case1 s indent serviceName rest u hh ih =>
    obtain ⟨-, hsp, -, hsq, hr, -⟩ := hopAt_eq_some.1 hh
    intro t ht
    rw [firstPass_of_hopAt hh] at ht
    generalize hR : serviceInstance indent serviceName ++ rest = R at ht
    obtain ⟨p, hp⟩ := ht
    rcases List.append_eq_append_iff.1 hp with ⟨a, ha, rfl⟩ | ⟨c, rfl, hc⟩
    · cases a with
      | nil => exact ih _ (List.suffix_refl _)
      | cons e a =>
        exact hopAt_inside_serviceInstance hsp hsq hr ⟨p, by rw [hR, ha]⟩ (List.cons_ne_nil _ _) _
    · exact ih t ⟨c, hc.symm⟩
  | case2 =>
    intro t ht
    rw [firstPass_nil, List.suffix_nil] at ht
    subst ht
    rfl
  | case3 c cs hh _ ih =>
    intro t ht
    rw [firstPass_cons hh, List.suffix_cons_iff] at ht
    rcases ht with rfl | ht
    · -- a hop at a copied character would be a hop of the input there
      rcases hh' : hopAt (c :: firstPass cs) with _ | ⟨w, sn, r, u⟩
      · rfl
      exfalso
      obtain ⟨hw, hwsp, hsn, hsnq, hr, he⟩ := hopAt_eq_some.1 hh'
      obtain ⟨d, w, rfl⟩ := List.exists_cons_of_ne_nil hw
      simp only [List.cons_append, List.append_assoc] at he
      obtain ⟨rfl, he⟩ := List.cons.inj he
      cases w with
      | nil =>
        obtain ⟨s', rfl, hs'⟩ := firstPass_eq_append closedText_hopOpening (by simpa using he)
        obtain ⟨n', u', hq, hne, rfl⟩ := firstPass_eq_quote hsnq hr hs'
        have := (@hopAt_eq_some _ [c] n' r u').2 ⟨List.cons_ne_nil _ _, hwsp, hne hsn, hq, hr, rfl⟩
        simp only [List.singleton_append, List.cons_append, List.nil_append, List.append_assoc] at this
        rw [hh] at this
        cases this
      | cons e w =>
        have := hopAt_eq_some.2 ⟨List.cons_ne_nil _ _, fun x hx => hwsp x (List.mem_cons_of_mem _ hx),
          hsn, hsnq, hr, by simpa using he⟩
        rw [ih _ (List.suffix_refl _)] at this
        cases this
    · exact ih t ht

/-! ## The second pass -/

/-- Where `pattern2` matches, `pattern` matches too: the text `fix_with_type`
is written for is a hop that ends in a comma. -/
theorem hopAt_of_run_pattern2 {q : Option Char} {t : Str} (h : pattern2.run ⟨q, t⟩ [] ≠ []) :
    hopAt t ≠ none := by
  revert h
  show Re.run (.seq (.group 1 (.plus isSpace)) (.seq (.str hopOpening) (.seq
    (.group 2 (.plus notQuote)) (.seq (.str "\", ".toList) _)))) _ _ ≠ [] → _
  rw [Re.run_group_plus_seq _ _ _ fun _ _ _ _ hd => run_hopOpening_of_space _ hd]
  split_ifs with h₁
  · exact fun h => absurd rfl h
  rw [Re.run_seq_str]
  split_ifs with h₂
  swap
  · exact fun h => absurd rfl h
  obtain ⟨u, hu⟩ := List.isPrefixOf_iff_prefix.1 h₂
  rw [← hu, Cursor.advance_append,
    Re.run_group_plus_seq _ _ _ fun _ d _ _ hd => by
      rw [Re.run_seq_str, if_neg]
      intro h
      obtain ⟨t, ht⟩ := List.isPrefixOf_iff_prefix.1 h
      cases congrArg List.head? ht
      simp [notQuote] at hd]
  split_ifs with h₃
  · exact fun h => absurd rfl h
  rw [Re.run_seq_str]
  split_ifs with h₄
  swap
  · exact fun h => absurd rfl h
  intro _
  obtain ⟨v, hv⟩ := List.isPrefixOf_iff_prefix.1 h₄
  have hsn : '"' ∉ u.takeWhile notQuote := fun m => absurd (List.mem_takeWhile_imp m) (by decide)
  have := (@hopAt_eq_some t _ _ ",".toList (' ' :: v)).2 ⟨h₁,
    fun c hc => List.mem_takeWhile_imp hc, h₃, hsn, .inr rfl, by
      have e := List.takeWhile_append_dropWhile isSpace t
      rw [← hu, ← List.takeWhile_append_dropWhile notQuote u, ← hv] at e
      exact e.symm.trans (by simp)⟩
  simp [this]

theorem pick_pattern2_of_hopAt {must : Bool} {q : Option Char} {t : Str} (ht : hopAt t = none) :
    pattern2.pick must ⟨q, t⟩ = none := by
  rw [Re.pick, show pattern2.run ⟨q, t⟩ [] = [] from
    Classical.byContradiction fun h => hopAt_of_run_pattern2 h ht]
  rfl

/-- A text in which no hop starts is its own first pass. -/
theorem firstPass_of_no_hop {s : Str} (h : ∀ t, t <:+ s → hopAt t = none) : firstPass s = s := by
  induction s with
  | nil => exact firstPass_nil
  | cons c cs ih =>
    rw [firstPass_cons (h _ (List.suffix_refl _)),
      ih fun t ht => h t (ht.trans (List.suffix_cons _ _))]

theorem fixFile_firstPass (content : Str) : fixFile content = .ok (firstPass content) := by
  obtain ⟨k, hk⟩ := subnWith_pattern content
  have h₂ : pattern2.subnWith fixWithType (firstPass content) 0 = .ok (firstPass content, 0) :=
    Re.subnLoop_of_no_match _ fixWithType (fun _ _ => rfl) _ _ _ _ _ fun t ht _ _ =>
      pick_pattern2_of_hopAt (hopAt_suffix_firstPass content t ht)
  rw [fixFile, hk]
  show Prod.fst <$> pattern2.subnWith fixWithType (firstPass content) 0 = _
  rw [h₂]
  rfl

/-- **`fix_with_type` never runs.** Whatever the file holds, the second
`re.sub` of `fix_file` finds nothing in the text the first one wrote: every
text `pattern2` is written for is a hop that `pattern` matches with the
comma, and the first pass leaves no hop behind. -/
theorem fixFile_eq_firstPass (content : Str) : fixFile content = .ok (firstPass content) :=
  fixFile_firstPass content

/-- Running `fix_hops.py` on its own output changes nothing. -/
theorem fixFile_idempotent (content : Str) : (fixFile content >>= fixFile) = fixFile content := by
  rw [fixFile_firstPass]
  show fixFile (firstPass content) = _
  rw [fixFile_firstPass, firstPass_of_no_hop (hopAt_suffix_firstPass content)]

end WhizbangScripts.Hops.FixHops
