import WhizbangScripts.Py.Str

/-!
# Python `re`, for the patterns the scripts use

* `Re`: the pattern syntax that occurs in the scripts: literals, character
  classes, greedy `*` over a class, sequence, alternation, capture groups,
  `^` and `\b`;
* `Re.run`: every way a pattern can match at a position, in the order the
  backtracking matcher of `re` tries them; the match `re` reports is the
  first;
* `Re.search`, `Re.matchAt`: `re.search` and `re.match`;
* `parseTemplate`, `expand`: the replacement templates of `re.sub`, as
  `re._parser.parse_template` and `expand_template` read them;
* `Re.subn`, `Re.subnWith`: `re.subn` with a template or with a function,
  including the rule that the search after an empty match must advance;
* `run_str`, `parseTemplate_plain`: a literal matches where it is a prefix,
  and a template without a backslash is its own text;
* `run_star_seq`, `run_plus_seq`, `run_group_plus_seq`: a greedy `[p]*` or
  `[p]+` followed by a pattern that fails where `p` holds matches the
  longest run of `p` only; `ne_nil_seq_str`, `ne_nil_plus_seq`,
  `ne_nil_seq_lit`: what a match of such a sequence requires of the text;
* `subnLoop_of_pick_some`, `subnLoop_of_pick_none`: the loop of `re.subn`
  one position at a time; `subnLoop_of_no_match`: where nothing matches,
  the text is left as it is;
* `subnLoop_fuel_eq`, `subnWith_eq_subnLoop`: for every pattern, the fuel
  of `subnWith` is never exhausted, since each match moves the search on or
  makes the next one move on.
-/

namespace WhizbangScripts.Py

/-- A position in the subject: the character just before it (`none` at the
start of the subject), which `^` and `\b` read, and the text after it. -/
structure Cursor where
  prev : Option Char
  rest : Str
  deriving DecidableEq, Repr

/-- The cursor `k` characters further on, or at the end of the subject. -/
def Cursor.advance : Cursor → Nat → Cursor
  | c, 0 => c
  | ⟨p, []⟩, _ + 1 => ⟨p, []⟩
  | ⟨_, d :: ds⟩, k + 1 => Cursor.advance ⟨some d, ds⟩ k

/-- The text from `c` up to the later cursor `c'`. -/
def Cursor.upTo (c c' : Cursor) : Str :=
  c.rest.take (c.rest.length - c'.rest.length)

/-- `\b` at `c`: exactly one of the characters on either side is a word
character. Python's table of word characters is the parameter `word`. -/
def Cursor.atBoundary (word : Char → Bool) (c : Cursor) : Bool :=
  (c.prev.map word == some true) != (c.rest.head?.map word == some true)

/-- Group captures of one attempt, the latest first. -/
abbrev Captures := List (Nat × Str)

/-- The pattern syntax the scripts use. `star p` is the greedy `[p]*`. -/
inductive Re where
  | lit (c : Char)
  | cls (p : Char → Bool)
  | star (p : Char → Bool)
  | seq (a b : Re)
  | alt (a b : Re)
  | group (n : Nat) (r : Re)
  | start
  | wordBoundary (word : Char → Bool)
  | empty

namespace Re

/-- Every way `r` can match at `cur`, in the order in which the backtracking
matcher tries them; the match `re` reports is the first. -/
def run : Re → Cursor → Captures → List (Cursor × Captures)
  | lit c, ⟨_, d :: ds⟩, g => if d = c then [(⟨some d, ds⟩, g)] else []
  | lit _, ⟨_, []⟩, _ => []
  | cls p, ⟨_, d :: ds⟩, g => if p d then [(⟨some d, ds⟩, g)] else []
  | cls _, ⟨_, []⟩, _ => []
  | star p, cur, g =>
    (List.range ((cur.rest.takeWhile p).length + 1)).reverse.map fun k => (cur.advance k, g)
  | seq a b, cur, g => (a.run cur g).flatMap fun m => b.run m.1 m.2
  | alt a b, cur, g => a.run cur g ++ b.run cur g
  | group n r, cur, g => (r.run cur g).map fun m => (m.1, (n, cur.upTo m.1) :: m.2)
  | start, cur, g => if cur.prev = none then [(cur, g)] else []
  | wordBoundary word, cur, g => if cur.atBoundary word then [(cur, g)] else []
  | empty, cur, g => [(cur, g)]

/-- The literal string `s`. -/
def str : Str → Re
  | [] => empty
  | [c] => lit c
  | c :: cs => seq (lit c) (str cs)

/-- `[p]+`. -/
def plus (p : Char → Bool) : Re := seq (cls p) (star p)

/-- `r?`, greedy. -/
def opt (r : Re) : Re := alt r empty

/-- A sequence of patterns. -/
def seqs : List Re → Re
  | [] => empty
  | [r] => r
  | r :: rs => seq r (seqs rs)

/-- The number of capture groups, as the compiled pattern counts them. -/
def groups : Re → Nat
  | seq a b | alt a b => max a.groups b.groups
  | group n r => max n r.groups
  | _ => 0

end Re

/-- A successful match: the text skipped between the search start and the
match, the matched text, the groups and the cursor after the match. -/
structure Match where
  skipped : Str
  text : Str
  groups : Captures
  after : Cursor
  deriving DecidableEq, Repr

/-- `m.group(n)`; `none` when group `n` took no part in the match. -/
def Match.group (m : Match) (n : Nat) : Option Str :=
  if n = 0 then some m.text else m.groups.lookup n

namespace Re

/-- The first candidate at `cur`; when `must` holds, the first that is not
empty (the search right after an empty match must advance). -/
def pick (r : Re) (must : Bool) (cur : Cursor) : Option (Cursor × Captures) :=
  ((r.run cur []).filter fun m => !must || m.1.rest.length < cur.rest.length).head?

/-- The search loop of `re`: the first position from `prev`/`s` on where `r`
matches; `must` applies to the first position only. -/
def searchFrom (r : Re) (must : Bool) (prev : Option Char) : Str → Option Match
  | [] => (r.pick must ⟨prev, []⟩).map fun m => ⟨[], [], m.2, m.1⟩
  | d :: ds =>
    match r.pick must ⟨prev, d :: ds⟩ with
    | some m => some ⟨[], Cursor.upTo ⟨prev, d :: ds⟩ m.1, m.2, m.1⟩
    | none => (searchFrom r false (some d) ds).map fun m => { m with skipped := d :: m.skipped }

/-- `re.search(r, s)`. -/
def search (r : Re) (s : Str) : Option Match :=
  r.searchFrom false none s

/-- `re.match(r, s)`: a match at the start of `s` only. -/
def matchAt (r : Re) (s : Str) : Option Match :=
  (r.pick false ⟨none, s⟩).map fun m => ⟨[], Cursor.upTo ⟨none, s⟩ m.1, m.2, m.1⟩

end Re

/-! ## Replacement templates -/

/-- A parsed template: literal text and group references. -/
inductive Piece where
  | text (s : Str)
  | ref (n : Nat)
  deriving DecidableEq, Repr

/-- The value of a one-letter escape of `ESCAPES`, if it is one. -/
def escapeChar : Char → Option Char
  | 'a' => some '\x07'
  | 'b' => some '\x08'
  | 'f' => some '\x0c'
  | 'n' => some '\n'
  | 'r' => some '\r'
  | 't' => some '\t'
  | 'v' => some '\x0b'
  | '\\' => some '\\'
  | _ => none

def isOctDigit (c : Char) : Bool := '0' ≤ c && c ≤ '7'

/-- `addgroup`: a reference to a group the pattern does not have is an error. -/
def groupRef (groups n : Nat) : Except PyError Piece :=
  if n ≤ groups then pure (.ref n) else throw (.reError "invalid group reference")

/-- `str.isidentifier` on names of ASCII characters: a letter or `_`, then
letters, digits and `_`. Python's tables of non-ASCII identifier characters
are not modelled: a non-ASCII character counts as no identifier character. -/
def isIdentifier : Str → Bool
  | c :: cs => (c.isAlpha || c == '_') && cs.all fun d => d.isAlphanum || d == '_'
  | [] => false

/-- The name of `\g<name>`: ASCII decimal digits give a group number. The
pattern has no named groups, so every other name is an error: `IndexError`
for an identifier, a bad character otherwise. -/
def namedRef (groups : Nat) (name : Str) : Except PyError Piece :=
  if name = [] then throw (.reError "missing group name")
  else if name.all Char.isDigit then
    groupRef groups (name.foldl (fun n d => 10 * n + digitValue d) 0)
  else if isIdentifier name then throw (.indexError "unknown group name")
  else throw (.reError "bad character in group name")

/-- A one-character escape `\d` that is not a digit: an `ESCAPES` entry, an
error for another ASCII letter, the two characters unchanged otherwise. -/
def escapeText (d : Char) : Except PyError Str :=
  match escapeChar d with
  | some c => pure [c]
  | none => if d.isAlpha then throw (.reError "bad escape") else pure ['\\', d]

/-- What `Tokenizer.__next` raises on a backslash that ends the template. -/
def endOfPattern : PyError := .reError "bad escape (end of pattern)"

/-- The tokenizer reads one token ahead: once a step has taken its tokens
and `rest` is left, a lone backslash at the end is an error, raised before
any error of the step itself. -/
def lookahead {α : Type} (rest : Str) (k : Except PyError α) : Except PyError α :=
  if rest = ['\\'] then throw endOfPattern else k

/-- `parse_template`: `name` is `some` inside `\g<...>` (`getuntil`),
holding the tokens read so far. A token is a character, or a backslash and
the character after it. -/
def parseTemplate (groups : Nat) : Option Str → Str → Except PyError (List Piece)
  | _, ['\\'] => throw endOfPattern
  | some name, [] =>
    throw (.reError (if name = [] then "missing group name" else "missing >, unterminated name"))
  | some name, '>' :: rest => lookahead rest do
    let p ← namedRef groups name
    return p :: (← parseTemplate groups none rest)
  | some name, '\\' :: c :: rest => parseTemplate groups (some (name ++ ['\\', c])) rest
  | some name, c :: rest => parseTemplate groups (some (name ++ [c])) rest
  | none, [] => pure []
  | none, '\\' :: 'g' :: '<' :: rest => parseTemplate groups (some []) rest
  | none, '\\' :: 'g' :: rest => lookahead rest (throw (.reError "missing <"))
  | none, '\\' :: '0' :: a :: b :: rest =>
    if isOctDigit a ∧ isOctDigit b then
      (.text [Char.ofNat (8 * digitValue a + digitValue b)] :: ·) <$>
        parseTemplate groups none rest
    else if isOctDigit a then
      (.text [Char.ofNat (digitValue a)] :: ·) <$> parseTemplate groups none (b :: rest)
    else (.text [Char.ofNat 0] :: ·) <$> parseTemplate groups none (a :: b :: rest)
  | none, ['\\', '0', a] =>
    if isOctDigit a then pure [.text [Char.ofNat (digitValue a)]]
    else (.text [Char.ofNat 0] :: ·) <$> parseTemplate groups none [a]
  | none, ['\\', '0'] => pure [.text [Char.ofNat 0]]
  | none, '\\' :: d :: e :: f :: rest =>
    if d.isDigit ∧ e.isDigit then
      if isOctDigit d ∧ isOctDigit e ∧ isOctDigit f then lookahead rest do
        let v := 64 * digitValue d + 8 * digitValue e + digitValue f
        if v ≤ 0o377 then (.text [Char.ofNat v] :: ·) <$> parseTemplate groups none rest
        else throw (.reError "octal escape value outside of range 0-0o377")
      else lookahead (f :: rest) do
        let p ← groupRef groups (10 * digitValue d + digitValue e)
        return p :: (← parseTemplate groups none (f :: rest))
    else if d.isDigit then do
      let p ← groupRef groups (digitValue d)
      return p :: (← parseTemplate groups none (e :: f :: rest))
    else do
      let t ← escapeText d
      return .text t :: (← parseTemplate groups none (e :: f :: rest))
  | none, ['\\', d, e] =>
    if d.isDigit ∧ e.isDigit then return [← groupRef groups (10 * digitValue d + digitValue e)]
    else if d.isDigit then lookahead [e] do
      let p ← groupRef groups (digitValue d)
      return p :: (← parseTemplate groups none [e])
    else lookahead [e] do
      let t ← escapeText d
      return .text t :: (← parseTemplate groups none [e])
  | none, ['\\', d] =>
    if d.isDigit then return [← groupRef groups (digitValue d)]
    else return [.text (← escapeText d)]
  | none, c :: rest => (.text [c] :: ·) <$> parseTemplate groups none rest

/-- `expand_template`: a group that took no part in the match gives `''`. -/
def expand (pieces : List Piece) (m : Match) : Str :=
  pieces.flatMap fun
    | .text s => s
    | .ref n => (m.group n).getD []

namespace Re

/-- The loop of `re.subn`: `n` replacements made so far; `count = 0` means no
limit. The fuel `2 * len + 2` of `subnWith` is never exhausted
(`subnWith_eq_subnLoop`). -/
def subnLoop (r : Re) (repl : Match → Except PyError Str) (count : Nat) :
    Nat → Nat → Bool → Cursor → Except PyError (Str × Nat)
  | 0, n, _, cur => pure (cur.rest, n)
  | fuel + 1, n, must, cur =>
    if count ≠ 0 ∧ count ≤ n then pure (cur.rest, n) else
    match r.searchFrom must cur.prev cur.rest with
    | none => pure (cur.rest, n)
    | some m => do
      let piece ← repl m
      let (tail, n') ← subnLoop r repl count fuel (n + 1) m.text.isEmpty m.after
      return (m.skipped ++ piece ++ tail, n')

/-- `re.subn(r, f, s, count)` with a replacement function. -/
def subnWith (r : Re) (f : Match → Except PyError Str) (s : Str) (count : Nat) :
    Except PyError (Str × Nat) :=
  r.subnLoop f count (2 * s.length + 2) 0 false ⟨none, s⟩

/-- `re.subn(r, template, s, count)`: the template is parsed before the search. -/
def subn (r : Re) (template : Str) (s : Str) (count : Nat) : Except PyError (Str × Nat) := do
  let pieces ← parseTemplate r.groups none template
  r.subnWith (fun m => pure (expand pieces m)) s count

/-- `re.sub(r, template, s, count)`. -/
def sub (r : Re) (template : Str) (s : Str) (count : Nat) : Except PyError Str :=
  Prod.fst <$> r.subn template s count

end Re

/-! ## Lemmas: literals, and the search loop of `re.subn` one position at a time -/

@[simp] theorem Cursor.advance_zero (c : Cursor) : c.advance 0 = c := by
  rcases c with ⟨p, _ | ⟨d, ds⟩⟩ <;> rfl

theorem Cursor.advance_append (p : Option Char) (w t : Str) :
    (⟨p, w ++ t⟩ : Cursor).advance w.length = ⟨w.getLast?.or p, t⟩ := by
  induction w generalizing p with
  | nil => simp
  | cons a w ih =>
    rw [List.cons_append, List.length_cons, Cursor.advance, ih, List.getLast?_cons]
    cases w.getLast? <;> rfl

theorem Cursor.advance_rest (c : Cursor) (k : Nat) : (c.advance k).rest = c.rest.drop k := by
  induction k generalizing c with
  | zero => simp
  | succ k ih => rcases c with ⟨p, _ | ⟨d, ds⟩⟩ <;> simp [Cursor.advance, ih]

theorem Cursor.upTo_append (q p : Option Char) (w t : Str) :
    Cursor.upTo ⟨q, w ++ t⟩ ⟨p, t⟩ = w := by
  simp [Cursor.upTo]

theorem flatMap_range_succ_reverse {α : Type} (L : Nat) (f : Nat → List α)
    (h : ∀ k < L, f k = []) : ((List.range (L + 1)).reverse).flatMap f = f L := by
  rw [List.range_succ, List.reverse_append, List.reverse_singleton, List.singleton_append,
    List.flatMap_cons, List.flatMap_eq_nil_iff.2 fun k hk => h k (by simpa using hk),
    List.append_nil]

namespace Re

theorem run_lit (c : Char) (p : Option Char) (s : Str) (g : Captures) :
    (lit c).run ⟨p, s⟩ g = if [c].isPrefixOf s then [((⟨p, s⟩ : Cursor).advance 1, g)] else [] := by
  cases s with
  | nil => rfl
  | cons d ds =>
    show (if d = c then [((⟨some d, ds⟩ : Cursor), g)] else []) = _
    by_cases h : d = c
    · subst h; simp [List.isPrefixOf, Cursor.advance]
    · simp [h, List.isPrefixOf, Ne.symm h]

theorem run_str (w : Str) (p : Option Char) (s : Str) (g : Captures) :
    (str w).run ⟨p, s⟩ g = if w.isPrefixOf s then [((⟨p, s⟩ : Cursor).advance w.length, g)] else [] := by
  induction w using str.induct generalizing p s with
  | case1 => simp [str, run, List.isPrefixOf]
  | case2 c => exact run_lit c p s g
  | case3 c cs hne ih =>
    rw [str.eq_3 _ _ hne]
    cases s with
    | nil => rfl
    | cons e es =>
      show ((lit c).run _ _).flatMap _ = _
      rw [run_lit]
      by_cases h : c = e
      · subst h; simp [List.isPrefixOf, Cursor.advance, ih]
      · simp [h, List.isPrefixOf]

theorem run_seq_str (w : Str) (b : Re) (q : Option Char) (s : Str) (g : Captures) :
    (seq (str w) b).run ⟨q, s⟩ g =
      if w.isPrefixOf s then b.run ((⟨q, s⟩ : Cursor).advance w.length) g else [] := by
  show ((str w).run _ _).flatMap _ = _
  rw [run_str]; split <;> simp

theorem run_seq_lit (c : Char) (b : Re) (q : Option Char) (s : Str) (g : Captures) :
    (seq (lit c) b).run ⟨q, s⟩ g = match s with
      | d :: ds => if d = c then b.run ⟨some d, ds⟩ g else []
      | [] => [] := by
  cases s with
  | nil => rfl
  | cons d ds => by_cases h : d = c <;> simp [run, h]

/-- A greedy `[p]+` in group `n`, followed by a pattern that fails where `p`
holds, matches the longest run of `p` and nothing shorter. -/
theorem run_group_plus_seq (n : Nat) (p : Char → Bool) (b : Re)
    (hb : ∀ q d ds g, p d = true → b.run ⟨q, d :: ds⟩ g = []) (q : Option Char) (s : Str)
    (g : Captures) :
    (seq (group n (plus p)) b).run ⟨q, s⟩ g =
      if s.takeWhile p = [] then [] else
        b.run ⟨(s.takeWhile p).getLast?, s.dropWhile p⟩ ((n, s.takeWhile p) :: g) := by
  cases s with
  | nil => rfl
  | cons d ds =>
    by_cases hd : p d = true
    · have htw : (d :: ds).takeWhile p = d :: ds.takeWhile p := by simp [List.takeWhile_cons, hd]
      have hdw : (d :: ds).dropWhile p = ds.dropWhile p := by simp [List.dropWhile_cons, hd]
      rw [if_neg (by simp [htw]), htw, hdw]
      show ((((cls p).run ⟨q, d :: ds⟩ g).flatMap fun m => (star p).run m.1 m.2).map _).flatMap _ = _
      simp only [run, hd, if_true, List.flatMap_cons, List.flatMap_nil, List.append_nil,
        List.map_map, List.flatMap_map]
      have hsplit := List.takeWhile_append_dropWhile p ds
      rw [flatMap_range_succ_reverse]
      · have hadv : (⟨some d, ds⟩ : Cursor).advance (ds.takeWhile p).length =
            ⟨(d :: ds.takeWhile p).getLast?, ds.dropWhile p⟩ := by
          conv_lhs => enter [1, 2]; rw [← hsplit]
          rw [Cursor.advance_append, List.getLast?_cons]
          cases (ds.takeWhile p).getLast? <;> rfl
        have hup : Cursor.upTo ⟨q, d :: ds⟩ ⟨(d :: ds.takeWhile p).getLast?, ds.dropWhile p⟩ =
            d :: ds.takeWhile p := by
          rw [show d :: ds = (d :: ds.takeWhile p) ++ ds.dropWhile p by rw [List.cons_append, hsplit],
            Cursor.upTo_append]
        simp only [Function.comp, hadv, hup]
      · intro k hk
        have hrest : ((⟨some d, ds⟩ : Cursor).advance k).rest =
            (ds.takeWhile p)[k] :: ((ds.takeWhile p).drop (k + 1) ++ ds.dropWhile p) := by
          rw [Cursor.advance_rest]
          conv_lhs => enter [2]; rw [← hsplit]
          rw [List.drop_append_of_le_length hk.le, List.drop_eq_getElem_cons hk, List.cons_append]
        simp only [Function.comp]
        rw [show (⟨some d, ds⟩ : Cursor).advance k = ⟨_, _⟩ from rfl, hrest]
        exact hb _ _ _ _ (List.mem_takeWhile_imp (List.getElem_mem hk))
    · have : (d :: ds).takeWhile p = [] := by simp [List.takeWhile_cons, hd]
      rw [if_pos this]
      simp [run, plus, hd]

/-- A greedy `[p]*` followed by a pattern that fails where `p` holds
matches the longest run of `p` only. -/
theorem run_star_seq (p : Char → Bool) (b : Re)
    (hb : ∀ q d ds g, p d = true → b.run ⟨q, d :: ds⟩ g = []) (cur : Cursor) (g : Captures) :
    (seq (star p) b).run cur g = b.run (cur.advance (cur.rest.takeWhile p).length) g := by
  show (((List.range _).reverse.map _).flatMap _) = _
  rw [List.flatMap_map, flatMap_range_succ_reverse]
  intro k hk
  have hrest : (cur.advance k).rest =
      (cur.rest.takeWhile p)[k] :: ((cur.rest.takeWhile p).drop (k + 1) ++ cur.rest.dropWhile p) := by
    rw [Cursor.advance_rest]
    conv_lhs => enter [2]; rw [← List.takeWhile_append_dropWhile p cur.rest]
    rw [List.drop_append_of_le_length hk.le, List.drop_eq_getElem_cons hk, List.cons_append]
  rw [show cur.advance k = ⟨(cur.advance k).prev, (cur.advance k).rest⟩ from rfl, hrest]
  exact hb _ _ _ _ (List.mem_takeWhile_imp (List.getElem_mem hk))

/-- A greedy `[p]+` followed by a pattern that fails where `p` holds
matches the longest run of `p` only, and nothing where `p` fails at once. -/
theorem run_plus_seq (p : Char → Bool) (b : Re)
    (hb : ∀ q d ds g, p d = true → b.run ⟨q, d :: ds⟩ g = []) (cur : Cursor) (g : Captures) :
    (seq (plus p) b).run cur g =
      if cur.rest.takeWhile p = [] then [] else b.run (cur.advance (cur.rest.takeWhile p).length) g := by
  rcases cur with ⟨q, _ | ⟨d, ds⟩⟩
  · rfl
  · show ((((cls p).run ⟨q, d :: ds⟩ g).flatMap fun m => (star p).run m.1 m.2).flatMap _) = _
    by_cases hd : p d = true
    · simp only [run, hd, if_true, List.flatMap_cons, List.flatMap_nil, List.append_nil,
        List.takeWhile_cons, List.length_cons, reduceCtorEq, if_false]
      exact run_star_seq p b hb ⟨some d, ds⟩ g
    · simp [run, hd, List.takeWhile_cons]

/-- What a match of a literal, then `b`, requires of the text. -/
theorem ne_nil_seq_str {w : Str} {b : Re} {cur : Cursor} {g : Captures}
    (h : (seq (str w) b).run cur g ≠ []) :
    w.isPrefixOf cur.rest ∧ b.run (cur.advance w.length) g ≠ [] := by
  rw [run_seq_str] at h
  split at h
  · exact ⟨by assumption, h⟩
  · exact absurd rfl h

/-- What a match of `[p]+`, then `b`, requires of the text. -/
theorem ne_nil_plus_seq {p : Char → Bool} {b : Re}
    (hb : ∀ q d ds g, p d = true → b.run ⟨q, d :: ds⟩ g = []) {cur : Cursor} {g : Captures}
    (h : (seq (plus p) b).run cur g ≠ []) :
    cur.rest.takeWhile p ≠ [] ∧ b.run (cur.advance (cur.rest.takeWhile p).length) g ≠ [] := by
  rw [run_plus_seq p b hb] at h
  split at h
  · exact absurd rfl h
  · exact ⟨by assumption, h⟩

/-- What a match of the character `c`, then `b`, requires of the text. -/
theorem ne_nil_seq_lit {c : Char} {b : Re} {cur : Cursor} {g : Captures}
    (h : (seq (lit c) b).run cur g ≠ []) :
    ∃ ds, cur.rest = c :: ds ∧ b.run ⟨some c, ds⟩ g ≠ [] := by
  rcases cur with ⟨q, _ | ⟨d, ds⟩⟩
  · exact absurd rfl h
  · simp only [run_seq_lit] at h
    split at h
    · subst_vars; exact ⟨ds, rfl, h⟩
    · exact absurd rfl h

end Re

theorem drop_takeWhile_length (p : Char → Bool) (l : Str) :
    l.drop (l.takeWhile p).length = l.dropWhile p := by
  induction l with
  | nil => rfl
  | cons d ds ih => cases hd : p d <;> simp [List.takeWhile_cons, List.dropWhile_cons, hd, ih]

theorem parseTemplate_cons {groups : Nat} {c : Char} (h : c ≠ '\\') (rest : Str) :
    parseTemplate groups none (c :: rest) = (.text [c] :: ·) <$> parseTemplate groups none rest := by
  rw [parseTemplate] <;> intros <;> contradiction

/-- A template without a backslash is its own text. -/
theorem parseTemplate_plain (groups : Nat) {t : Str} (h : '\\' ∉ t) :
    parseTemplate groups none t = pure (t.map fun c => .text [c]) := by
  induction t with
  | nil => rfl
  | cons c t ih =>
    rw [List.mem_cons, not_or] at h
    rw [parseTemplate_cons (Ne.symm h.1), ih h.2]
    rfl

@[simp] theorem expand_plain (t : Str) (m : Match) : expand (t.map fun c => .text [c]) m = t := by
  induction t with
  | nil => rfl
  | cons c t ih => simpa [expand] using ih

namespace Re

theorem subnLoop_nil (r : Re) (repl : Match → Except PyError Str) (fuel n : Nat) (must : Bool)
    (p : Option Char) (h : r.pick must ⟨p, []⟩ = none) :
    r.subnLoop repl 0 (fuel + 1) n must ⟨p, []⟩ = pure ([], n) := by
  simp [subnLoop, searchFrom, h]

theorem subnLoop_of_pick_some (r : Re) (repl : Match → Except PyError Str) (fuel n : Nat)
    (must : Bool) (p : Option Char) (s : Str) {after : Cursor} {g : Captures}
    (h : r.pick must ⟨p, s⟩ = some (after, g)) :
    r.subnLoop repl 0 (fuel + 1) n must ⟨p, s⟩ = do
      let piece ← repl ⟨[], Cursor.upTo ⟨p, s⟩ after, g, after⟩
      let (tail, n') ← r.subnLoop repl 0 fuel (n + 1) (Cursor.upTo ⟨p, s⟩ after).isEmpty after
      return (piece ++ tail, n') := by
  cases s <;> simp [subnLoop, searchFrom, h, Cursor.upTo]

/-- With no match at the first position the search moves on one character;
the replacement must not read the skipped text. -/
theorem subnLoop_of_pick_none (r : Re) (repl : Match → Except PyError Str)
    (hrepl : ∀ m d, repl { m with skipped := d :: m.skipped } = repl m)
    (count fuel n : Nat) (must : Bool) (p : Option Char) (c : Char) (cs : Str)
    (h : r.pick must ⟨p, c :: cs⟩ = none) :
    r.subnLoop repl count (fuel + 1) n must ⟨p, c :: cs⟩ =
      (fun x => (c :: x.1, x.2)) <$> r.subnLoop repl count (fuel + 1) n false ⟨some c, cs⟩ := by
  simp only [subnLoop]
  split
  · rfl
  · rw [searchFrom, h]
    cases r.searchFrom false (some c) cs with
    | none => rfl
    | some m =>
      simp only [Option.map_some', hrepl]
      cases repl m with
      | error e => rfl
      | ok piece =>
        cases r.subnLoop repl count fuel (n + 1) m.text.isEmpty m.after <;> rfl

/-- Where `r` matches at no position, the loop of `re.subn` leaves the text
as it is. -/
theorem subnLoop_of_no_match (r : Re) (repl : Match → Except PyError Str)
    (hrepl : ∀ m d, repl { m with skipped := d :: m.skipped } = repl m) (fuel n : Nat)
    (s : Str) : ∀ (must : Bool) (p : Option Char),
      (∀ t, t <:+ s → ∀ must p, r.pick must ⟨p, t⟩ = none) →
        r.subnLoop repl 0 (fuel + 1) n must ⟨p, s⟩ = pure (s, n) := by
  induction s with
  | nil => exact fun must p h => subnLoop_nil _ _ _ _ _ _ (h _ List.nil_suffix _ _)
  | cons c cs ih =>
    intro must p h
    rw [subnLoop_of_pick_none _ _ hrepl _ _ _ _ _ _ _ (h _ (List.suffix_refl _) _ _),
      ih _ _ fun t ht => h t (ht.trans (List.suffix_cons _ _))]
    rfl

/-! ## The fuel of `re.subn` -/

/-- A match never ends before the position it starts at. -/
theorem run_rest_length_le : ∀ (r : Re) (cur : Cursor) (g : Captures), ∀ m ∈ r.run cur g,
    m.1.rest.length ≤ cur.rest.length
  | lit c, ⟨_, d :: ds⟩, g, m, hm | cls c, ⟨_, d :: ds⟩, g, m, hm => by
    simp only [run] at hm; split at hm <;> simp_all
  | star p, cur, g, m, hm => by
    simp only [run, List.mem_map] at hm
    obtain ⟨k, -, rfl⟩ := hm
    simp [Cursor.advance_rest]
  | seq a b, cur, g, m, hm => by
    simp only [run, List.mem_flatMap] at hm
    obtain ⟨m', hm', hm⟩ := hm
    exact (run_rest_length_le b _ _ m hm).trans (run_rest_length_le a cur g m' hm')
  | alt a b, cur, g, m, hm => by
    simp only [run, List.mem_append] at hm
    exact hm.elim (run_rest_length_le a cur g m) (run_rest_length_le b cur g m)
  | group n r, cur, g, m, hm => by
    simp only [run, List.mem_map] at hm
    obtain ⟨m', hm', rfl⟩ := hm
    exact run_rest_length_le r cur g m' hm'
  | start, cur, g, m, hm | wordBoundary _, cur, g, m, hm => by
    simp only [run] at hm; split at hm <;> simp_all
  | empty, cur, g, m, hm => by simp_all [run]

theorem pick_rest_length {r : Re} {must : Bool} {cur : Cursor} {m : Cursor × Captures}
    (h : r.pick must cur = some m) :
    m.1.rest.length ≤ cur.rest.length ∧ (must = true → m.1.rest.length < cur.rest.length) := by
  obtain ⟨hm, hlt⟩ := List.mem_filter.1 (List.mem_of_mem_head? h)
  exact ⟨run_rest_length_le r cur [] m hm, fun hmust => by simpa [hmust] using hlt⟩

/-- A match found by the search ends no later than the text; it ends before
the end of the text when it is not empty, or when the search had to advance. -/
theorem searchFrom_after_length (r : Re) :
    ∀ (must : Bool) (prev : Option Char) (s : Str) (m : Match), r.searchFrom must prev s = some m →
      m.after.rest.length ≤ s.length ∧
        (must = true ∨ m.text.isEmpty = false → m.after.rest.length < s.length)
  | must, prev, [], m, h => by
    rw [searchFrom, Option.map_eq_some'] at h
    obtain ⟨p, hp, rfl⟩ := h
    have := pick_rest_length hp
    refine ⟨this.1, ?_⟩
    rintro (hmust | hne)
    · exact this.2 hmust
    · cases hne
  | must, prev, d :: ds, m, h => by
    rw [searchFrom] at h
    split at h
    · next p hp =>
      cases h
      have := pick_rest_length hp
      refine ⟨this.1, ?_⟩
      rintro (hmust | hne)
      · exact this.2 hmust
      · simp only [Cursor.upTo, List.isEmpty_eq_false, ne_eq, List.take_eq_nil_iff, not_or,
          List.length_cons] at hne this ⊢
        omega
    · rw [Option.map_eq_some'] at h
      obtain ⟨m', hm', rfl⟩ := h
      have := (searchFrom_after_length r false (some d) ds m' hm').1
      simp only [List.length_cons]
      omega

/-- What is left to do from `cur`: two steps per character, one more while
an empty match may still be taken. -/
def subnWork (must : Bool) (cur : Cursor) : Nat := 2 * cur.rest.length + if must then 0 else 1

theorem subnWork_searchFrom_lt {r : Re} {must : Bool} {cur : Cursor} {m : Match}
    (h : r.searchFrom must cur.prev cur.rest = some m) :
    subnWork m.text.isEmpty m.after < subnWork must cur := by
  obtain ⟨hle, hlt⟩ := searchFrom_after_length r must cur.prev cur.rest m h
  unfold subnWork
  cases must <;> cases he : m.text.isEmpty <;> simp_all <;> omega

/-- **Enough fuel gives one result.** From any position, the loop of
`re.subn` returns the same with any fuel above `subnWork`, for every pattern:
each match moves the search on, or is empty and makes the next one move on. -/
theorem subnLoop_fuel_eq (r : Re) (repl : Match → Except PyError Str) (count : Nat) :
    ∀ (fuel₁ fuel₂ n : Nat) (must : Bool) (cur : Cursor),
      subnWork must cur < fuel₁ → subnWork must cur < fuel₂ →
      r.subnLoop repl count fuel₁ n must cur = r.subnLoop repl count fuel₂ n must cur
  | fuel₁ + 1, fuel₂ + 1, n, must, cur, h₁, h₂ => by
    simp only [subnLoop]
    split
    · rfl
    · split
      · rfl
      · next m hm =>
        have := subnWork_searchFrom_lt hm
        rw [subnLoop_fuel_eq r repl count fuel₁ fuel₂ (n + 1) _ _ (by omega) (by omega)]

/-- The fuel `2 * len + 2` of `subnWith` is never exhausted: any more gives
the same result. -/
theorem subnWith_eq_subnLoop (r : Re) (f : Match → Except PyError Str) (s : Str)
    (count fuel : Nat) (h : 2 * s.length + 2 ≤ fuel) :
    r.subnWith f s count = r.subnLoop f count fuel 0 false ⟨none, s⟩ :=
  subnLoop_fuel_eq r f count _ _ 0 false _ (by simp [subnWork]) (by simp [subnWork]; omega)

end Re

end WhizbangScripts.Py
