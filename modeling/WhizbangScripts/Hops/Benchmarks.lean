import Mathlib.Data.List.Infix
import WhizbangScripts.Hops.MessageHops

/-!
# fix_benchmarks.py

`fix_file` rewrites one-line `MessageHop` initializers of the benchmarks
with two `re.subn` passes, each with a replacement function: `pattern1`
for a `ServiceName` followed by a comma, then `pattern2` for a
`ServiceName` followed by the closing brace.

* `pattern1`, `pattern2`, `replace1`, `replace2`, `rewrite`: the two passes;
* `fixFile`: what `fix_file` writes back and returns;
* `pattern1_captures_brace`: `pattern1` reads the closing brace of a
  one-line hop into the `ServiceName` it writes;
* `startsHop`, `startsHop_of_run`: the text every match of the two
  patterns starts with, read off the patterns;
* `fixFile_of_no_hop`: a file in which no such text starts is left alone,
  the initializers `fix_file` writes included.
-/

namespace WhizbangScripts.Hops.FixBenchmarks
open Py

/-- `[^,\n}]`. -/
def notCommaNewlineBrace (c : Char) : Bool := c != ',' && c != '\n' && c != '}'

/-- `new\s+MessageHop\s*\{\s*ServiceName\s*=\s*`, the part the two patterns share. -/
def hopServiceName : List Re :=
  [.str "new".toList, .plus isSpace, .str "MessageHop".toList, .star isSpace, .lit '{',
    .star isSpace, .str "ServiceName".toList, .star isSpace, .lit '=', .star isSpace]

/-- `pattern1`: `...ServiceName\s*=\s*([^,\n]+)\s*,\s*`. -/
def pattern1 : Re :=
  .seqs (hopServiceName ++ [.group 1 (.plus notCommaNewline), .star isSpace, .lit ',', .star isSpace])

/-- `pattern2`: `...ServiceName\s*=\s*([^,\n}]+)\s*\}`. -/
def pattern2 : Re :=
  .seqs (hopServiceName ++ [.group 1 (.plus notCommaNewlineBrace), .star isSpace, .lit '}'])

/-- The initializer both replacement functions write, up to the brace that
closes `ServiceInstanceInfo`, then `tail`. -/
def hopInitializer (serviceName tail : Str) : Str :=
  "new MessageHop \x7b\n      ServiceInstance = new ServiceInstanceInfo \x7b\n        ServiceName = ".toList ++
    serviceName ++
    ",\n        InstanceId = Guid.NewGuid(),\n        HostName = \"benchmark-host\",\n        ProcessId = 12345\n      \x7d".toList ++
    tail

/-- `replace1`: the initializer, then `,` and the indentation of the next field. -/
def replace1 (m : Match) : Except PyError Str :=
  pure (hopInitializer (strip ((m.group 1).getD [])) ",\n      ".toList)

/-- `replace2`: the initializer, then the brace that closes the hop. -/
def replace2 (m : Match) : Except PyError Str :=
  pure (hopInitializer (strip ((m.group 1).getD [])) "\n    \x7d".toList)

/-- The two passes of `fix_file` on the text of a file: the new text and
`changes`. -/
def rewrite (content : Str) : Except PyError (Str × Nat) := do
  let (content, count1) ← pattern1.subnWith replace1 content 0
  let (content, count2) ← pattern2.subnWith replace2 content 0
  return (content, count1 + count2)

/-- `fix_file` on a file holding `content`: the text written back, if any,
and the value returned. An exception is caught and gives 0. -/
def fixFile (content : Str) : Option Str × Nat :=
  match rewrite content with
  | .ok (new, changes) => if 0 < changes ∧ new ≠ content then (some new, changes) else (none, 0)
  | .error _ => (none, 0)

set_option maxRecDepth 20000 in
/-- On a one-line hop followed by a comma, `[^,\n]+` in `pattern1` runs up to
the comma and takes the closing brace of the hop into the `ServiceName` it
writes: the brace then closes `ServiceInstanceInfo` early. -/
theorem pattern1_captures_brace :
    fixFile "new MessageHop \x7b ServiceName = \"svc\" \x7d,".toList =
      (some (hopInitializer "\"svc\" \x7d".toList ",\n      ".toList), 1) := by
  decide

/-! ## Files with no hop to fix -/

/-- `new\s+MessageHop\s*\{\s*ServiceName` at the start of `s`: the text every
match of the two patterns begins with. -/
def startsHop (s : Str) : Bool :=
  let afterNew := s.drop 3
  let afterHop := (afterNew.dropWhile isSpace).drop 10
  let afterBrace := (afterHop.dropWhile isSpace).drop 1
  "new".toList.isPrefixOf s && afterNew.takeWhile isSpace != [] &&
    "MessageHop".toList.isPrefixOf (afterNew.dropWhile isSpace) &&
    ['{'].isPrefixOf (afterHop.dropWhile isSpace) &&
    "ServiceName".toList.isPrefixOf (afterBrace.dropWhile isSpace)

/-- A literal that does not start with whitespace fails where whitespace
comes first. -/
theorem run_seq_str_of_space {w : Str} (hw : w.head?.any (fun c => !isSpace c) = true) (b : Re)
    (q : Option Char) (d : Char) (ds : Str) (g : Captures) (hd : isSpace d = true) :
    (Re.seq (.str w) b).run ⟨q, d :: ds⟩ g = [] := by
  rw [Re.run_seq_str, if_neg]
  intro h
  obtain ⟨t, ht⟩ := List.isPrefixOf_iff_prefix.1 h
  cases w with
  | nil => cases hw
  | cons c cs =>
    cases congrArg List.head? ht
    simp_all

/-- `\{` fails where whitespace comes first. -/
theorem run_seq_brace_of_space (b : Re) (q : Option Char) (d : Char) (ds : Str) (g : Captures)
    (hd : isSpace d = true) : (Re.seq (.lit '{') b).run ⟨q, d :: ds⟩ g = [] := by
  rw [Re.run_seq_lit]
  exact if_neg fun h => absurd hd (by rw [h]; decide)

/-- Every match of a pattern that begins with `hopServiceName` begins at a
`startsHop` position. -/
theorem startsHop_of_run {tail : List Re} {cur : Cursor} {g : Captures}
    (h : (Re.seqs (hopServiceName ++ tail)).run cur g ≠ []) : startsHop cur.rest = true := by
  change (Re.seq (.str "new".toList) (.seq (.plus isSpace) (.seq (.str "MessageHop".toList)
    (.seq (.star isSpace) (.seq (.lit '{') (.seq (.star isSpace) (.seq (.str "ServiceName".toList)
      (Re.seqs (.star isSpace :: .lit '=' :: .star isSpace :: tail))))))))).run cur g ≠ [] at h
  obtain ⟨hnew, h⟩ := Re.ne_nil_seq_str h
  obtain ⟨hsp, h⟩ := Re.ne_nil_plus_seq (fun _ _ _ _ => run_seq_str_of_space (by decide) _ _ _ _ _) h
  obtain ⟨hhop, h⟩ := Re.ne_nil_seq_str h
  rw [Re.run_star_seq _ _ (run_seq_brace_of_space _)] at h
  obtain ⟨ds, hbrace, h⟩ := Re.ne_nil_seq_lit h
  rw [Re.run_star_seq _ _ fun _ _ _ _ => run_seq_str_of_space (by decide) _ _ _ _ _] at h
  obtain ⟨hsn, -⟩ := Re.ne_nil_seq_str h
  simp only [Cursor.advance_rest, drop_takeWhile_length,
    show "new".toList.length = 3 from rfl, show "MessageHop".toList.length = 10 from rfl] at hsp hhop hbrace hsn
  simp only [startsHop, hnew, bne_iff_ne.2 hsp, hhop, hbrace, List.drop_one, List.tail_cons, hsn,
    List.isPrefixOf_cons₂_self, List.isPrefixOf_nil_left, Bool.and_self]

theorem pick_of_no_hop {tail : List Re} {must : Bool} {cur : Cursor}
    (h : startsHop cur.rest = false) : (Re.seqs (hopServiceName ++ tail)).pick must cur = none := by
  have hrun : (Re.seqs (hopServiceName ++ tail)).run cur [] = [] :=
    Decidable.byContradiction fun hne => Bool.false_ne_true (h.symm.trans (startsHop_of_run hne))
  rw [Re.pick, hrun]
  rfl

theorem subnWith_of_no_hop {tail : List Re} (f : Match → Except PyError Str)
    (hf : ∀ m d, f { m with skipped := d :: m.skipped } = f m) {content : Str}
    (h : ∀ t ∈ content.tails, startsHop t = false) :
    (Re.seqs (hopServiceName ++ tail)).subnWith f content 0 = .ok (content, 0) :=
  Re.subnLoop_of_no_match _ f hf _ 0 content false none fun t ht _ _ =>
    pick_of_no_hop (h t ((List.mem_tails _ _).2 ht))

/-- **A file with no hop to fix is left alone.** Where no
`new\s+MessageHop\s*\{\s*ServiceName` starts anywhere in the text, as in a
file whose hops already have a `ServiceInstance`, neither pattern matches:
`fix_file` writes nothing and returns 0. -/
theorem fixFile_of_no_hop (content : Str) (h : ∀ t ∈ content.tails, startsHop t = false) :
    fixFile content = (none, 0) := by
  have h1 : pattern1.subnWith replace1 content 0 = .ok (content, 0) :=
    subnWith_of_no_hop replace1 (fun _ _ => rfl) h
  have h2 : pattern2.subnWith replace2 content 0 = .ok (content, 0) :=
    subnWith_of_no_hop replace2 (fun _ _ => rfl) h
  have hrw : rewrite content = .ok (content, 0) := by
    rw [rewrite, h1]; show (do let (c, n) ← pattern2.subnWith replace2 content 0; pure (c, 0 + n)) = _
    rw [h2]; rfl
  rw [fixFile, hrw]
  rfl

set_option maxRecDepth 20000 in
/-- The initializer `fix_file` writes has no hop left to fix: a second run
leaves it alone. -/
theorem fixFile_of_no_hop_initializer :
    (∀ t ∈ (hopInitializer "\"svc\"".toList "\n    \x7d".toList).tails, startsHop t = false) ∧
      fixFile (hopInitializer "\"svc\"".toList "\n    \x7d".toList) = (none, 0) :=
  have h : ∀ t ∈ (hopInitializer "\"svc\"".toList "\n    \x7d".toList).tails, startsHop t = false := by
    decide
  ⟨h, fixFile_of_no_hop _ h⟩

end WhizbangScripts.Hops.FixBenchmarks
