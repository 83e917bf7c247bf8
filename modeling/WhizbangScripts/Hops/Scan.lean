import Mathlib.Data.List.Chain
import Mathlib.Data.List.GetD
import WhizbangScripts.Hops.MessageHops

/-!
# The scan of fix_message_hop, by line index

`fix_message_hop` walks the lines of `c.split('\n')` with two `while` loops.
This module states the same scan by line index, without the loops: where a
block ends, which blocks are rewritten, and how the result is put together.
Then it proves that the loops compute it.

* `blockEnd`, `scanRanges`, `splice`: the scan by index;
* `gather_eq_blockEnd`: the inner loop stops at `blockEnd`;
* `hopLoop_succ`, `hopLoop_eq_splice`: one pass of the outer loop, then the
  whole loop, is the splice of the scanned ranges;
* `fixMessageHop_splices`: `fix_message_hop` rewrites exactly the scanned
  ranges, which are disjoint, and counts them;
* `unchanged_iff_no_trigger`: it returns a text unchanged exactly when the
  scan finds nothing to rewrite.
-/

namespace WhizbangScripts.Hops.FixMessageHops
open Py

/-- The offset in `ls` of the first line at which `acc` plus the count of
`{` minus `}` over the lines up to it is `≤ 0`. -/
def firstClosed (acc : Int) : List Str → Option Nat
  | [] => none
  | l :: ls =>
    if acc + braceDelta l ≤ 0 then some 0 else (firstClosed (acc + braceDelta l) ls).map (· + 1)

/-- One past the line that closes the block starting at line `i` of `L`, or
`len L` when no line closes it. -/
def blockEnd (L : List Str) (i : Nat) : Nat :=
  match firstClosed 0 (L.drop i) with
  | some k => i + k + 1
  | none => L.length

/-- The text of the lines `[i, j)` of `L`. -/
def blockText (L : List Str) (i j : Nat) : Str := join '\n' ((L.drop i).take (j - i))

/-- Line `i` of `L` starts a block that is rewritten. -/
def triggers (L : List Str) (i : Nat) : Bool :=
  (hopPattern.search (L.getD i [])).isSome &&
    (serviceNameAssigned.search (blockText L i (blockEnd L i))).isSome

theorem firstClosed_lt {acc : Int} {ls : List Str} {k : Nat} (h : firstClosed acc ls = some k) :
    k < ls.length := by
  induction ls generalizing acc k with
  | nil => cases h
  | cons l ls ih =>
    rw [firstClosed] at h
    split at h
    · cases h; simp
    · obtain ⟨k', hk', rfl⟩ := Option.map_eq_some'.1 h
      simpa using ih hk'

theorem lt_blockEnd {L : List Str} {i : Nat} (h : i < L.length) : i < blockEnd L i := by
  unfold blockEnd; split <;> omega

theorem blockEnd_le (L : List Str) (i : Nat) : blockEnd L i ≤ L.length := by
  unfold blockEnd
  split
  · have := firstClosed_lt ‹_›
    simp only [List.length_drop] at this
    omega
  · exact le_rfl

/-- The line ranges `[i, j)` that the left-to-right scan rewrites, from
line `i` on. A line that does not start a rewritten block is passed over. -/
def scanRanges (L : List Str) (i : Nat) : List (Nat × Nat) :=
  if h : i < L.length then
    if triggers L i then (i, blockEnd L i) :: scanRanges L (blockEnd L i)
    else scanRanges L (i + 1)
  else []
termination_by L.length - i
decreasing_by all_goals simp_wf; have := lt_blockEnd h; omega

/-- `rewriteBlock` on the range `r` of `L`. -/
def rewriteRange (L : List Str) (r : Nat × Nat) : Except PyError Str :=
  rewriteBlock (L.getD r.1 []) (blockText L r.1 r.2)

/-- The lines of `L` from `start` on, the range `rs[k]` replaced by `ws[k]`. -/
def splice (L : List Str) (start : Nat) : List (Nat × Nat) → List Str → List Str
  | [], _ => L.drop start
  | _ :: _, [] => L.drop start
  | (i, j) :: rs, w :: ws => (L.drop start).take (i - start) ++ w :: splice L j rs ws

theorem drop_eq_getD_cons {L : List Str} {i : Nat} (h : i < L.length) :
    L.drop i = L.getD i [] :: L.drop (i + 1) := by
  rw [List.getD_eq_getElem _ _ h, List.drop_eq_getElem_cons h]

section Gather

theorem gather_of_nonpos {acc : Int} (h : ¬0 < acc) (ls : List Str) : gather acc ls = ([], ls) := by
  cases ls <;> simp [gather, h]

theorem gather_append (acc : Int) (ls : List Str) : (gather acc ls).1 ++ (gather acc ls).2 = ls := by
  induction ls generalizing acc with
  | nil => rfl
  | cons l ls ih => unfold gather; split <;> simp [ih]

theorem gather_length {acc : Int} (h : 0 < acc) (ls : List Str) :
    (gather acc ls).1.length = ((firstClosed acc ls).map (· + 1)).getD ls.length := by
  induction ls generalizing acc with
  | nil => rfl
  | cons l ls ih =>
    rw [gather, if_pos h, firstClosed]
    by_cases hc : acc + braceDelta l ≤ 0
    · simp [hc, gather_of_nonpos (show ¬0 < acc + braceDelta l by omega)]
    · rw [if_neg hc, List.length_cons, ih (by omega)]
      cases firstClosed (acc + braceDelta l) ls <;> simp

/-- The inner loop gathers exactly the lines up to `blockEnd`. -/
theorem gather_eq_blockEnd {L : List Str} {i : Nat} (h : i < L.length) :
    gather (braceDelta (L.getD i [])) (L.drop (i + 1)) =
      ((L.drop (i + 1)).take (blockEnd L i - (i + 1)), L.drop (blockEnd L i)) := by
  have hlen : (gather (braceDelta (L.getD i [])) (L.drop (i + 1))).1.length =
      blockEnd L i - (i + 1) := by
    rw [blockEnd, drop_eq_getD_cons h, firstClosed, Int.zero_add]
    by_cases hd : braceDelta (L.getD i []) ≤ 0
    · rw [if_pos hd, gather_of_nonpos (show ¬0 < braceDelta (L.getD i []) by omega)]
      simp
    · rw [if_neg hd, gather_length (by omega)]
      cases firstClosed (braceDelta (L.getD i [])) (L.drop (i + 1)) <;> simp
  have happ := gather_append (braceDelta (L.getD i [])) (L.drop (i + 1))
  have hj : L.drop (blockEnd L i) = (L.drop (i + 1)).drop (blockEnd L i - (i + 1)) := by
    have := lt_blockEnd h
    rw [List.drop_drop, Nat.add_sub_cancel' this]
  generalize gather (braceDelta (L.getD i [])) (L.drop (i + 1)) = g at hlen happ ⊢
  rw [hj, ← happ, List.take_left' hlen, List.drop_left' hlen]

end Gather

theorem blockText_eq {L : List Str} {i : Nat} (h : i < L.length) :
    blockText L i (blockEnd L i) =
      join '\n' (L.getD i [] :: (L.drop (i + 1)).take (blockEnd L i - (i + 1))) := by
  have hj := lt_blockEnd h
  rw [blockText, drop_eq_getD_cons h, show blockEnd L i - i = blockEnd L i - (i + 1) + 1 by omega,
    List.take_succ_cons]

section Scan
variable {L : List Str} {i : Nat}

theorem scanRanges_of_le (h : L.length ≤ i) : scanRanges L i = [] := by
  rw [scanRanges, dif_neg (by omega)]

theorem scanRanges_of_triggers (h : i < L.length) (ht : triggers L i = true) :
    scanRanges L i = (i, blockEnd L i) :: scanRanges L (blockEnd L i) := by
  rw [scanRanges, dif_pos h, if_pos ht]

theorem scanRanges_of_not_triggers (h : i < L.length) (ht : triggers L i = false) :
    scanRanges L i = scanRanges L (i + 1) := by
  rw [scanRanges, dif_pos h, if_neg (by simp [ht])]

/-- Every scanned range lies at or after `i`, inside `L`, and is the block
of a line that triggers. -/
theorem mem_scanRanges (L : List Str) (i : Nat) :
    ∀ r ∈ scanRanges L i, i ≤ r.1 ∧ r.1 < r.2 ∧ r.2 ≤ L.length ∧
      r.2 = blockEnd L r.1 ∧ triggers L r.1 = true := by
  induction i using scanRanges.induct L with
  | case1 i h ht ih =>
    rw [scanRanges_of_triggers h ht]
    rintro r (_ | ⟨_, hr⟩)
    · exact ⟨le_rfl, lt_blockEnd h, blockEnd_le L i, rfl, ht⟩
    · obtain ⟨h1, h2⟩ := ih r hr
      exact ⟨(lt_blockEnd h).le.trans h1, h2⟩
  | case2 i h ht ih =>
    rw [scanRanges_of_not_triggers h (by simpa using ht)]
    intro r hr
    obtain ⟨h1, h2⟩ := ih r hr
    exact ⟨by omega, h2⟩
  | case3 i h => simp [scanRanges_of_le (not_lt.1 h)]

/-- The scanned ranges follow each other without overlap. -/
theorem scanRanges_chain (L : List Str) (i : Nat) :
    (scanRanges L i).Chain' (fun r r' => r.2 ≤ r'.1) := by
  induction i using scanRanges.induct L with
  | case1 i h ht ih =>
    rw [scanRanges_of_triggers h ht, List.chain'_cons']
    exact ⟨fun r hr => (mem_scanRanges L _ r (List.mem_of_mem_head? hr)).1, ih⟩
  | case2 i h ht ih => rwa [scanRanges_of_not_triggers h (by simpa using ht)]
  | case3 i h => simp [scanRanges_of_le (not_lt.1 h)]

theorem splice_succ (h : i < L.length) {rs : List (Nat × Nat)} (hs : ∀ r ∈ rs, i + 1 ≤ r.1)
    (ws : List Str) : splice L i rs ws = L.getD i [] :: splice L (i + 1) rs ws := by
  rcases rs with _ | ⟨⟨a, b⟩, rs⟩
  · rw [splice, splice, drop_eq_getD_cons h]
  rcases ws with _ | ⟨w, ws⟩
  · rw [splice, splice, drop_eq_getD_cons h]
  have ha := hs (a, b) (List.mem_cons_self _ _)
  rw [splice, splice, drop_eq_getD_cons h, show a - i = a - (i + 1) + 1 by omega,
    List.take_succ_cons, List.cons_append]

end Scan

/-- One pass of the outer loop, by index: a block that triggers is rewritten
and the scan resumes at its end; any other line is kept and the scan resumes
at the next line. -/
theorem hopLoop_succ (fuel : Nat) {L : List Str} {i : Nat} (h : i < L.length) :
    hopLoop (fuel + 1) (L.drop i) =
      if triggers L i then do
        let newBlock ← rewriteRange L (i, blockEnd L i)
        let (result, changes) ← hopLoop fuel (L.drop (blockEnd L i))
        return (newBlock :: result, changes + 1)
      else do
        let (result, changes) ← hopLoop fuel (L.drop (i + 1))
        return (L.getD i [] :: result, changes) := by
  rw [drop_eq_getD_cons h, hopLoop, gather_eq_blockEnd h, ← blockText_eq h]
  simp only [triggers, Bool.and_eq_true, rewriteRange]

theorem hopLoop_of_le {L : List Str} {i : Nat} (h : L.length ≤ i) (fuel : Nat) :
    hopLoop fuel (L.drop i) =
      (fun ws => (splice L i (scanRanges L i) ws, (scanRanges L i).length)) <$>
        (scanRanges L i).mapM (rewriteRange L) := by
  rw [List.drop_eq_nil_of_le h, scanRanges_of_le h, List.mapM_nil]
  cases fuel <;> simp [hopLoop, splice, List.drop_eq_nil_of_le h]

/-- The outer loop, from line `i` with enough fuel, is the splice of the
ranges scanned from `i` with their rewrites; it fails with the first
rewrite that fails. -/
theorem hopLoop_eq_splice (L : List Str) (fuel i : Nat) (hf : L.length - i ≤ fuel) :
    hopLoop fuel (L.drop i) =
      (fun ws => (splice L i (scanRanges L i) ws, (scanRanges L i).length)) <$>
        (scanRanges L i).mapM (rewriteRange L) := by
  induction fuel generalizing i with
  | zero => exact hopLoop_of_le (by omega) 0
  | succ fuel ih =>
    by_cases h : i < L.length
    · rw [hopLoop_succ fuel h]
      cases ht : triggers L i
      · rw [if_neg (by simp), ih (i + 1) (by omega), scanRanges_of_not_triggers h ht]
        simp only [splice_succ h fun r hr => (mem_scanRanges L _ r hr).1]
        cases (scanRanges L (i + 1)).mapM (rewriteRange L) <;> rfl
      · have hj := lt_blockEnd h
        rw [if_pos rfl, ih (blockEnd L i) (by omega), scanRanges_of_triggers h ht, List.mapM_cons]
        cases rewriteRange L (i, blockEnd L i) <;>
          cases (scanRanges L (blockEnd L i)).mapM (rewriteRange L) <;> simp [splice]
    · exact hopLoop_of_le (by omega) _

theorem fixMessageHop_eq_splice (c : Str) :
    fixMessageHop c =
      (fun ws => (join '\n' (splice (split '\n' c) 0 (scanRanges (split '\n' c) 0) ws),
        (scanRanges (split '\n' c) 0).length)) <$>
        (scanRanges (split '\n' c) 0).mapM (rewriteRange (split '\n' c)) := by
  rw [fixMessageHop, ← List.drop_zero (split '\n' c), hopLoop_eq_splice _ _ 0 (by simp),
    List.drop_zero]
  cases (scanRanges (split '\n' c) 0).mapM (rewriteRange (split '\n' c)) <;> rfl

theorem fixMessageHop_of_scanRanges_nil {c : Str} (h : scanRanges (split '\n' c) 0 = []) :
    fixMessageHop c = .ok (c, 0) := by
  rw [fixMessageHop_eq_splice, h]
  simp only [List.mapM_nil, splice, List.drop_zero, join_split, List.length_nil]
  rfl

theorem count_eq_length {c t : Str} {n : Nat} (h : fixMessageHop c = .ok (t, n)) :
    n = (scanRanges (split '\n' c) 0).length := by
  rw [fixMessageHop_eq_splice] at h
  cases hm : (scanRanges (split '\n' c) 0).mapM (rewriteRange (split '\n' c)) <;> rw [hm] at h
  · cases h
  · cases h; rfl

/-- `fix_message_hop(c)` splices the ranges its scan finds. Each range
`[i, j)` of `L = c.split('\n')` starts at a line matching
`new\s+MessageHop\s*\{`, ends where the brace count over its lines first
drops to zero (or at the end of `L`), contains `ServiceName\s*=`, and is
replaced by its rewrite; the other lines are kept in order. The ranges are
disjoint and the count is their number; with no range the text comes back
unchanged with count 0. -/
theorem fixMessageHop_splices (c : Str) :
    let L := split '\n' c
    let rs := scanRanges L 0
    fixMessageHop c =
        (fun ws => (join '\n' (splice L 0 rs ws), rs.length)) <$> rs.mapM (rewriteRange L) ∧
      rs.Chain' (fun r r' => r.2 ≤ r'.1) ∧
      (∀ r ∈ rs, r.1 < r.2 ∧ r.2 ≤ L.length ∧ r.2 = blockEnd L r.1 ∧ triggers L r.1 = true) ∧
      (rs = [] → fixMessageHop c = .ok (c, 0)) :=
  ⟨fixMessageHop_eq_splice c, scanRanges_chain _ 0, fun r hr => (mem_scanRanges _ 0 r hr).2,
    fixMessageHop_of_scanRanges_nil⟩

/-- `fix_message_hop` returns a text unchanged with count 0 exactly when its
scan finds no block to rewrite; its count is 0 exactly then. -/
theorem unchanged_iff_no_trigger (t : Str) :
    (fixMessageHop t = .ok (t, 0) ↔ scanRanges (split '\n' t) 0 = []) ∧
      ∀ t' n, fixMessageHop t = .ok (t', n) → (n = 0 ↔ scanRanges (split '\n' t) 0 = []) := by
  refine ⟨⟨fun h => ?_, fixMessageHop_of_scanRanges_nil⟩, fun t' n h => ?_⟩
  · exact List.length_eq_zero.1 (count_eq_length h).symm
  · rw [count_eq_length h, List.length_eq_zero]

end WhizbangScripts.Hops.FixMessageHops
