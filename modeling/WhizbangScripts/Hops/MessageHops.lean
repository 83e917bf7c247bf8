import WhizbangScripts.Py.Regex

/-!
# fix_message_hops.py

`fix_message_hop` splits a C# source into lines and scans them. A line that
matches `new\s+MessageHop\s*\{` starts a block, gathered while the running
count of `{` minus `}` stays positive. A block that assigns `ServiceName` is
rewritten: the four old fields are read, removed, and written again inside a
`ServiceInstance = new ServiceInstanceInfo { ... }` initializer.

* `fieldValue`, `fieldRemoval`: the field patterns, one definition for the
  four fields, each field by its own pattern;
* `rewriteBlock`: the rewrite of one block;
* `gather`, `hopLoop`, `fixMessageHop`: the two `while` loops.
-/

namespace WhizbangScripts.Hops
open Py

/-- `[^,\n]`. -/
def notCommaNewline (c : Char) : Bool := c != ',' && c != '\n'

namespace FixMessageHops

/-- `new\s+MessageHop\s*\{`. -/
def hopPattern : Re :=
  .seqs [.str "new".toList, .plus isSpace, .str "MessageHop".toList, .star isSpace, .lit '{']

/-- `ServiceName\s*=`. -/
def serviceNameAssigned : Re :=
  .seqs [.str "ServiceName".toList, .star isSpace, .lit '=']

/-- `^(\s*)`. -/
def indentPattern : Re := .seq .start (.group 1 (.star isSpace))

/-- `ServiceName`. -/
def serviceNameField : Re := .str "ServiceName".toList

/-- `InstanceId`. -/
def instanceIdField : Re := .str "InstanceId".toList

/-- `(?:HostName|MachineName)`. -/
def hostNameField : Re := .alt (.str "HostName".toList) (.str "MachineName".toList)

/-- `ProcessId`. -/
def processIdField : Re := .str "ProcessId".toList

/-- `<field>\s*=\s*([^,\n]+)`: the value of a field, in group 1. -/
def fieldValue (field : Re) : Re :=
  .seqs [field, .star isSpace, .lit '=', .star isSpace, .group 1 (.plus notCommaNewline)]

/-- `\s*<field>\s*=\s*[^,\n]+,?\n?`: a field with its value, to be removed. -/
def fieldRemoval (field : Re) : Re :=
  .seqs [.star isSpace, field, .star isSpace, .lit '=', .star isSpace, .plus notCommaNewline,
    .opt (.lit ','), .opt (.lit '\n')]

/-- `(new\s+MessageHop\s*\{\s*\n)`: where the initializer is inserted. -/
def insertionPoint : Re :=
  .group 1 (.seqs [.str "new".toList, .plus isSpace, .str "MessageHop".toList, .star isSpace,
    .lit '{', .star isSpace, .lit '\n'])

/-- `m.group(1).strip()` of the field's value, or `default` when the field
is absent; then `.rstrip(',')`. -/
def extract (field : Re) (default block : Str) : Str :=
  rstrip ',' (match (fieldValue field).search block with
    | some m => strip ((m.group 1).getD [])
    | none => default)

/-- The `ServiceInstance` initializer written into a block. -/
def serviceInstanceBlock (fieldIndent instanceIndent serviceName instanceId hostName processId : Str) :
    Str :=
  fieldIndent ++ "ServiceInstance = new ServiceInstanceInfo \x7b\n".toList ++
    instanceIndent ++ "ServiceName = ".toList ++ serviceName ++ ",\n".toList ++
    instanceIndent ++ "InstanceId = ".toList ++ instanceId ++ ",\n".toList ++
    instanceIndent ++ "HostName = ".toList ++ hostName ++ ",\n".toList ++
    instanceIndent ++ "ProcessId = ".toList ++ processId ++ "\n".toList ++
    fieldIndent ++ "\x7d,\n".toList

/-- The rewrite of a block whose first line is `first`: read the four
fields, remove them, insert the initializer after the opening brace. -/
def rewriteBlock (first block : Str) : Except PyError Str := do
  let baseIndent := match indentPattern.matchAt first with
    | some m => (m.group 1).getD []
    | none => []
  let fieldIndent := baseIndent ++ "  ".toList
  let instanceIndent := fieldIndent ++ "  ".toList
  let serviceName := extract serviceNameField "\"TestService\"".toList block
  let instanceId := extract instanceIdField "Guid.NewGuid()".toList block
  let hostName := extract hostNameField "\"test-host\"".toList block
  let processId := extract processIdField "12345".toList block
  let block ← (fieldRemoval serviceNameField).sub [] block 0
  let block ← (fieldRemoval instanceIdField).sub [] block 0
  let block ← (fieldRemoval hostNameField).sub [] block 0
  let block ← (fieldRemoval processIdField).sub [] block 0
  let serviceInstance :=
    serviceInstanceBlock fieldIndent instanceIndent serviceName instanceId hostName processId
  insertionPoint.sub ("\\1".toList ++ serviceInstance) block 1

/-- `line.count('{') - line.count('}')`. -/
def braceDelta (line : Str) : Int := (count '{' line : Int) - count '}' line

/-- The inner `while` loop: the lines gathered after the first while the
brace count is positive, and the lines after them. -/
def gather : Int → List Str → List Str × List Str
  | braceCount, l :: ls =>
    if 0 < braceCount then
      let r := gather (braceCount + braceDelta l) ls
      (l :: r.1, r.2)
    else ([], l :: ls)
  | _, [] => ([], [])

/-- The outer `while` loop over the lines not yet scanned: the result lines
and the number of changes. Every pass consumes a line, so `fuel` equal to the
number of lines is never exhausted. -/
def hopLoop : Nat → List Str → Except PyError (List Str × Nat)
  | 0, _ => pure ([], 0)
  | _ + 1, [] => pure ([], 0)
  | fuel + 1, line :: rest =>
    let gathered := gather (braceDelta line) rest
    let block := join '\n' (line :: gathered.1)
    if (hopPattern.search line).isSome ∧ (serviceNameAssigned.search block).isSome then do
      let newBlock ← rewriteBlock line block
      let (result, changes) ← hopLoop fuel gathered.2
      return (newBlock :: result, changes + 1)
    else do
      let (result, changes) ← hopLoop fuel rest
      return (line :: result, changes)

/-- `fix_message_hop(content)`: the new text and the number of blocks rewritten. -/
def fixMessageHop (content : Str) : Except PyError (Str × Nat) := do
  let lines := split '\n' content
  let (result, changes) ← hopLoop lines.length lines
  return (join '\n' result, changes)

set_option maxRecDepth 20000 in
/-- A block whose `ServiceName` is its first field, on a line of its own:
the removal takes the line break after `{` with it, the insertion regex then
finds no `{\s*\n`, and the block is counted as fixed with its `ServiceName`
value gone and no `ServiceInstance` initializer. -/
theorem fixMessageHop_drops_service_name :
    fixMessageHop "new MessageHop \x7b\n  ServiceName = \"x\",\n  Timestamp = t\n\x7d".toList =
      .ok ("new MessageHop \x7b  Timestamp = t\n\x7d".toList, 1) := by
  decide

set_option maxRecDepth 20000 in
/-- A one-line hop: the value pattern `[^,\n]+` of the last field runs over
the closing brace, which the removal deletes. -/
theorem fixMessageHop_unbalances_braces :
    braceDelta "new MessageHop \x7b ServiceName = \"x\", InstanceId = y \x7d".toList = 0 ∧
      fixMessageHop "new MessageHop \x7b ServiceName = \"x\", InstanceId = y \x7d".toList =
        .ok ("new MessageHop \x7b".toList, 1) ∧
      braceDelta "new MessageHop \x7b".toList = 1 := by
  decide

set_option maxRecDepth 20000 in
/-- The output of a successful rewrite still has its `new MessageHop {` line
and now a `ServiceName = ` line inside the initializer, so a second run
rewrites the block again. -/
theorem fixMessageHop_rerun_rewrites :
    (fixMessageHop "new MessageHop \x7b\n  MessageId = m,\n  ServiceName = \"x\"\n\x7d".toList >>=
        fun r => fixMessageHop r.1).map Prod.snd = .ok 1 := by
  decide

end FixMessageHops

end WhizbangScripts.Hops
