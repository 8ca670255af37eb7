import PointerTriage.Settings.Draft
import PointerTriage.Yaml.Decode
import PointerTriage.Yaml.Reader
import PointerTriage.Yaml.Writer

namespace PointerTriage.Settings
open Yaml

/-- A node with named fields. -/
def record (fields : List (String × Node)) : Node :=
  .mapping (fields.map fun (key, n) => (.plain key, n))

def natNode (n : Nat) : Node := .plain (toString n)

def intNode (i : Int) : Node := .plain (toString i)

def boolNode (b : Bool) : Node := .plain (if b then "true" else "false")

def percentileStyle : Decimal.Style := ⟨.even, some 16, some 4, true, ".nan", ".inf"⟩

/-- Counts and argument positions are below this. -/
def sizeLimit : Nat := 18446744073709551616

def size (d : Document) : Node → Reading Nat := d.natBelow sizeLimit

namespace InputFunction

def toNode (f : InputFunction) : Node :=
  record [("name", .text f.name), ("arg_start", natNode f.argStart),
    ("taint_return", boolNode f.taintReturn)]

def ofNode (d : Document) (n : Node) : Reading InputFunction := do
  let fields ← d.fields false ["name", "arg_start", "taint_return"] n
  return {
    name := ← Record.required fields "name" d.text
    argStart := ← Record.withDefault fields "arg_start" 0 (size d)
    taintReturn := ← Record.withDefault fields "taint_return" false d.bool }

end InputFunction

namespace CopyFunction

def toNode (f : CopyFunction) : Node :=
  record [("name", .text f.name), ("dst_arg", natNode f.dstArg), ("src_arg", natNode f.srcArg)]

def ofNode (d : Document) (n : Node) : Reading CopyFunction := do
  let fields ← d.fields false ["name", "dst_arg", "src_arg"] n
  return {
    name := ← Record.required fields "name" d.text
    dstArg := ← Record.required fields "dst_arg" (size d)
    srcArg := ← Record.required fields "src_arg" (size d) }

end CopyFunction

namespace Taint

def toNode (t : Taint) : Node :=
  record [("entry_function", .text t.entry),
    ("input_functions", .list (t.inputs.map InputFunction.toNode)),
    ("copy_functions", .list (t.copies.map CopyFunction.toNode))]

def ofNode (d : Document) (n : Node) : Reading Taint := do
  let default := ofPreset .balanced
  let fields ← d.fields false ["entry_function", "input_functions", "copy_functions"] n
  return {
    entry := ← Record.withDefault fields "entry_function" default.entry d.text
    inputs := ← Record.withDefault fields "input_functions" default.inputs
      (d.listOf (InputFunction.ofNode d))
    copies := ← Record.withDefault fields "copy_functions" default.copies
      (d.listOf (CopyFunction.ofNode d)) }

end Taint

namespace Weights

def toNode (w : Weights) : Node :=
  record [("scale", intNode w.scale), ("no_cmp", intNode w.noCmp), ("yes_cmp", intNode w.yesCmp),
    ("none_bound", intNode w.noneBound), ("variable_bound", intNode w.variableBound),
    ("constant_bound", intNode w.constantBound)]

def ofNode (d : Document) (n : Node) : Reading Weights := do
  let default := defaultWeights
  let fields ← d.fields false
    ["scale", "no_cmp", "yes_cmp", "none_bound", "variable_bound", "constant_bound"] n
  let weight := d.intBetween (-2147483648) 2147483647
  return {
    scale := ← Record.withDefault fields "scale" default.scale weight
    noCmp := ← Record.withDefault fields "no_cmp" default.noCmp weight
    yesCmp := ← Record.withDefault fields "yes_cmp" default.yesCmp weight
    noneBound := ← Record.withDefault fields "none_bound" default.noneBound weight
    variableBound := ← Record.withDefault fields "variable_bound" default.variableBound weight
    constantBound := ← Record.withDefault fields "constant_bound" default.constantBound weight }

end Weights

namespace Bound

def toNode (b : Bound) : Node :=
  record [("max_backward_cmps", natNode b.maxBackwardCmps),
    ("max_path_length", natNode b.maxPathLength),
    ("max_paths_with_cmps", natNode b.maxPathsWithCmps),
    ("max_explored_paths", natNode b.maxExploredPaths),
    ("follow_indirect_edges", boolNode b.followIndirectEdges), ("weights", b.weights.toNode)]

def ofNode (d : Document) (n : Node) : Reading Bound := do
  let default := ofPreset .balanced
  let fields ← d.fields false
    ["max_backward_cmps", "max_path_length", "max_paths_with_cmps", "max_explored_paths",
      "follow_indirect_edges", "weights"] n
  return {
    maxBackwardCmps := ← Record.withDefault fields "max_backward_cmps" default.maxBackwardCmps (size d)
    maxPathLength := ← Record.withDefault fields "max_path_length" default.maxPathLength (size d)
    maxPathsWithCmps :=
      ← Record.withDefault fields "max_paths_with_cmps" default.maxPathsWithCmps (size d)
    maxExploredPaths :=
      ← Record.withDefault fields "max_explored_paths" default.maxExploredPaths (size d)
    followIndirectEdges :=
      ← Record.withDefault fields "follow_indirect_edges" default.followIndirectEdges d.bool
    weights := ← Record.withDefault fields "weights" default.weights (Weights.ofNode d) }

end Bound

namespace Rules

def toNode (r : Rules) : Node :=
  record [("rules", .list (r.rules.map (.text ·.name))),
    ("vulnerable_functions", .list (r.vulnerable.map .text)),
    ("allocator_functions", .list (r.allocators.map .text)), ("parallel", boolNode r.parallel),
    ("log_individual_rules", boolNode r.logEach)]

/-- Rules have their exact names here. -/
def rule (d : Document) (n : Node) : Reading Rule := do
  Rule.named? (← d.variant n)

def ofNode (d : Document) (n : Node) : Reading Rules := do
  let default := ofPreset .balanced
  let fields ← d.fields false
    ["rules", "vulnerable_functions", "allocator_functions", "parallel", "log_individual_rules"] n
  return {
    rules := ← Record.withDefault fields "rules" default.rules (d.listOf (rule d))
    vulnerable := ← Record.withDefault fields "vulnerable_functions" default.vulnerable
      (d.listOf d.text)
    allocators := ← Record.withDefault fields "allocator_functions" default.allocators
      (d.listOf d.text)
    parallel := ← Record.withDefault fields "parallel" default.parallel d.bool
    logEach := ← Record.withDefault fields "log_individual_rules" default.logEach d.bool }

end Rules

namespace Protection

/-- The name that is written to a file. -/
def key : Protection → String
  | .none => "none"
  | .full => "full"
  | .prioritized => "prioritized"

def ofKey? : String → Option Protection
  | "none" => some .none
  | "full" => some .full
  | "prioritized" | "dpp" => some .prioritized
  | _ => Option.none

end Protection

namespace Ranking

def toNode (r : Ranking) : Node :=
  record [("top_k_percentile", .plain (r.percentile.write percentileStyle)),
    ("protection", .text r.protection.key)]

def ofNode (d : Document) (n : Node) : Reading Ranking := do
  let default := ofPreset .balanced
  let fields ← d.fields false ["top_k_percentile", "protection"] n
  return {
    percentile := ← Record.withDefault fields "top_k_percentile" default.percentile d.double
    protection := ← Record.withDefault fields "protection" default.protection fun n => do
      Protection.ofKey? (← d.variant n) }

end Ranking

/-- A settings file as it is written, before its version and its preset are looked at. -/
structure File where
  version : Option Nat
  preset : String
  taint : Option Taint := none
  bound : Option Bound := none
  rules : Option Rules := none
  ranking : Option Ranking := none

namespace File

def version1 : Nat := 1

def stages : List String := ["taint", "bound_check", "heuristics", "ranking"]

def ofNode (d : Document) (n : Node) : Reading File := do
  let fields ← d.fields true ["version", "preset", "overrides"] n
  let version ← Record.withDefault fields "version" none (d.option (d.natBelow 4294967296))
  let preset ← Record.required fields "preset" d.text
  let overrides ← Record.withDefault fields "overrides" none (d.option (d.fields true stages))
  let overrides := overrides.getD []
  return {
    version, preset
    taint := ← Record.withDefault overrides "taint" none (d.option (Taint.ofNode d))
    bound := ← Record.withDefault overrides "bound_check" none (d.option (Bound.ofNode d))
    rules := ← Record.withDefault overrides "heuristics" none (d.option (Rules.ofNode d))
    ranking := ← Record.withDefault overrides "ranking" none (d.option (Ranking.ofNode d)) }

def draft (f : File) : Except Error Draft := do
  match f.version with
  | none => throw .missingVersion
  | some version =>
    require (version = version1) (.unsupportedVersion version)
    let preset ← Preset.ofName f.preset
    return ⟨preset, f.taint, f.bound, f.rules, f.ranking⟩

end File

namespace Draft

/-- The stages that were changed. -/
def changes (d : Draft) : List (String × Node) :=
  (d.taint.map fun t => ("taint", t.toNode)).toList ++
    (d.bound.map fun b => ("bound_check", b.toNode)).toList ++
    (d.rules.map fun r => ("heuristics", r.toNode)).toList ++
    (d.ranking.map fun r => ("ranking", r.toNode)).toList

def toNode (d : Draft) : Node :=
  record [("version", natNode File.version1), ("preset", .text d.preset.name),
    ("overrides", record d.changes)]

def ofDocument (doc : Document) : Except Error Draft :=
  match doc.read? (File.ofNode doc) with
  | some f => f.draft
  | none => .error .malformedYaml

def parse (s : String) : Except Error Draft :=
  match Document.parse? s with
  | some doc => ofDocument doc
  | none => .error .malformedYaml

def write (d : Draft) : String := d.toNode.write

end Draft

end PointerTriage.Settings
