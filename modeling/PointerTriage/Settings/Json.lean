import PointerTriage.Json.Basic
import PointerTriage.Settings.Draft

namespace PointerTriage.Settings

def InputFunction.toJson (f : InputFunction) : Json :=
  .record [("name", .text f.name), ("arg_start", .nat f.argStart),
    ("taint_return", .bool f.taintReturn)]

def CopyFunction.toJson (f : CopyFunction) : Json :=
  .record [("name", .text f.name), ("dst_arg", .nat f.dstArg), ("src_arg", .nat f.srcArg)]

def Taint.toJson (t : Taint) : Json :=
  .record [("entry_function", .text t.entry),
    ("input_functions", .list (t.inputs.map InputFunction.toJson)),
    ("copy_functions", .list (t.copies.map CopyFunction.toJson))]

def Weights.toJson (w : Weights) : Json :=
  .record [("scale", .integer w.scale), ("no_cmp", .integer w.noCmp),
    ("yes_cmp", .integer w.yesCmp), ("none_bound", .integer w.noneBound),
    ("variable_bound", .integer w.variableBound), ("constant_bound", .integer w.constantBound)]

def Bound.toJson (b : Bound) : Json :=
  .record [("max_backward_cmps", .nat b.maxBackwardCmps),
    ("max_path_length", .nat b.maxPathLength),
    ("max_paths_with_cmps", .nat b.maxPathsWithCmps),
    ("max_explored_paths", .nat b.maxExploredPaths),
    ("follow_indirect_edges", .bool b.followIndirectEdges), ("weights", b.weights.toJson)]

def Rules.toJson (r : Rules) : Json :=
  .record [("rules", .texts (r.rules.map Rule.name)),
    ("vulnerable_functions", .texts r.vulnerable), ("allocator_functions", .texts r.allocators),
    ("parallel", .bool r.parallel), ("log_individual_rules", .bool r.logEach)]

end PointerTriage.Settings
