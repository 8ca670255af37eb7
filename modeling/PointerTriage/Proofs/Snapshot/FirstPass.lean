import PointerTriage.Proofs.Snapshot.Soundness
import PointerTriage.Snapshot.Passes

namespace PointerTriage

@[simp] theorem modify_append_cons {α : Type} (pre : List α) (a : α) (post : List α) (f : α → α) :
    (pre ++ a :: post).modify pre.length f = pre ++ f a :: post := by
  induction pre with
  | nil => rfl
  | cons b pre ih => simp [ih]

namespace ProgramDraft

def ofLists (values : List Value) (functions : List Function) (blocks : List Block)
    (loops : List Loop) (host : HostFacts) : ProgramDraft :=
  ⟨⟨values.toArray, functions.toArray, blocks.toArray, loops⟩, host⟩

section

variable (values : List Value) (functions : List Function) (blocks : List Block)
  (loops : List Loop) (host : HostFacts)

theorem function_ofLists (name : String) (returns : Shape) :
    (ofLists values functions blocks loops host).function name returns =
      (ofLists values (functions ++ [⟨functions.length, name, [], [], returns⟩]) blocks loops host,
        functions.length) := by
  simp [function, ofLists]

theorem global_ofLists (name : String) (shape : Shape) (constant : Bool) :
    (ofLists values functions blocks loops host).global name shape constant =
      (ofLists (values ++ [⟨values.length, some name, .pointerTo shape, .global shape constant, []⟩])
        functions blocks loops host, values.length) := by
  simp [global, value, setName, onValue, ofLists]

theorem value_ofLists (kind : ValueKind) (shape : Shape) (operands : List ValueId) :
    (ofLists values functions blocks loops host).value kind shape operands =
      (ofLists (values ++ [⟨values.length, none, shape, kind, operands⟩]) functions blocks loops host,
        values.length) := by
  simp [value, ofLists]

theorem param_ofLists (pre : List Function) (f : Function) (post : List Function) (shape : Shape) :
    (ofLists values (pre ++ f :: post) blocks loops host).param pre.length shape =
      (ofLists (values ++ [⟨values.length, none, shape, .argument pre.length f.params.length, []⟩])
        (pre ++ { f with params := f.params ++ [values.length] } :: post) blocks loops host,
        values.length) := by
  simp [param, value, onFunction, ofLists]

theorem block_ofLists (pre : List Function) (f : Function) (post : List Function) :
    (ofLists values (pre ++ f :: post) blocks loops host).block pre.length =
      (ofLists values (pre ++ { f with blocks := f.blocks ++ [blocks.length] } :: post)
        (blocks ++ [⟨blocks.length, pre.length, [], []⟩]) loops host, blocks.length) := by
  simp [block, onFunction, ofLists]

theorem instruction_ofLists (pre : List Block) (b : Block) (post : List Block) (opcode : Opcode)
    (shape : Shape) (operands : List ValueId) :
    (ofLists values functions (pre ++ b :: post) loops host).instruction pre.length opcode shape
      operands =
      (ofLists (values ++ [⟨values.length, none, shape, .instruction opcode pre.length, operands⟩])
        functions (pre ++ { b with instructions := b.instructions ++ [values.length] } :: post) loops
        host, values.length) := by
  simp [instruction, value, onBlock, ofLists]

theorem setName_ofLists (v : Value) (name : String) :
    (ofLists (values ++ [v]) functions blocks loops host).setName values.length name =
      ofLists (values ++ [{ v with name := some name }]) functions blocks loops host := by
  simp [setName, onValue, ofLists]

theorem setOperands_ofLists (v : Value) (later : List Value) (operands : List ValueId) :
    (ofLists (values ++ v :: later) functions blocks loops host).setOperands values.length operands =
      ofLists (values ++ { v with operands } :: later) functions blocks loops host := by
  simp [setOperands, onValue, ofLists]

end

end ProgramDraft

namespace Snapshot

section

variable {σ α κ β : Type} [DecidableEq κ]

/-- Entering names one after the other fails at the first that is known or occurred before. -/
theorem foldlM_enter (names : σ → List (κ × β)) (put : σ → α → List (κ × β) → σ)
    (hput : ∀ r a l, names (put r a l) = l) (key : String → κ) (hkey : ∀ m n, key m = key n → m = n)
    (name : α → String) (entry : σ → α → β) (fault : String → NameFault) {as : List α} {r : σ}
    {seen : List String} (hseen : ∀ n, n ∈ seen ↔ key n ∈ (names r).map (·.1)) :
    as.foldlM (fun r a => Scope.enter (fault (name a)) (names r) (key (name a)) (entry r a) >>=
      fun l => .ok (put r a l)) r =
      checkDistinct fault seen (as.map name) >>= fun _ =>
        .ok (as.foldl (fun r a => put r a (names r ++ [(key (name a), entry r a)])) r) := by
  induction as generalizing r seen with
  | nil => rfl
  | cons a as ih =>
    rw [List.foldlM_cons, List.map_cons, checkDistinct, List.foldl_cons, Scope.enter]
    by_cases hn : name a ∈ seen
    · rw [if_pos hn, if_pos ((hseen _).mp hn)]
      rfl
    · rw [if_neg hn, if_neg fun hk => hn ((hseen _).mpr hk)]
      refine ih ?_
      intro n
      simp only [hput, List.mem_cons, hseen, List.map_append, List.mem_append, List.map_cons,
        List.map_nil, List.not_mem_nil, or_false]
      rw [or_comm]
      refine or_congr_right ?_
      exact ⟨fun h => h ▸ rfl, hkey n (name a)⟩

end

namespace Reading

def nextFunction (r : Reading) (f : Function) : Reading :=
  { r with
    draft := (r.draft.function f.name f.returns).1
    scope := { r.scope with
      functions := r.scope.functions ++ [(f.name, (r.draft.function f.name f.returns).2)] } }

def nextGlobal (r : Reading) (g : Global) : Reading :=
  { r with
    draft := (r.draft.global g.name g.shape g.constant).1
    scope := { r.scope with
      globals := r.scope.globals ++ [(g.name, (r.draft.global g.name g.shape g.constant).2)] } }

def nextParam (f : FunctionId) (r : Reading) (p : Param) : Reading :=
  { r with
    draft := (r.draft.param f p.shape).1.setName (r.draft.param f p.shape).2 p.name
    scope := { r.scope with
      locals := r.scope.locals ++ [((f, p.name), (r.draft.param f p.shape).2)] } }

def nextBlock (f : FunctionId) (r : Reading) (b : Block) : Reading :=
  { r with
    draft := (r.draft.block f).1
    scope := { r.scope with
      blocks := r.scope.blocks ++ [((f, b.label), (r.draft.block f).2)] } }

theorem foldlM_addFunction {fs : List Function} {r : Reading} (hr : r.scope.functions = []) :
    fs.foldlM addFunction r = checkDistinct .duplicateFunction [] (fs.map Function.name) >>=
      fun _ => .ok (fs.foldl nextFunction r) := by
  refine foldlM_enter (fun r : Reading => r.scope.functions)
    (fun (r : Reading) (f : Function) functions => { r with
      draft := (r.draft.function f.name f.returns).1, scope := { r.scope with functions } })
    (fun _ _ _ => rfl) id (fun _ _ h => h) Function.name
    (fun r f => (r.draft.function f.name f.returns).2) .duplicateFunction ?_
  simp [hr]

theorem foldlM_addGlobal {gs : List Global} {r : Reading} (hr : r.scope.globals = []) :
    gs.foldlM addGlobal r = checkDistinct .duplicateGlobal [] (gs.map Global.name) >>=
      fun _ => .ok (gs.foldl nextGlobal r) := by
  refine foldlM_enter (fun r : Reading => r.scope.globals)
    (fun (r : Reading) (g : Global) globals => { r with
      draft := (r.draft.global g.name g.shape g.constant).1, scope := { r.scope with globals } })
    (fun _ _ _ => rfl) id (fun _ _ h => h) Global.name
    (fun r g => (r.draft.global g.name g.shape g.constant).2) .duplicateGlobal ?_
  simp [hr]

theorem foldlM_addParam {f : FunctionId} {ps : List Param} {r : Reading}
    (hr : ∀ n, (f, n) ∉ r.scope.locals.map (·.1)) :
    ps.foldlM (addParam f) r = checkDistinct (.duplicateValue · f) [] (ps.map Param.name) >>=
      fun _ => .ok (ps.foldl (nextParam f) r) := by
  refine foldlM_enter (fun r : Reading => r.scope.locals)
    (fun (r : Reading) (p : Param) locals => { r with
      draft := (r.draft.param f p.shape).1.setName (r.draft.param f p.shape).2 p.name
      scope := { r.scope with locals } })
    (fun _ _ _ => rfl) (f, ·) (fun _ _ h => (Prod.mk.inj h).2) Param.name
    (fun r p => (r.draft.param f p.shape).2) (.duplicateValue · f) ?_
  simpa using hr

theorem foldlM_addBlock {f : FunctionId} {function : String} {bs : List Block} {r : Reading}
    (hr : ∀ n, (f, n) ∉ r.scope.blocks.map (·.1)) :
    bs.foldlM (addBlock f function) r =
      checkDistinct (.duplicateBlock · function) [] (bs.map Block.label) >>=
        fun _ => .ok (bs.foldl (nextBlock f) r) := by
  refine foldlM_enter (fun r : Reading => r.scope.blocks)
    (fun (r : Reading) (_ : Block) blocks => { r with
      draft := (r.draft.block f).1, scope := { r.scope with blocks } })
    (fun _ _ _ => rfl) (f, ·) (fun _ _ h => (Prod.mk.inj h).2) Block.label
    (fun r _ => (r.draft.block f).2) (.duplicateBlock · function) ?_
  simpa using hr

end Reading

/-- The opcode of an operation whose callee is known. -/
def opcodeD (s : Snapshot) (operation : Operation) : Opcode :=
  (s.opcode operation).toOption.getD .other

theorem opcode_eq (s : Snapshot) (i : Instruction) :
    s.opcode i.operation = s.checkCallee i >>= fun _ => .ok (s.opcodeD i.operation) := by
  unfold checkCallee opcodeD
  cases i.operation with
  | call callee targets =>
    cases callee with
    | none => rfl
    | some name =>
      simp only [opcode, Operation.opcode, Operation.callee?]
      cases s.functionId name <;> rfl
  | _ => rfl

theorem checkInstructions_append (s : Snapshot) (f : FunctionId) (seen : List String)
    (is js : List Instruction) :
    s.checkInstructions f seen (is ++ js) = s.checkInstructions f seen is >>= fun _ =>
      s.checkInstructions f ((is.filterMap Instruction.name).reverse ++ seen) js := by
  induction is generalizing seen with
  | nil => rfl
  | cons i is ih =>
    rw [List.cons_append, checkInstructions, checkInstructions]
    cases s.checkCallee i with
    | error fault => rfl
    | ok _ =>
      cases hname : i.name with
      | none =>
        rw [List.filterMap_cons_none hname]
        exact ih seen
      | some name =>
        rw [List.filterMap_cons_some hname, List.reverse_cons, List.append_assoc]
        by_cases hn : name ∈ seen
        · simp only [if_pos hn]
          rfl
        · simp only [if_neg hn]
          exact ih (name :: seen)

namespace Reading

variable {s : Snapshot}

def nextInstruction (s : Snapshot) (f : FunctionId) (b : BlockId) (r : Reading) (i : Instruction) :
    Reading :=
  let entered := r.draft.instruction b (s.opcodeD i.operation) (i.shape.getD i.operation.shape) []
  let pending := r.pending ++ [(f, entered.2, i)]
  match i.name with
  | none => { r with draft := entered.1, pending }
  | some name =>
    ⟨entered.1.setName entered.2 name,
      { r.scope with locals := r.scope.locals ++ [((f, name), entered.2)] }, pending⟩

theorem addInstruction_eq {f : FunctionId} {b : BlockId} {r : Reading} {i : Instruction}
    (hf : r.scope.function = s.functionId) :
    addInstruction f b r i = s.checkCallee i >>= fun _ =>
      match i.name with
      | none => .ok (nextInstruction s f b r i)
      | some name =>
        if (f, name) ∈ r.scope.locals.map (·.1) then .error (.duplicateValue name f)
        else .ok (nextInstruction s f b r i) := by
  have hopcode : i.operation.opcode r.scope.function = s.checkCallee i >>=
      fun _ => .ok (s.opcodeD i.operation) := by rw [hf, ← opcode_eq, opcode]
  unfold addInstruction nextInstruction
  rw [hopcode]
  cases s.checkCallee i with
  | error fault => rfl
  | ok _ =>
    cases i.name with
    | none => rfl
    | some name =>
      by_cases hk : (f, name) ∈ r.scope.locals.map (·.1)
      · simp only [Scope.enter, if_pos hk]
        rfl
      · simp only [Scope.enter, if_neg hk]
        rfl

/-- Only the names of values change. -/
theorem scope_nextInstruction (f : FunctionId) (b : BlockId) (r : Reading) (i : Instruction) :
    ∃ named, (nextInstruction s f b r i).scope = { r.scope with locals := r.scope.locals ++ named } ∧
      named.map (·.1) = i.name.toList.map (f, ·) := by
  unfold nextInstruction
  cases i.name with
  | none => exact ⟨[], by simp, rfl⟩
  | some name => exact ⟨_, rfl, rfl⟩

theorem foldlM_addInstruction {f : FunctionId} {b : BlockId} {is : List Instruction} {r : Reading}
    {seen : List String} (hf : r.scope.function = s.functionId)
    (hseen : ∀ n, n ∈ seen ↔ (f, n) ∈ r.scope.locals.map (·.1)) :
    is.foldlM (addInstruction f b) r =
      s.checkInstructions f seen is >>= fun _ => .ok (is.foldl (nextInstruction s f b) r) := by
  induction is generalizing r seen with
  | nil => rfl
  | cons i is ih =>
    rw [List.foldlM_cons, checkInstructions, List.foldl_cons, addInstruction_eq hf]
    obtain ⟨named, hscope, hnamed⟩ := scope_nextInstruction (s := s) f b r i
    have hnext : (nextInstruction s f b r i).scope.function = s.functionId := by
      rw [hscope, ← hf]
      rfl
    have hlocals : ∀ n, (f, n) ∈ (nextInstruction s f b r i).scope.locals.map (·.1) ↔
        n ∈ seen ∨ n ∈ i.name := by
      intro n
      rw [hscope, List.map_append, hnamed, List.mem_append, hseen]
      simp
    cases s.checkCallee i with
    | error fault => rfl
    | ok _ =>
      cases hname : i.name with
      | none =>
        refine ih hnext ?_
        intro n
        simp [hlocals, hname]
      | some name =>
        simp only [← hseen]
        by_cases hn : name ∈ seen
        · simp only [if_pos hn]
          rfl
        · simp only [if_neg hn]
          refine ih hnext ?_
          intro n
          simp [hlocals, hname, or_comm, eq_comm]

def nextCode (s : Snapshot) (f : FunctionId) (r : Reading) (b : NumberedBlock) : Reading :=
  b.source.instructions.foldl (nextInstruction s f b.id) r

theorem scope_foldl_nextInstruction (f : FunctionId) (b : BlockId) (r : Reading)
    (is : List Instruction) :
    ∃ named, (is.foldl (nextInstruction s f b) r).scope =
      { r.scope with locals := r.scope.locals ++ named } ∧
      named.map (·.1) = (is.filterMap Instruction.name).map (f, ·) := by
  induction is generalizing r with
  | nil => exact ⟨[], by simp, rfl⟩
  | cons i is ih =>
    obtain ⟨first, hfirst, hnames⟩ := scope_nextInstruction (s := s) f b r i
    obtain ⟨rest, hrest, hnames'⟩ := ih (nextInstruction s f b r i)
    refine ⟨first ++ rest, ?_, ?_⟩
    · rw [List.foldl_cons, hrest, hfirst, List.append_assoc]
    · rw [List.map_append, hnames, hnames', ← List.map_append]
      cases hname : i.name <;> simp [hname]

theorem foldlM_addCode {f : FunctionId} {bs : List NumberedBlock} {r : Reading} {seen : List String}
    (hf : r.scope.function = s.functionId)
    (hblocks : ∀ b ∈ bs, r.scope.block f b.source.label = .ok b.id)
    (hseen : ∀ n, n ∈ seen ↔ (f, n) ∈ r.scope.locals.map (·.1)) :
    (bs.map NumberedBlock.source).foldlM (addCode f) r =
      s.checkInstructions f seen ((bs.map NumberedBlock.source).flatMap Block.instructions) >>=
        fun _ => .ok (bs.foldl (nextCode s f) r) := by
  induction bs generalizing r seen with
  | nil => rfl
  | cons b bs ih =>
    obtain ⟨hb, hrest⟩ := List.forall_mem_cons.mp hblocks
    have hcode : addCode f r b.source = s.checkInstructions f seen b.source.instructions >>=
        fun _ => .ok (nextCode s f r b) := by
      rw [nextCode, ← foldlM_addInstruction hf hseen, addCode, hb]
      rfl
    rw [List.map_cons, List.foldlM_cons, hcode, List.flatMap_cons, checkInstructions_append]
    obtain ⟨named, hscope, hnamed⟩ :=
      scope_foldl_nextInstruction (s := s) f b.id r b.source.instructions
    cases s.checkInstructions f seen b.source.instructions with
    | error fault => rfl
    | ok _ =>
      refine ih ?_ ?_ ?_
      · rw [nextCode, hscope, ← hf]
        rfl
      · intro b' hb'
        rw [nextCode, hscope, ← hrest b' hb']
        rfl
      · intro n
        rw [nextCode, hscope, List.map_append, hnamed]
        simp [hseen, or_comm]

end Reading

/-- The entry of a function before its parameters and blocks are added. -/
def NumberedFunction.header (f : NumberedFunction) : PointerTriage.Function :=
  ⟨f.id, f.source.name, [], [], f.source.returns⟩

/-- The value of an instruction before its operands are set. -/
def bareValue (s : Snapshot) (b : BlockId) (i : Instruction × ValueId) : Value :=
  ⟨i.2, i.1.name, i.1.shape.getD i.1.operation.shape,
    .instruction (s.opcodeD i.1.operation) b, []⟩

def NumberedBlock.bareValues (s : Snapshot) (b : NumberedBlock) : List Value :=
  b.instructions.map (s.bareValue b.id)

/-- The entry of a block before its successors are set. -/
def NumberedBlock.entry (f : FunctionId) (b : NumberedBlock) : PointerTriage.Block :=
  ⟨b.id, f, b.instructions.map (·.2), []⟩

namespace Reading

open ProgramDraft (ofLists)

variable (s : Snapshot) (values : List Value) (functions : List PointerTriage.Function)
  (blocks : List PointerTriage.Block) (loops : List PointerTriage.Loop) (host : HostFacts)
  (c : Scope) (pending : List (FunctionId × ValueId × Instruction))

theorem foldl_nextFunction (fs : List Function) (block value : Nat) :
    fs.foldl nextFunction ⟨ofLists values functions blocks loops host, c, pending⟩ =
      let numbered := numberFunctions functions.length block value fs
      ⟨ofLists values (functions ++ numbered.map NumberedFunction.header) blocks loops host,
        { c with functions := c.functions ++ numbered.map fun f => (f.source.name, f.id) },
        pending⟩ := by
  induction fs generalizing functions c block value with
  | nil => simp [numberFunctions]
  | cons f fs ih =>
    rw [List.foldl_cons, nextFunction]
    simp only [ProgramDraft.function_ofLists]
    rw [ih _ _ (block + f.blocks.length) (value + f.count)]
    simp [numberFunctions, NumberedFunction.header]

theorem foldl_nextGlobal (gs : List Global) :
    gs.foldl nextGlobal ⟨ofLists values functions blocks loops host, c, pending⟩ =
      let numbered := gs.zipIdx values.length
      ⟨ofLists (values ++ numbered.map fun g =>
          ⟨g.2, some g.1.name, .pointerTo g.1.shape, .global g.1.shape g.1.constant, []⟩)
        functions blocks loops host,
        { c with globals := c.globals ++ numbered.map fun g => (g.1.name, g.2) }, pending⟩ := by
  induction gs generalizing values c with
  | nil => simp
  | cons g gs ih =>
    rw [List.foldl_cons, nextGlobal]
    simp only [ProgramDraft.global_ofLists]
    rw [ih]
    simp

theorem foldl_nextParam (pre post : List PointerTriage.Function) (f : PointerTriage.Function)
    (ps : List Param) :
    ps.foldl (nextParam pre.length)
      ⟨ofLists values (pre ++ f :: post) blocks loops host, c, pending⟩ =
      let numbered := ps.zipIdx values.length
      ⟨ofLists (values ++ (numbered.zipIdx f.params.length).map fun p =>
          ⟨p.1.2, some p.1.1.name, p.1.1.shape, .argument pre.length p.2, []⟩)
        (pre ++ { f with params := f.params ++ numbered.map (·.2) } :: post) blocks loops host,
        { c with locals := c.locals ++ numbered.map fun p => ((pre.length, p.1.name), p.2) },
        pending⟩ := by
  induction ps generalizing values f c with
  | nil => simp
  | cons p ps ih =>
    rw [List.foldl_cons, nextParam]
    simp only [ProgramDraft.param_ofLists, ProgramDraft.setName_ofLists]
    rw [ih]
    simp

theorem foldl_nextBlock (pre post : List PointerTriage.Function) (f : PointerTriage.Function)
    (bs : List Block) (value : Nat) :
    bs.foldl (nextBlock pre.length)
      ⟨ofLists values (pre ++ f :: post) blocks loops host, c, pending⟩ =
      let numbered := numberBlocks blocks.length value bs
      ⟨ofLists values (pre ++ { f with blocks := f.blocks ++ numbered.map NumberedBlock.id } :: post)
        (blocks ++ numbered.map fun b => ⟨b.id, pre.length, [], []⟩) loops host,
        { c with blocks := c.blocks ++ numbered.map fun b => ((pre.length, b.source.label), b.id) },
        pending⟩ := by
  induction bs generalizing blocks f c value with
  | nil => simp [numberBlocks]
  | cons b bs ih =>
    rw [List.foldl_cons, nextBlock]
    simp only [ProgramDraft.block_ofLists]
    rw [ih _ _ _ (value + b.instructions.length)]
    simp [numberBlocks]

theorem foldl_nextInstruction (f : FunctionId) (pre post : List PointerTriage.Block)
    (b : PointerTriage.Block) (is : List Instruction) :
    is.foldl (nextInstruction s f pre.length)
      ⟨ofLists values functions (pre ++ b :: post) loops host, c, pending⟩ =
      let numbered := is.zipIdx values.length
      ⟨ofLists (values ++ numbered.map (s.bareValue pre.length)) functions
        (pre ++ { b with instructions := b.instructions ++ numbered.map (·.2) } :: post) loops host,
        { c with locals := c.locals ++ numbered.filterMap fun i =>
          i.1.name.map fun name => ((f, name), i.2) },
        pending ++ numbered.map fun i => (f, i.2, i.1)⟩ := by
  induction is generalizing values b c pending with
  | nil => simp
  | cons i is ih =>
    rw [List.foldl_cons, nextInstruction]
    simp only [ProgramDraft.instruction_ofLists]
    cases hname : i.name with
    | none =>
      simp only
      rw [ih]
      simp [hname, bareValue]
    | some name =>
      simp only [ProgramDraft.setName_ofLists]
      rw [ih]
      simp [hname, bareValue]

theorem foldl_nextCode (f : FunctionId) (pre : List PointerTriage.Block) (bs : List Block) :
    let numbered := numberBlocks pre.length values.length bs
    numbered.foldl (nextCode s f) ⟨ofLists values functions
      (pre ++ numbered.map fun b => ⟨b.id, f, [], []⟩) loops host, c, pending⟩ =
      ⟨ofLists (values ++ numbered.flatMap (·.bareValues s)) functions
        (pre ++ numbered.map (·.entry f)) loops host,
        { c with locals := c.locals ++ (numbered.flatMap NumberedBlock.instructions).filterMap fun i =>
          i.1.name.map fun name => ((f, name), i.2) },
        pending ++ (numbered.flatMap NumberedBlock.instructions).map fun i => (f, i.2, i.1)⟩ := by
  induction bs generalizing values pre c pending with
  | nil => simp [numberBlocks]
  | cons b bs ih =>
    simp only [numberBlocks, List.foldl_cons, List.map_cons]
    rw [nextCode, foldl_nextInstruction]
    have hrest := ih (values ++ (b.instructions.zipIdx values.length).map (s.bareValue pre.length))
      { c with locals := c.locals ++ (b.instructions.zipIdx values.length).filterMap fun i =>
        i.1.name.map fun name => ((f, name), i.2) }
      (pending ++ (b.instructions.zipIdx values.length).map fun i => (f, i.2, i.1))
      (pre ++ [⟨pre.length, f, (b.instructions.zipIdx values.length).map (·.2), []⟩])
    simp only [List.length_append, List.length_map, List.length_zipIdx, List.length_singleton,
      List.append_assoc, List.singleton_append] at hrest
    simp only [List.nil_append]
    rw [hrest]
    simp [NumberedBlock.bareValues, NumberedBlock.entry]

end Reading

namespace Scope

variable {κ α : Type} [DecidableEq κ]

theorem lookup?_append (l l' : List (κ × α)) (k : κ) :
    lookup? (l ++ l') k = (lookup? l k).or (lookup? l' k) := by
  simp [lookup?, List.find?_append, Option.map_or]

theorem lookup?_of_absent {l : List (κ × α)} {k : κ} (h : k ∉ l.map (·.1)) : lookup? l k = none := by
  refine Option.map_eq_none_iff.mpr (List.find?_eq_none.mpr ?_)
  intro e he heq
  exact h (eq_of_beq heq ▸ List.mem_map_of_mem he)

theorem lookup?_of_mem {l : List (κ × α)} (hd : (l.map (·.1)).Nodup) {k : κ} {a : α}
    (h : (k, a) ∈ l) : lookup? l k = some a := by
  cases hfind : l.find? (·.1 == k) with
  | none => simpa using List.find?_eq_none.mp hfind _ h
  | some e =>
    have hkey : e.1 = k := by simpa using List.find?_some hfind
    have he := List.inj_on_of_nodup_map hd (List.mem_of_find?_eq_some hfind) h hkey
    simp [lookup?, hfind, he]

/-- A name that stands for its position is found where it first occurs. -/
theorem lookup?_zipIdx {β : Type} (name : β → κ) (as : List β) (first : Nat) (k : κ) :
    lookup? ((as.zipIdx first).map fun a => (name a.1, a.2)) k =
      (as.findIdx? (name · == k)).map (· + first) := by
  induction as generalizing first with
  | nil => rfl
  | cons a as ih =>
    rw [List.zipIdx_cons, List.map_cons, List.findIdx?_cons]
    cases hk : name a == k with
    | true => simp [lookup?, hk]
    | false =>
      have hrest : lookup? ((name a, first) :: (as.zipIdx (first + 1)).map fun a => (name a.1, a.2)) k =
          lookup? ((as.zipIdx (first + 1)).map fun a => (name a.1, a.2)) k := by
        simp [lookup?, hk]
      rw [hrest, ih]
      simp [Function.comp_def, Nat.add_assoc, Nat.add_comm 1]

end Scope

theorem functions_numberFunctions (function block value : Nat) (fs : List Function) :
    (numberFunctions function block value fs).map (fun f => (f.source.name, f.id)) =
      (fs.zipIdx function).map fun f => (f.1.name, f.2) := by
  induction fs generalizing function block value with
  | nil => rfl
  | cons f fs ih => simp [numberFunctions, ih]

namespace NumberedFunction

def bareValues (s : Snapshot) (f : NumberedFunction) : List Value :=
  f.arguments ++ f.blocks.flatMap (·.bareValues s)

def entries (f : NumberedFunction) : List PointerTriage.Block := f.blocks.map (·.entry f.id)

def names (f : NumberedFunction) : List ((FunctionId × String) × ValueId) :=
  f.locals.map fun l => ((f.id, l.1), l.2)

def labels (f : NumberedFunction) : List ((FunctionId × String) × BlockId) :=
  f.blocks.map fun b => ((f.id, b.source.label), b.id)

def pending (f : NumberedFunction) : List (FunctionId × ValueId × Instruction) :=
  f.instructions.map fun i => (f.id, i.2, i.1)

theorem names_eq (f : NumberedFunction) : f.names =
    f.params.map (fun p => ((f.id, p.1.name), p.2)) ++
      f.instructions.filterMap fun i => i.1.name.map fun name => ((f.id, name), i.2) := by
  simp [names, locals, List.map_filterMap, Function.comp_def]

end NumberedFunction

/-- The numbers of a function, its blocks and its values begin with these. -/
structure NumberedFunction.From (f : NumberedFunction) (function block value : Nat) : Prop where
  id : f.id = function
  params : f.params = f.source.params.zipIdx value
  blocks : f.blocks = numberBlocks block (value + f.source.params.length) f.source.blocks

theorem from_first (f : Function) (function block value : Nat) :
    NumberedFunction.From ⟨f, function, f.params.zipIdx value,
      numberBlocks block (value + f.params.length) f.blocks⟩ function block value :=
  ⟨rfl, rfl, rfl⟩

namespace Reading

open ProgramDraft (ofLists)

variable {s : Snapshot} {f : NumberedFunction} {values : List Value}
  {functions pre post : List PointerTriage.Function} {blocks : List PointerTriage.Block}
  {loops : List PointerTriage.Loop} {host : HostFacts} {c : Scope}
  {pending : List (FunctionId × ValueId × Instruction)}

theorem addParams_eq {block : Nat} (h : f.From pre.length block values.length)
    (hlocals : ∀ n, (f.id, n) ∉ c.locals.map (·.1)) :
    f.source.params.foldlM (addParam f.id)
      ⟨ofLists values (pre ++ f.header :: post) blocks loops host, c, pending⟩ =
      checkDistinct (.duplicateValue · f.id) [] (f.source.params.map Param.name) >>= fun _ =>
        .ok ⟨ofLists (values ++ f.arguments)
          (pre ++ { f.header with params := f.params.map (·.2) } :: post) blocks loops host,
          { c with locals := c.locals ++ f.params.map fun p => ((f.id, p.1.name), p.2) },
          pending⟩ := by
  rw [foldlM_addParam hlocals]
  rw [h.id, foldl_nextParam, NumberedFunction.arguments, h.params, h.id]
  rfl

theorem addBlocks_eq {value : Nat} (h : f.From pre.length blocks.length value)
    (hlabels : ∀ n, (f.id, n) ∉ c.blocks.map (·.1)) :
    f.source.blocks.foldlM (addBlock f.id f.source.name)
      ⟨ofLists values (pre ++ { f.header with params := f.params.map (·.2) } :: post) blocks loops
        host, c, pending⟩ =
      checkDistinct (.duplicateBlock · f.source.name) [] (f.source.blocks.map Block.label) >>=
        fun _ => .ok ⟨ofLists values (pre ++ functionEntry f :: post)
          (blocks ++ f.blocks.map fun b => ⟨b.id, f.id, [], []⟩) loops host,
          { c with blocks := c.blocks ++ f.labels }, pending⟩ := by
  rw [foldlM_addBlock hlabels, NumberedFunction.labels]
  rw [h.id, foldl_nextBlock _ _ _ _ _ _ _ _ _ _ (value + f.source.params.length), functionEntry,
    h.blocks]
  rfl

/-- Distinct labels of a function are found among those entered for it. -/
theorem block_of_labels (hd : (f.source.blocks.map Block.label).Nodup)
    (hsources : f.blocks.map NumberedBlock.source = f.source.blocks)
    (hlabels : ∀ n, (f.id, n) ∉ c.blocks.map (·.1)) {b : NumberedBlock} (hb : b ∈ f.blocks) :
    Scope.block { c with blocks := c.blocks ++ f.labels } f.id b.source.label = .ok b.id := by
  have hkeys : f.labels.map (·.1) = (f.source.blocks.map Block.label).map (f.id, ·) := by
    simp [NumberedFunction.labels, ← hsources]
  have hnodup : (f.labels.map (·.1)).Nodup := by
    rw [hkeys]
    exact hd.map fun _ _ heq => (Prod.mk.inj heq).2
  have hfound : Scope.lookup? (c.blocks ++ f.labels) (f.id, b.source.label) = some b.id := by
    rw [Scope.lookup?_append, Scope.lookup?_of_absent (hlabels _), Option.none_or]
    exact Scope.lookup?_of_mem hnodup (List.mem_map.mpr ⟨b, hb, rfl⟩)
  simp only [Scope.block, hfound]

theorem addCodes_eq {seen : List String}
    (hblocks : f.blocks = numberBlocks blocks.length values.length f.source.blocks)
    (hd : (f.source.blocks.map Block.label).Nodup)
    (hlabels : ∀ n, (f.id, n) ∉ c.blocks.map (·.1)) (hf : c.function = s.functionId)
    (hseen : ∀ n, n ∈ seen ↔ (f.id, n) ∈ c.locals.map (·.1)) :
    f.source.blocks.foldlM (addCode f.id)
      ⟨ofLists values functions (blocks ++ f.blocks.map fun b => ⟨b.id, f.id, [], []⟩) loops host,
        { c with blocks := c.blocks ++ f.labels }, pending⟩ =
      s.checkInstructions f.id seen (f.source.blocks.flatMap Block.instructions) >>= fun _ =>
        .ok ⟨ofLists (values ++ f.blocks.flatMap (·.bareValues s)) functions (blocks ++ f.entries)
          loops host,
          { c with
            locals := c.locals ++ f.instructions.filterMap fun i =>
              i.1.name.map fun name => ((f.id, name), i.2)
            blocks := c.blocks ++ f.labels },
          pending ++ f.pending⟩ := by
  have hsources : f.blocks.map NumberedBlock.source = f.source.blocks := by
    rw [hblocks, source_numberBlocks]
  rw [← hsources, foldlM_addCode hf (fun b hb => block_of_labels hd hsources hlabels hb) hseen]
  rw [NumberedFunction.entries, NumberedFunction.pending, NumberedFunction.instructions, hblocks,
    foldl_nextCode]

/-- Everything that a function defines is entered, if its names are distinct and the callees known. -/
theorem addBody_eq (h : f.From pre.length blocks.length values.length)
    (hf : c.function = s.functionId) (hid : s.functionId f.source.name = .ok f.id)
    (hlocals : ∀ n, (f.id, n) ∉ c.locals.map (·.1))
    (hlabels : ∀ n, (f.id, n) ∉ c.blocks.map (·.1)) :
    addBody ⟨ofLists values (pre ++ f.header :: post) blocks loops host, c, pending⟩ f.source =
      s.checkFunction f >>= fun _ =>
        .ok ⟨ofLists (values ++ f.bareValues s) (pre ++ functionEntry f :: post)
          (blocks ++ f.entries) loops host,
          { c with locals := c.locals ++ f.names, blocks := c.blocks ++ f.labels },
          pending ++ f.pending⟩ := by
  rw [addBody, hf, hid, checkFunction]
  change f.source.params.foldlM (addParam f.id) _ >>= (fun r =>
    f.source.blocks.foldlM (addBlock f.id f.source.name) r >>= fun r =>
      f.source.blocks.foldlM (addCode f.id) r) = _
  rw [addParams_eq h hlocals]
  cases checkDistinct (.duplicateValue · f.id) [] (f.source.params.map Param.name) with
  | error fault => rfl
  | ok _ =>
    change f.source.blocks.foldlM (addBlock f.id f.source.name) _ >>= (fun r =>
      f.source.blocks.foldlM (addCode f.id) r) = _
    rw [addBlocks_eq (c := { c with
      locals := c.locals ++ f.params.map fun p => ((f.id, p.1.name), p.2) }) h hlabels]
    cases hd : checkDistinct (.duplicateBlock · f.source.name) []
        (f.source.blocks.map Block.label) with
    | error fault => rfl
    | ok _ =>
      change f.source.blocks.foldlM (addCode f.id) _ = _
      have hlength : (values ++ f.arguments).length = values.length + f.source.params.length := by
        simp [NumberedFunction.arguments, h.params]
      have hseen : ∀ n, n ∈ f.source.params.map Param.name ↔ (f.id, n) ∈
          (c.locals ++ f.params.map fun p => ((f.id, p.1.name), p.2)).map (·.1) := by
        intro n
        have hparams : f.params.map (·.1) = f.source.params := by rw [h.params, List.zipIdx_map_fst]
        rw [List.map_append, List.mem_append, or_iff_right (hlocals n), ← hparams]
        simp
      rw [addCodes_eq (c := { c with
        locals := c.locals ++ f.params.map fun p => ((f.id, p.1.name), p.2) })
        (by rw [hlength, h.blocks]) (checkDistinct_ok_iff.mp hd).1 hlabels hf hseen]
      rw [f.names_eq, NumberedFunction.bareValues, ← List.append_assoc, ← List.append_assoc]
      rfl

end Reading

/-- The names that are entered once some functions are done. -/
def scope (s : Snapshot) (done : List NumberedFunction) : Scope where
  functions := s.numbered.map fun f => (f.source.name, f.id)
  globals := s.globals.zipIdx.map fun g => (g.1.name, g.2)
  locals := done.flatMap NumberedFunction.names
  blocks := done.flatMap NumberedFunction.labels

/-- The first pass once some functions are done and the others have their entry only. -/
def reading (s : Snapshot) (done rest : List NumberedFunction) : Reading where
  draft := .ofLists (s.globalValues ++ done.flatMap (·.bareValues s))
    (done.map functionEntry ++ rest.map NumberedFunction.header)
    (done.flatMap NumberedFunction.entries) []
    ⟨s.allocators.getD Settings.defaultAllocators, [], [], []⟩
  scope := s.scope done
  pending := done.flatMap NumberedFunction.pending

section

variable {s : Snapshot} {done rest : List NumberedFunction}

theorem function_scope (s : Snapshot) (done : List NumberedFunction) :
    (s.scope done).function = s.functionId := by
  funext name
  have hlookup : Scope.lookup? (s.numbered.map fun f => (f.source.name, f.id)) name =
      s.functions.findIdx? (·.name == name) := by
    rw [numbered, functions_numberFunctions, Scope.lookup?_zipIdx]
    simp
  simp only [Scope.function, functionId, scope, hlookup]
  cases s.functions.findIdx? (·.name == name) <;> rfl

theorem functionId_of_nodup (hd : s.functionNames.Nodup) {f : NumberedFunction}
    (hf : f ∈ s.numbered) : s.functionId f.source.name = .ok f.id := by
  have hkeys : (s.numbered.map fun f => (f.source.name, f.id)).map (·.1) = s.functionNames := by
    simp [functionNames, ← source_numbered s]
  have hfound : Scope.lookup? (s.numbered.map fun f => (f.source.name, f.id)) f.source.name =
      some f.id :=
    Scope.lookup?_of_mem (by rw [hkeys]; exact hd) (List.mem_map.mpr ⟨f, hf, rfl⟩)
  have hscope : (s.scope []).function f.source.name = .ok f.id := by
    simp only [Scope.function, scope, hfound]
  rwa [function_scope] at hscope

theorem addBody_reading {f : NumberedFunction}
    (h : f.From done.length (done.flatMap NumberedFunction.entries).length
      (s.globalValues ++ done.flatMap (·.bareValues s)).length)
    (hid : s.functionId f.source.name = .ok f.id) (hdone : ∀ g ∈ done, g.id ≠ f.id) :
    (s.reading done (f :: rest)).addBody f.source =
      s.checkFunction f >>= fun _ => .ok (s.reading (done ++ [f]) rest) := by
  have habsent : ∀ {α : Type} (keys : NumberedFunction → List ((FunctionId × String) × α)),
      (∀ g, ∀ e ∈ keys g, e.1.1 = g.id) → ∀ n, (f.id, n) ∉ (done.flatMap keys).map (·.1) := by
    intro α keys hkeys n hm
    obtain ⟨e, hm, he⟩ := List.mem_map.mp hm
    obtain ⟨g, hg, hm⟩ := List.mem_flatMap.mp hm
    exact hdone g hg ((hkeys g e hm).symm.trans (congrArg Prod.fst he))
  have hlocals := habsent NumberedFunction.names (by
    intro g e he
    obtain ⟨_, _, rfl⟩ := List.mem_map.mp he
    rfl)
  have hlabels := habsent NumberedFunction.labels (by
    intro g e he
    obtain ⟨_, _, rfl⟩ := List.mem_map.mp he
    rfl)
  rw [← List.length_map functionEntry] at h
  refine (Reading.addBody_eq h (function_scope s done) hid hlocals hlabels).trans ?_
  simp [reading, scope]

theorem length_bareValues {function block value : Nat} {f : NumberedFunction}
    (h : f.From function block value) : (f.bareValues s).length = f.source.count := by
  have hcode : (f.blocks.flatMap (·.bareValues s)).length =
      ((f.blocks.flatMap NumberedBlock.instructions).map Prod.snd).length := by
    simp [List.length_flatMap, NumberedBlock.bareValues]
  rw [NumberedFunction.bareValues, List.length_append, hcode, h.blocks, ids_of_numberBlocks,
    List.length_range', Function.count, NumberedFunction.arguments]
  simp [h.params]

theorem length_entries {function block value : Nat} {f : NumberedFunction}
    (h : f.From function block value) : f.entries.length = f.source.blocks.length := by
  have hsources : f.blocks.map NumberedBlock.source = f.source.blocks := by
    rw [h.blocks, source_numberBlocks]
  simp [NumberedFunction.entries, ← hsources]

/-- The numbers of the functions go on from those that are done. -/
def Continues (s : Snapshot) : List NumberedFunction → List NumberedFunction → Prop
  | _, [] => True
  | done, f :: rest =>
    f.From done.length (done.flatMap NumberedFunction.entries).length
      (s.globalValues ++ done.flatMap (·.bareValues s)).length ∧ s.Continues (done ++ [f]) rest

theorem continues_numberFunctions (fs : List Function) {function block value : Nat}
    (hf : function = done.length) (hb : block = (done.flatMap NumberedFunction.entries).length)
    (hv : value = (s.globalValues ++ done.flatMap (·.bareValues s)).length) :
    s.Continues done (numberFunctions function block value fs) := by
  induction fs generalizing done function block value with
  | nil => trivial
  | cons f fs ih =>
    have hfrom := from_first f function block value
    rw [numberFunctions]
    refine ⟨by rwa [← hf, ← hb, ← hv], ih ?_ ?_ ?_⟩
    · simp [hf]
    · rw [List.flatMap_append, List.length_append, ← hb, List.flatMap_singleton,
        length_entries hfrom]
    · rw [List.flatMap_append, ← List.append_assoc, List.length_append, ← hv,
        List.flatMap_singleton, length_bareValues hfrom]

theorem foldlM_addBody (hd : s.functionNames.Nodup) (hrest : s.Continues done rest)
    (hall : done ++ rest = s.numbered) :
    (rest.map NumberedFunction.source).foldlM Reading.addBody (s.reading done rest) =
      rest.forM s.checkFunction >>= fun _ => .ok (s.reading s.numbered []) := by
  -- Names of functions that are done are told from those of `f` by their ids.
  induction rest generalizing done with
  | nil =>
    rw [List.append_nil] at hall
    subst hall
    rfl
  | cons f rest ih =>
    obtain ⟨hfrom, hrest⟩ := hrest
    have hids : ∀ g ∈ done, g.id ≠ f.id := by
      intro g hg
      have hnodup : (s.numbered.map NumberedFunction.id).Nodup := by
        rw [ids_numbered_functions]
        exact List.nodup_range
      rw [← hall, List.map_append, List.nodup_append] at hnodup
      exact hnodup.2.2 _ (List.mem_map_of_mem hg) _ (by simp)
    have hmem : f ∈ s.numbered := by simp [← hall]
    change _ = (s.checkFunction f >>= fun _ => rest.forM s.checkFunction) >>= _
    rw [List.map_cons, List.foldlM_cons, addBody_reading hfrom (functionId_of_nodup hd hmem) hids]
    cases s.checkFunction f with
    | error fault => rfl
    | ok _ => exact ih hrest (by rw [List.append_assoc]; exact hall)

/-- The first pass is the check of the names, and enters everything that is numbered. -/
theorem firstPass_eq (s : Snapshot) :
    s.firstPass = s.checkNames >>= fun _ => .ok (s.reading s.numbered []) := by
  have hdraft : s.firstDraft =
      .ofLists [] [] [] [] ⟨s.allocators.getD Settings.defaultAllocators, [], [], []⟩ := by
    unfold firstDraft
    cases s.allocators <;> rfl
  have hglobals : s.globalValues.length = s.globals.length := by simp [globalValues]
  rw [firstPass, hdraft, checkNames, Reading.foldlM_addFunction rfl,
    Reading.foldl_nextFunction _ _ _ _ _ _ _ _ 0 s.globals.length]
  cases hd : checkDistinct .duplicateFunction [] (s.functions.map Function.name) with
  | error fault => rfl
  | ok _ =>
    change s.globals.foldlM Reading.addGlobal _ >>= (fun r =>
      s.functions.foldlM Reading.addBody r) = _
    rw [Reading.foldlM_addGlobal rfl, Reading.foldl_nextGlobal]
    cases checkDistinct .duplicateGlobal [] (s.globals.map Global.name) with
    | error fault => rfl
    | ok _ =>
      have hcontinues : s.Continues [] s.numbered :=
        continues_numberFunctions s.functions rfl rfl (by simp [hglobals])
      have hbody := foldlM_addBody (checkDistinct_ok_iff.mp hd).1 hcontinues rfl
      rw [source_numbered] at hbody
      refine Eq.trans ?_ hbody
      change s.functions.foldlM Reading.addBody _ = _
      congr 1
      simp [reading, scope, Scope.empty, globalValues, numbered]

end

end Snapshot

end PointerTriage
