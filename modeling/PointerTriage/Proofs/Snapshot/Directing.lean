import PointerTriage.Proofs.Program.Redirection
import PointerTriage.Proofs.Snapshot.Facts

namespace PointerTriage

/-- The callee that a call names. -/
def Value.callee? (v : Value) : Option FunctionId :=
  match v.opcode? with
  | some (.call callee) => callee
  | _ => none

/-- The value with the callee it names kept in some cases only. -/
def Value.opened (keep : FunctionId → Bool) (v : Value) : Value :=
  v.redirect fun _ => v.callee?.filter keep

theorem toList_split (keep : FunctionId → Bool) (callee : Option FunctionId) :
    callee.toList = (callee.filter keep).toList ++ (callee.filter (!keep ·)).toList := by
  cases callee with
  | none => rfl
  | some f => cases hk : keep f <;> simp [Option.filter, hk]

theorem Value.redirect_redirect (g g' : ValueId → Option FunctionId) (v : Value) :
    (v.redirect g).redirect g' = v.redirect g' := by
  obtain ⟨_, _, _, kind, _⟩ := v
  cases kind with
  | instruction opcode block => cases opcode <;> rfl
  | _ => rfl

theorem Value.redirect_self {callees : ValueId → Option FunctionId} {v : Value}
    (h : callees v.id = v.callee?) : v.redirect callees = v := by
  obtain ⟨id, _, _, kind, _⟩ := v
  cases kind with
  | instruction opcode block =>
    cases opcode with
    | call callee =>
      change callees id = callee at h
      simp only [redirect, ValueKind.redirect, Opcode.redirect, h]
    | _ => rfl
  | _ => rfl

theorem Value.callee?_opened (keep : FunctionId → Bool) (v : Value) :
    (v.opened keep).callee? = v.callee?.filter keep := by
  obtain ⟨_, _, _, kind, _⟩ := v
  cases kind with
  | instruction opcode block => cases opcode <;> rfl
  | _ => rfl

/-- Values that agree but for the callees they name. -/
theorem Value.eq_redirect_of_opened {keep : FunctionId → Bool} {v v' : Value}
    (h : v.opened keep = v'.opened keep) {callees : ValueId → Option FunctionId}
    (hcallee : callees v'.id = v'.callee?) : v' = v.redirect callees := by
  have hboth := congrArg (Value.redirect callees) h
  rw [opened, opened, redirect_redirect, redirect_redirect, redirect_self hcallee] at hboth
  exact hboth.symm

/-- Tables that agree but for the callees that calls name, where some callees are kept. -/
structure Tables.Agree (keep : FunctionId → Bool) (t t' : Tables) : Prop where
  functions : t'.functions = t.functions
  blocks : t'.blocks = t.blocks
  loops : t'.loops = t.loops
  values : ∀ i : Nat, (t'.values[i]?).map (Value.opened keep) = (t.values[i]?).map (Value.opened keep)

theorem Ir.callee?_eq {ir : Ir} {v : ValueId} {value : Value} (h : ir.value? v = some value) :
    ir.callee? v = value.callee? := by
  rw [callee?, Value.callee?, opcode?, h]
  rfl

/-- With only the callees kept that hand out memory, a value does so if it names a callee. -/
def Value.handsOut (v : Value) : Bool :=
  match v.kind with
  | .global .. | .instruction (.alloca _) _ => true
  | .instruction (.call callee) _ => callee.isSome
  | _ => false

theorem Ir.allocates_eq_opened {ir : Ir} {keep : FunctionId → Bool} {allocators : List String}
    (hkeep : ∀ f, keep f = ((ir.function? f).map Function.name).any allocators.contains)
    (v : ValueId) :
    ir.allocates allocators v = ((ir.value? v).map (Value.opened keep)).any Value.handsOut := by
  cases hv : ir.value? v with
  | none => simp [allocates, hv]
  | some value =>
    have hcallee := callee?_eq hv
    obtain ⟨_, _, _, kind, _⟩ := value
    simp only [allocates, calleeName?, hv, hcallee, Option.map_some, Option.any_some]
    cases kind with
    | instruction opcode block =>
      cases opcode with
      | call callee =>
        cases callee with
        | none => rfl
        | some f =>
          change ((ir.function? f).map Function.name).any allocators.contains =
            ((some f).filter keep).isSome
          rw [← hkeep f]
          cases hk : keep f <;> simp [hk]
      | _ => rfl
    | _ => rfl

section

variable {keep : FunctionId → Bool} {ir ir' : Ir} (h : ir.tables.Agree keep ir'.tables)
include h

theorem Tables.Agree.eq_redirect (hs : ir'.tables.Sound) :
    ir'.tables = ir.tables.redirect ir'.callee? := by
  have hvalues : ir'.tables.values = ir.tables.values.map (Value.redirect ir'.callee?) := by
    apply Array.ext_getElem?
    intro i
    have hi := h.values i
    rw [Array.getElem?_map]
    cases hv : ir.tables.values[i]? with
    | none => simpa [hv] using hi
    | some v =>
      rw [hv] at hi
      obtain ⟨v', hv', he⟩ := Option.map_eq_some_iff.mp hi
      have hcallee : ir'.callee? v'.id = v'.callee? := by
        rw [hs.value i v' hv']
        exact Ir.callee?_eq hv'
      rw [hv', Value.eq_redirect_of_opened he.symm hcallee]
      rfl
  exact (Tables.mk.injEq ..).mpr ⟨hvalues, h.functions, h.blocks, h.loops⟩

/-- What hands out memory, if of the callees just those that do so are kept. -/
theorem Tables.Agree.allocates {allocators : List String}
    (hkeep : ∀ f, keep f = ((ir.function? f).map Function.name).any allocators.contains) :
    ir'.allocates allocators = ir.allocates allocators := by
  have hkeep' : ∀ f, keep f = ((ir'.function? f).map Function.name).any allocators.contains := by
    intro f
    rw [hkeep, Ir.function?, Ir.function?, h.functions]
  funext v
  have hv : (ir'.value? v).map (Value.opened keep) = (ir.value? v).map (Value.opened keep) :=
    h.values v
  rw [Ir.allocates_eq_opened hkeep', Ir.allocates_eq_opened hkeep, hv]

end

namespace Snapshot

/-- The functions that are recorded for a call. -/
def targetsIn (targets : List (ValueId × FunctionId)) (v : ValueId) : List FunctionId :=
  (targets.filter (·.1 == v)).map (·.2)

theorem targetsIn_append (ts us : List (ValueId × FunctionId)) (v : ValueId) :
    targetsIn (ts ++ us) v = targetsIn ts v ++ targetsIn us v := by
  simp [targetsIn]

theorem targetsIn_own (fs : List FunctionId) (v : ValueId) :
    targetsIn (fs.map (v, ·)) v = fs := by
  induction fs with
  | nil => rfl
  | cons f fs ih => simpa [targetsIn] using ih

theorem targetsIn_eq_nil {ts : List (ValueId × FunctionId)} {v : ValueId}
    (h : ∀ target ∈ ts, target.1 ≠ v) : targetsIn ts v = [] := by
  have hfilter : ts.filter (·.1 == v) = [] := by
    refine List.filter_eq_nil_iff.mpr ?_
    intro target ht
    simpa using h target ht
  rw [targetsIn, hfilter, List.map_nil]

/-- The callee of a call as the first of its targets, unless it hands out memory. -/
def Operation.opened (allocators : List String) : Operation → Operation
  | .call callee targets =>
    .call (callee.filter allocators.contains)
      ((callee.filter (!allocators.contains ·)).toList ++ targets)
  | op => op

/-- What is linked, and the same with callees moved to the targets. -/
structure Linked.Opens (keep : FunctionId → Bool) (l k : Linked) : Prop where
  values : k.values = l.values.map (Value.opened keep)
  constants : k.constants = l.constants
  site : ∀ target ∈ l.targets ++ k.targets, target.1 ∈ l.values.map Value.id
  reached : ∀ v ∈ l.values, targetsIn k.targets v.id =
    (v.callee?.filter (!keep ·)).toList ++ targetsIn l.targets v.id

namespace Linked.Opens

variable {keep : FunctionId → Bool}

/-- Nothing is recorded for other values than the linked ones. -/
theorem targetsIn_other {l k : Linked} (h : l.Opens keep k) {v : ValueId}
    (hv : v ∉ l.values.map Value.id) : targetsIn l.targets v = [] ∧ targetsIn k.targets v = [] := by
  have hne : ∀ target ∈ l.targets ++ k.targets, target.1 ≠ v := by
    intro target ht he
    exact hv (he ▸ h.site target ht)
  exact ⟨targetsIn_eq_nil fun t ht => hne t (List.mem_append_left _ ht),
    targetsIn_eq_nil fun t ht => hne t (List.mem_append_right _ ht)⟩

/-- Where two parts open to the same, a call and its like reach the same functions. -/
theorem reached_eq {l l' k : Linked} (h : l.Opens keep k) (h' : l'.Opens keep k) {v v' : Value}
    (hv : v ∈ l.values) (hv' : v' ∈ l'.values) (ho : v'.opened keep = v.opened keep) :
    v'.callee?.toList ++ targetsIn l'.targets v.id = v.callee?.toList ++ targetsIn l.targets v.id := by
  have hid : v'.id = v.id := (congrArg Value.id ho :)
  have hkept : v'.callee?.filter keep = v.callee?.filter keep := by
    rw [← Value.callee?_opened, ← Value.callee?_opened, ho]
  have hreached := h.reached v hv
  have hreached' := h'.reached v' hv'
  rw [hid] at hreached'
  rw [toList_split keep v'.callee?, toList_split keep v.callee?, List.append_assoc,
    List.append_assoc, ← hreached, ← hreached', hkept]

theorem append {l l' k k' : Linked} (h : l.Opens keep k) (h' : l'.Opens keep k')
    (hd : ((l.append l').values.map Value.id).Nodup) :
    (l.append l').Opens keep (k.append k') := by
  have hids : (l.append l').values.map Value.id = l.values.map Value.id ++ l'.values.map Value.id :=
    List.map_append
  rw [hids] at hd
  have hapart := List.disjoint_of_nodup_append hd
  constructor
  case values => simp only [Linked.append, h.values, h'.values, List.map_append]
  case constants => simp only [Linked.append, h.constants, h'.constants]
  case site =>
    intro target ht
    rw [hids, List.mem_append]
    have hs := h.site target
    have hs' := h'.site target
    simp only [Linked.append, List.mem_append] at ht hs hs'
    tauto
  case reached =>
    intro v hv
    simp only [Linked.append, targetsIn_append]
    rcases List.mem_append.mp hv with hv | hv
    · obtain ⟨hl, hk⟩ := h'.targetsIn_other fun hmem => hapart (List.mem_map_of_mem hv) hmem
      rw [hl, hk, List.append_nil, List.append_nil, h.reached v hv]
    · obtain ⟨hl, hk⟩ := h.targetsIn_other fun hmem => hapart hmem (List.mem_map_of_mem hv)
      rw [hl, hk, List.nil_append, List.nil_append, h'.reached v hv]

end Linked.Opens

section

variable {s : Snapshot} {allocators : List String} {keep : FunctionId → Bool}

variable (hkeep : ∀ name f, s.functionId name = .ok f → keep f = allocators.contains name)
include hkeep

theorem opcode_opened {callee : Option String} {targets : List String} {opcode : Opcode}
    (h : s.opcode (.call callee targets) = .ok opcode) {fs : List FunctionId}
    (hfs : targets.mapM s.functionId = .ok fs) :
    ∃ f, opcode = .call f ∧
      s.opcode (Operation.opened allocators (.call callee targets)) = .ok (.call (f.filter keep)) ∧
      (Operation.opened allocators (.call callee targets)).targets.mapM s.functionId =
        .ok ((f.filter (!keep ·)).toList ++ fs) := by
  rcases call_of_opcode h with ⟨rfl, rfl⟩ | ⟨name, f, rfl, rfl, hf⟩
  · exact ⟨none, rfl, rfl, hfs⟩
  refine ⟨some f, rfl, ?_⟩
  have hname := hkeep name f hf
  cases hc : allocators.contains name with
  | true =>
    rw [hc] at hname
    have hop : Operation.opened allocators (.call (some name) targets) =
        .call (some name) targets := by simp only [Operation.opened, Option.filter, hc]; rfl
    have hkept : (some f).filter keep = some f := by simp [hname]
    have hmoved : (some f).filter (!keep ·) = none := by simp [hname]
    rw [hop, hkept, hmoved]
    exact ⟨h, hfs⟩
  | false =>
    rw [hc] at hname
    have hop : Operation.opened allocators (.call (some name) targets) =
        .call none (name :: targets) := by simp only [Operation.opened, Option.filter, hc]; rfl
    have hkept : (some f).filter keep = none := by simp [hname]
    have hmoved : (some f).filter (!keep ·) = some f := by simp [hname]
    rw [hop, hkept, hmoved]
    exact ⟨rfl, except_mapM_ok_iff.mpr (.cons hf (except_mapM_ok_iff.mp hfs))⟩

theorem linkInstruction_opens {f : NumberedFunction} {block : BlockId} {next : ValueId}
    {i : Instruction} {v : ValueId} {l : Linked} (h : s.linkInstruction f block next i v = .ok l) :
    ∃ k, (s.recode (.opened allocators)).linkInstruction (f.recode (.opened allocators)) block next
        (i.recode (.opened allocators)) v = .ok k ∧ l.Opens keep k := by
  obtain ⟨name, operation, shape, ops⟩ := i
  unfold linkInstruction at h ⊢
  simp only [except_bind_ok_iff, opcode_recode, operands_recode, functionId_recode,
    Instruction.recode] at h ⊢
  obtain ⟨opcode, ho, ⟨vs, cs⟩, hvs, fs, hfs, he⟩ := h
  cases he
  cases operation with
  | call callee targets =>
    obtain ⟨g, rfl, hopcode, htargets⟩ := opcode_opened hkeep ho hfs
    refine ⟨_, ⟨_, hopcode, _, hvs, _, htargets, rfl⟩, rfl, rfl, ?_, ?_⟩
    · intro target ht
      rw [← List.map_append] at ht
      obtain ⟨_, _, rfl⟩ := List.mem_map.mp ht
      exact List.mem_singleton_self v
    · intro value hvalue
      rw [List.mem_singleton.mp hvalue, targetsIn_own, targetsIn_own]
      rfl
  | _ =>
    cases ho
    cases hfs
    refine ⟨_, ⟨_, rfl, _, hvs, [], rfl, rfl⟩, ?_⟩
    exact ⟨rfl, rfl, by simp, by simp [Value.callee?, Value.opcode?, targetsIn]⟩

omit hkeep in
theorem linkEach_opens {α β : Type} {link : ValueId → α → Except NameFault Linked}
    {link' : ValueId → β → Except NameFault Linked} (g : α → β)
    (hitem : ∀ next a l, link next a = .ok l → (l.values.map Value.id).Nodup →
      ∃ k, link' next (g a) = .ok k ∧ l.Opens keep k)
    {next : ValueId} {as : List α} {l : Linked} (h : linkEach link next as = .ok l)
    (hd : (l.values.map Value.id).Nodup) :
    ∃ k, linkEach link' next (as.map g) = .ok k ∧ l.Opens keep k := by
  induction as generalizing next l with
  | nil =>
    cases h
    exact ⟨_, rfl, rfl, rfl, by simp, by simp⟩
  | cons a as ih =>
    simp only [linkEach, List.map_cons, except_bind_ok_iff] at h ⊢
    obtain ⟨one, hone, rest, hrest, he⟩ := h
    cases he
    have hids := hd
    simp only [Linked.append, List.map_append] at hids
    obtain ⟨k, hk, hopens⟩ := hitem _ _ _ hone hids.of_append_left
    obtain ⟨k', hk', hopens'⟩ := ih hrest hids.of_append_right
    rw [← hopens.constants] at hk'
    exact ⟨_, ⟨k, hk, k', hk', rfl⟩, hopens.append hopens' hd⟩

theorem linkBlock_opens {f : NumberedFunction} {next : ValueId} {b : NumberedBlock} {l : Linked}
    (h : s.linkBlock f next b = .ok l) (hd : (l.values.map Value.id).Nodup) :
    ∃ k, (s.recode (.opened allocators)).linkBlock (f.recode (.opened allocators)) next
        (b.recode (.opened allocators)) = .ok k ∧ l.Opens keep k := by
  refine linkEach_opens (fun item => (item.1.recode (.opened allocators), item.2)) ?_ h hd
  intro next item l hl _
  exact linkInstruction_opens hkeep hl

theorem linkFunction_opens {next : ValueId} {f : NumberedFunction} {l : Linked}
    (h : s.linkFunction next f = .ok l) (hd : (l.values.map Value.id).Nodup) :
    ∃ k, (s.recode (.opened allocators)).linkFunction next (f.recode (.opened allocators)) = .ok k ∧
      l.Opens keep k := by
  unfold linkFunction at h ⊢
  simp only [except_bind_ok_iff] at h ⊢
  obtain ⟨body, hbody, he⟩ := h
  cases he
  have hids := hd
  simp only [List.map_append] at hids
  obtain ⟨k, hk, hopens⟩ := linkEach_opens (NumberedBlock.recode (.opened allocators))
    (fun _ _ _ hl hd => linkBlock_opens hkeep hl hd) hbody hids.of_append_right
  refine ⟨_, ⟨k, hk, rfl⟩, ?_⟩
  -- Parameters are linked to values that name no callee.
  have hparams : Linked.Opens keep ⟨f.arguments, [], []⟩ ⟨f.arguments, [], []⟩ := by
    refine ⟨?_, rfl, by simp, ?_⟩
    · rw [NumberedFunction.arguments, List.map_map]
      rfl
    · intro v hv
      obtain ⟨_, _, rfl⟩ := List.mem_map.mp hv
      rfl
  exact hparams.append hopens hd

theorem Linking.opens {code : Linked} {bodies : List (List PointerTriage.Block)} {t : Tables}
    {host : HostFacts} (h : s.Linking code bodies t host) (hd : (code.values.map Value.id).Nodup) :
    ∃ k, linkEach (s.recode (.opened allocators)).linkFunction s.firstConstant
        (s.recode (.opened allocators)).numbered = .ok k ∧ code.Opens keep k := by
  rw [numbered_recode]
  refine linkEach_opens (NumberedFunction.recode (.opened allocators)) ?_ h.functions hd
  intro next f l hl hd
  exact linkFunction_opens hkeep hl hd

end

theorem Linking.nodup_code {s : Snapshot} {code : Linked}
    {bodies : List (List PointerTriage.Block)} {t : Tables} {host : HostFacts}
    (h : s.Linking code bodies t host) {b : Built} (hp : b.Parts t host) :
    (code.values.map Value.id).Nodup := by
  have hids : (b.program.ir.values.map Value.id).Nodup :=
    List.pairwise_map.mpr (hp.sound.ids_ascending.imp Nat.ne_of_lt)
  rw [Ir.values, (Ir.ofTables_ok hp.ir).1, h.values_toList, List.map_append, List.map_append] at hids
  exact hids.of_append_left.of_append_right

/-- Whether the function of that number hands out memory. -/
def keeps (s : Snapshot) (f : FunctionId) : Bool :=
  ((s.functions[f]?).map Function.name).any s.allocatorNames.contains

theorem keeps_of_functionId {s : Snapshot} {name : String} {f : FunctionId}
    (h : s.functionId name = .ok f) : s.keeps f = s.allocatorNames.contains name := by
  unfold functionId at h
  split at h
  · rename_i i hi
    cases h
    obtain ⟨hlt, hname, _⟩ := List.findIdx?_eq_some_iff_getElem.mp hi
    have hname : s.functions[f].name = name := by simpa using hname
    rw [keeps, List.getElem?_eq_getElem hlt, Option.map_some, Option.any_some, hname]
  · cases h

/-- The calls of the second snapshot may reach the functions that those of the first may, in the same
order, and the same ones name a function that hands out memory. -/
structure Reroutes (s s' : Snapshot) : Prop where
  code : s'.recode (.opened s.allocatorNames) = s.recode (.opened s.allocatorNames)
  loops : s'.loops = s.loops
  pointsTo : s'.pointsTo = s.pointsTo
  flows : s'.flows = s.flows
  allocators : s'.allocators = s.allocators

namespace Reroutes

variable {s s' : Snapshot} (h : s.Reroutes s')
include h

theorem allocatorNames : s'.allocatorNames = s.allocatorNames := by
  rw [Snapshot.allocatorNames, Snapshot.allocatorNames, h.allocators]

theorem keeps : s'.keeps = s.keeps := by
  have hnames : ∀ (r : Snapshot) (f : FunctionId), (r.functions[f]?).map Function.name =
      ((r.recode (.opened s.allocatorNames)).functions[f]?).map Function.name := by
    intro r f
    simp [recode, Function.recode, Function.comp_def]
  funext f
  rw [Snapshot.keeps, Snapshot.keeps, h.allocatorNames, hnames s', h.code, ← hnames s]

theorem firstConstant : s'.firstConstant = s.firstConstant := by
  rw [← firstConstant_recode (.opened s.allocatorNames) s', h.code, firstConstant_recode]

theorem globalValues : s'.globalValues = s.globalValues := by
  obtain ⟨hglobals, _⟩ := Snapshot.mk.inj h.code
  rw [Snapshot.globalValues, Snapshot.globalValues, hglobals]

/-- The tables agree but for the callees that calls name. -/
theorem tables {code code' : Linked} {bodies bodies' : List (List PointerTriage.Block)}
    {t t' : Tables} {host host' : HostFacts} (hl : s.Linking code bodies t host)
    (hl' : s'.Linking code' bodies' t' host') :
    t'.functions = t.functions ∧ t'.blocks = t.blocks ∧ t'.loops = t.loops ∧
      host'.pointsTo = host.pointsTo ∧ host'.flows = host.flows ∧
      host'.allocators = host.allocators := by
  have hpair : s'.linkPair = s.linkPair := by
    rw [← linkPair_recode (.opened s.allocatorNames) s', h.code, linkPair_recode]
  have hloop : s'.linkLoop = s.linkLoop := by
    rw [← linkLoop_recode (.opened s.allocatorNames) s', h.code, linkLoop_recode]
  have hentries : s'.numbered.map functionEntry = s.numbered.map functionEntry := by
    rw [← functionEntries_recode (.opened s.allocatorNames) s', h.code, functionEntries_recode]
  have hbodies : bodies' = bodies := by
    have hb' := hl'.successors
    rw [← mapM_linkSuccessors_recode (.opened s.allocatorNames) s', h.code,
      mapM_linkSuccessors_recode, hl.successors] at hb'
    exact (Except.ok.inj hb').symm
  refine ⟨?_, ?_, ?_, ?_, ?_, ?_⟩
  · rw [hl'.functionTable, hl.functionTable, hentries]
  · rw [hl'.blockTable, hl.blockTable, hbodies]
  · have hloops := hl'.loops
    rw [h.loops, hloop, hl.loops] at hloops
    exact (Except.ok.inj hloops).symm
  · have hpoints := hl'.pointsTo
    rw [h.pointsTo, hpair, hl.pointsTo] at hpoints
    exact (Except.ok.inj hpoints).symm
  · have hflows := hl'.flows
    rw [h.flows, hpair, hl.flows] at hflows
    exact (Except.ok.inj hflows).symm
  · rw [hl'.allocators, hl.allocators, h.allocators]

/-- Both open to the same code. -/
theorem opens {code code' : Linked} {bodies bodies' : List (List PointerTriage.Block)}
    {t t' : Tables} {host host' : HostFacts} (hl : s.Linking code bodies t host)
    (hl' : s'.Linking code' bodies' t' host') (hd : (code.values.map Value.id).Nodup)
    (hd' : (code'.values.map Value.id).Nodup) :
    ∃ k, code.Opens s.keeps k ∧ code'.Opens s.keeps k := by
  obtain ⟨k, hk, hopens⟩ := hl.opens (fun _ _ => keeps_of_functionId) hd
  obtain ⟨k', hk', hopens'⟩ := hl'.opens (fun _ _ => keeps_of_functionId) hd'
  rw [h.allocatorNames, h.code, h.firstConstant, hk] at hk'
  rw [h.keeps] at hopens'
  cases hk'
  exact ⟨k, hopens, hopens'⟩

/-- Value by value, the tables open to the same. -/
theorem values {code code' k : Linked} {bodies bodies' : List (List PointerTriage.Block)}
    {t t' : Tables} {host host' : HostFacts} (hl : s.Linking code bodies t host)
    (hl' : s'.Linking code' bodies' t' host') (hk : code.Opens s.keeps k)
    (hk' : code'.Opens s.keeps k) (i : Nat) :
    (t'.values[i]?).map (Value.opened s.keeps) = (t.values[i]?).map (Value.opened s.keeps) := by
  have hlists : t'.values.toList.map (Value.opened s.keeps) =
      t.values.toList.map (Value.opened s.keeps) := by
    rw [hl'.valueTable, hl.valueTable, h.globalValues, h.firstConstant, ← hk.constants,
      ← hk'.constants]
    simp only [List.map_append, ← hk.values, ← hk'.values]
  simpa using congrArg (fun l => l[i]?) hlists

end Reroutes

end Snapshot

section

variable {s s' : Snapshot} (h : s.Reroutes s') {b b' : Built} {t t' : Tables}
  {host host' : HostFacts} (hp : b.Parts t host) (hp' : b'.Parts t' host')
  (hl : s.link = .ok (t, host)) (hl' : s'.link = .ok (t', host'))
include h hp hp' hl hl'

theorem redirects_of_reroutes : t' = t.redirect b'.program.ir.callee? ∧
    b.program.ir.Redirects b'.program.ir.callee? host host' := by
  obtain ⟨ht, _⟩ := Ir.ofTables_ok hp.ir
  obtain ⟨ht', _⟩ := Ir.ofTables_ok hp'.ir
  obtain ⟨code, bodies, hlink⟩ := Snapshot.link_ok_iff.mp hl
  obtain ⟨code', bodies', hlink'⟩ := Snapshot.link_ok_iff.mp hl'
  obtain ⟨k, hk, hk'⟩ := h.opens hlink hlink' (hlink.nodup_code hp) (hlink'.nodup_code hp')
  obtain ⟨hfunctions, hblocks, hloops, hpoints, hflows, hallocators⟩ := h.tables hlink hlink'
  have hagree : b.program.ir.tables.Agree s.keeps b'.program.ir.tables := by
    rw [ht, ht']
    exact ⟨hfunctions, hblocks, hloops, h.values hlink hlink' hk hk'⟩
  have hredirect := hagree.eq_redirect hp'.sound
  have hkeep : ∀ f, s.keeps f =
      ((b.program.ir.function? f).map Function.name).any host.allocators.contains := by
    intro f
    rw [Ir.function?, ht, hlink.function_name, hlink.allocators]
    rfl
  have htables : t' = t.redirect b'.program.ir.callee? := by rw [← ht, ← ht', hredirect]
  have hir : b'.program.ir = b.program.ir.redirect b'.program.ir.callee? :=
    Tables.ofTables_redirect _ hp.ir (htables ▸ hp'.ir)
  refine ⟨htables, hallocators, hpoints, hflows, ?_, ?_⟩
  · rw [← hir]
    exact hagree.allocates hkeep
  · intro v hv callee ho
    have hcallee : v.callee? = callee := by simp [Value.callee?, ho]
    -- The value in the same place of the other table.
    have hvalue := hagree.values v.id
    rw [show b.program.ir.tables.values[v.id]? = some v from hp.sound.value?_of_mem hv] at hvalue
    obtain ⟨v', hv', hopened⟩ := Option.map_eq_some_iff.mp hvalue
    have hcallee' := Ir.callee?_eq hv'
    have hid : v'.id = v.id := hp'.sound.id_of_value? hv'
    have hcall : v' = v.redirect b'.program.ir.callee? :=
      Value.eq_redirect_of_opened hopened.symm (hid ▸ hcallee')
    have ho' : v'.opcode? = some (.call (b'.program.ir.callee? v.id)) := by
      rw [hcall, Value.opcode?_redirect, ho]
      rfl
    have hmem : v ∈ code.values := hlink.mem_code (ht ▸ Array.mem_toList_iff.mp hv) ho
    have hmem' : v' ∈ code'.values := hlink'.mem_code (ht' ▸ Array.mem_of_getElem? hv') ho'
    change (b'.program.ir.callee? v.id).toList ++ Snapshot.targetsIn host'.targets v.id =
      callee.toList ++ Snapshot.targetsIn host.targets v.id
    rw [hcallee', ← hcallee, hlink.targets, hlink'.targets]
    exact hk.reached_eq hk' hmem hmem' hopened

end

namespace Snapshot

/-- The instruction as a direct call. -/
def Instruction.directed (callee : String) (i : Instruction) : Instruction :=
  { i with operation := .call (some callee) [] }

/-- The snapshot with one instruction made a direct call: the `k`th of the `j`th block of the `i`th
function. -/
def directAt (s : Snapshot) (i j k : Nat) (callee : String) : Snapshot :=
  { s with functions := s.functions.modify i fun f =>
      { f with blocks := f.blocks.modify j fun b =>
          { b with instructions := b.instructions.modify k (Instruction.directed callee) } } }

theorem map_modify {α β : Type} {m : α → β} {g : α → α} {as : List α} {i : Nat} {a : α}
    (ha : as[i]? = some a) (h : m (g a) = m a) : (as.modify i g).map m = as.map m := by
  apply List.ext_getElem?
  intro j
  rw [List.getElem?_map, List.getElem?_map, List.getElem?_modify]
  by_cases hij : i = j
  · subst hij
    simp [ha, h]
  · simp [hij]

theorem reroutes_directAt {s : Snapshot} {i j k : Nat} {f : Function} {block : Block}
    {call : Instruction} {callee : String} (hf : s.functions[i]? = some f)
    (hblock : f.blocks[j]? = some block) (hcall : block.instructions[k]? = some call)
    (ho : call.operation = .call none [callee]) (hcallee : callee ∉ s.allocatorNames) :
    s.Reroutes (s.directAt i j k callee) := by
  refine ⟨?_, rfl, rfl, rfl, rfl⟩
  have hoperation : Operation.opened s.allocatorNames (.call (some callee) []) =
      Operation.opened s.allocatorNames call.operation := by
    rw [ho]
    simp [Operation.opened, hcallee]
  have hfunctions : (s.directAt i j k callee).functions.map
      (Function.recode (.opened s.allocatorNames)) =
      s.functions.map (Function.recode (.opened s.allocatorNames)) := by
    refine map_modify hf ?_
    simp only [Function.recode]
    rw [map_modify hblock]
    simp only [Block.recode]
    rw [map_modify hcall]
    simp only [Instruction.recode, Instruction.directed, hoperation]
  rw [recode, hfunctions]
  rfl

/-- An indirect call with one target gives the same program as a direct call of that function, unless
the function hands out memory: the same points-to sets, graphs, callees and taint. -/
theorem directAt_same {s : Snapshot} {i j k : Nat} {f : Function} {block : Block}
    {call : Instruction} {callee : String} (hf : s.functions[i]? = some f)
    (hblock : f.blocks[j]? = some block) (hcall : block.instructions[k]? = some call)
    (ho : call.operation = .call none [callee]) (hcallee : callee ∉ s.allocatorNames)
    {b b' : Built} (hb : s.build = .ok b) (hb' : (s.directAt i j k callee).build = .ok b') :
    b'.pointsTo = b.pointsTo ∧ b'.program.flow = b.program.flow ∧
      b'.program.control = b.program.control ∧ b'.calls = b.calls ∧
      ∀ settings, Taint.run (b'.context settings) = Taint.run (b.context settings) := by
  obtain ⟨t, host, hl, ht⟩ := build_ok_iff.mp hb
  obtain ⟨t', host', hl', ht'⟩ := build_ok_iff.mp hb'
  have hp := Built.ofTables_ok_iff.mp ht
  have hp' := Built.ofTables_ok_iff.mp ht'
  obtain ⟨htables, hredirects⟩ := redirects_of_reroutes
    (reroutes_directAt hf hblock hcall ho hcallee) hp hp' hl hl'
  obtain ⟨hpoints, hflow, hcontrol, hcalls, hcontext⟩ :=
    hp.context_redirect hp' htables hredirects
  refine ⟨hpoints, hflow, hcontrol, hcalls, ?_⟩
  intro settings
  rw [hcontext, Taint.run_redirect]

/-- The indirect call of `keep` made direct. -/
theorem relay_directAt_same : ∃ b b', relay.build = .ok b ∧
    (relay.directAt 2 0 1 "keep").build = .ok b' ∧
    b'.pointsTo = b.pointsTo ∧ b'.program.flow = b.program.flow ∧
    b'.program.control = b.program.control ∧ b'.calls = b.calls ∧
    ∀ settings, Taint.run (b'.context settings) = Taint.run (b.context settings) := by
  obtain ⟨b, hb⟩ := exists_ok_of_isOk (x := relay.build) (by decide +kernel)
  obtain ⟨b', hb'⟩ := exists_ok_of_isOk (x := (relay.directAt 2 0 1 "keep").build)
    (by decide +kernel)
  exact ⟨b, b', hb, hb', directAt_same rfl rfl rfl rfl (by decide +kernel) hb hb'⟩

/-- A direct call of `malloc` points to the memory that it hands out, an indirect one to nothing. -/
theorem request_directAt_differs : ∃ b b', (request (.call none ["malloc"])).build = .ok b ∧
    ((request (.call none ["malloc"])).directAt 2 1 0 "malloc").build = .ok b' ∧
    b.pointsTo.objects 6 = ∅ ∧ b'.pointsTo.objects 6 = .ofList [0] ∧
    b.program.flow.node? 5 = some ⟨.actualReturn, 6⟩ ∧ b'.program.flow.node? 5 = some ⟨.addr, 6⟩ ∧
    (Taint.run (b.context .unchanged)).1.allocations = ∅ ∧
    (Taint.run (b'.context .unchanged)).1.allocations = .ofList [5] := by
  obtain ⟨b, hb⟩ := exists_ok_of_isOk (x := (request (.call none ["malloc"])).build)
    (by decide +kernel)
  obtain ⟨b', hb'⟩ := exists_ok_of_isOk
    (x := ((request (.call none ["malloc"])).directAt 2 1 0 "malloc").build) (by decide +kernel)
  have hindirect : ((request (.call none ["malloc"])).build.toOption.map fun b =>
      (b.pointsTo.objects 6, b.program.flow.node? 5,
        (Taint.run (b.context .unchanged)).1.allocations)) =
      some (∅, some ⟨.actualReturn, 6⟩, ∅) := by decide +kernel
  have hdirect : (((request (.call none ["malloc"])).directAt 2 1 0 "malloc").build.toOption.map
      fun b => (b.pointsTo.objects 6, b.program.flow.node? 5,
        (Taint.run (b.context .unchanged)).1.allocations)) =
      some (.ofList [0], some ⟨.addr, 6⟩, .ofList [5]) := by decide +kernel
  rw [hb] at hindirect
  rw [hb'] at hdirect
  simp only [Except.toOption, Option.map_some, Option.some.injEq, Prod.mk.injEq] at hindirect hdirect
  obtain ⟨hpoints, hnode, htaint⟩ := hindirect
  obtain ⟨hpoints', hnode', htaint'⟩ := hdirect
  exact ⟨b, b', hb, hb', hpoints, hpoints', hnode, hnode', htaint, htaint'⟩

end Snapshot

end PointerTriage
