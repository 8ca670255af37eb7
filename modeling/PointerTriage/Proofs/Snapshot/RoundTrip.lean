import PointerTriage.Proofs.Shape.Settling
import PointerTriage.Snapshot.Json

namespace PointerTriage.Snapshot
open PointerTriage.Json

theorem settles_texts (n : Nat) : Settles (n + 1) .texts texts? := (settles_text n).list

theorem settled_texts_nil (n : Nat) : Settled (n + 1) .texts texts? [] := settled_nil

theorem settles_optional_text (n : Nat) : Settles n (.option .text) (option? text?) :=
  (settles_text n).option nofun

theorem settles_pair {first second : String} (hne : first ≠ second) (n : Nat) :
    Settles (n + 1) (fun (a, b) => .record [(first, .text a), (second, .text b)])
      (pair? first second) := by
  intro j hj p h
  obtain ⟨es, hes, h⟩ := Option.bind_eq_some_iff.mp h
  obtain ⟨a, ha, h⟩ := Option.bind_eq_some_iff.mp h
  obtain ⟨b, hb, h⟩ := Option.bind_eq_some_iff.mp h
  cases h
  have hes := nested_of_fields? hes hj
  have ha := (settles_text n).required hes ha
  have hb := (settles_text n).required hes hb
  refine ⟨?_, .record (by simpa using ⟨ha.nested, hb.nested⟩)⟩
  simp [pair?, required, hne, ha.read_write, hb.read_write]

theorem settles_pairs {first second : String} (hne : first ≠ second) (n : Nat) :
    Settles (n + 2) (pairs first second) (listOf? (pair? first second)) :=
  (settles_pair hne n).list

theorem settled_pairs_nil (first second : String) (n : Nat) :
    Settled (n + 1) (pairs first second) (listOf? (pair? first second)) [] :=
  settled_nil

theorem Global.settles (n : Nat) : Settles (n + 1) Global.toJson Global.ofJson? := by
  intro j hj g h
  obtain ⟨es, hes, h⟩ := Option.bind_eq_some_iff.mp h
  obtain ⟨_, hname, h⟩ := Option.bind_eq_some_iff.mp h
  obtain ⟨_, hshape, h⟩ := Option.bind_eq_some_iff.mp h
  obtain ⟨_, hconstant, h⟩ := Option.bind_eq_some_iff.mp h
  cases h
  have hes := nested_of_fields? hes hj
  have hname := (settles_text n).required hes hname
  have hshape := (Shape.settles n false).required hes hshape
  have hconstant := (settles_bool n).withDefault hes ⟨rfl, .atom trivial⟩ hconstant
  refine ⟨?_, .record (by simpa using ⟨hname.nested, hshape.nested, hconstant.nested⟩)⟩
  simp [Global.ofJson?, Global.toJson, required, withDefault, hname.read_write, hshape.read_write,
    hconstant.read_write]

theorem Param.settles (n : Nat) : Settles (n + 1) Param.toJson Param.ofJson? := by
  intro j hj p h
  obtain ⟨es, hes, h⟩ := Option.bind_eq_some_iff.mp h
  obtain ⟨_, hname, h⟩ := Option.bind_eq_some_iff.mp h
  obtain ⟨_, hshape, h⟩ := Option.bind_eq_some_iff.mp h
  cases h
  have hes := nested_of_fields? hes hj
  have hname := (settles_text n).required hes hname
  have hshape := (Shape.settles n false).required hes hshape
  refine ⟨?_, .record (by simpa using ⟨hname.nested, hshape.nested⟩)⟩
  simp [Param.ofJson?, Param.toJson, required, hname.read_write, hshape.read_write]

/-- An operand is told from its kind of value. -/
theorem Operand.settles (n : Nat) : Settles n Operand.toJson Operand.ofJson? := by
  intro j _ o h
  cases j with
  | null =>
    cases h
    exact ⟨rfl, .atom trivial⟩
  | text s =>
    cases h
    exact ⟨rfl, .atom trivial⟩
  | integer i =>
    obtain ⟨_, hi, rfl⟩ := Option.map_eq_some_iff.mp h
    obtain ⟨hrange, he⟩ := Option.ite_none_right_eq_some.mp hi
    cases he
    exact ⟨h, .atom ⟨by omega, by omega⟩⟩
  | _ => cases h

namespace Operation

/-- The operation of this name that carries this. -/
def ofContent? (content : Json) : String → Option Operation
  | "alloca" => do
    let es ← fields? false ["allocated"] content
    return .alloca (← required es "allocated" (Shape.ofJson? true))
  | "call" => do
    let es ← fields? false ["callee", "targets"] content
    return .call (← withDefault es "callee" (option? text?) none)
      (← withDefault es "targets" texts? [])
  | name => bareNamed? name

theorem ofJson?_eq (j : Json) :
    ofJson? j = (tagged? true "op" names j).bind fun (name, content) => ofContent? content name :=
  rfl

theorem name_mem (o : Operation) : o.name ∈ names := by
  cases o <;> simp [name, names]

theorem key_of_payload {o : Operation} {e : String × Json} (h : e ∈ o.payload) :
    e.1 ∈ ["allocated", "callee", "targets"] := by
  cases o with
  | alloca allocated =>
    cases List.mem_singleton.mp h
    simp
  | call callee targets =>
    rcases List.mem_cons.mp h with rfl | h
    · simp
    · cases targets with
      | nil => cases h
      | cons t ts =>
        cases List.mem_singleton.mp h
        simp
  | _ => cases h

/-- An operation carries nothing under a name that an instruction uses itself. -/
theorem not_mem_ownFields {o : Operation} {e : String × Json} (h : e ∈ o.payload) :
    e.1 ∉ Instruction.ownFields := by
  have hkey := key_of_payload h
  simp only [List.mem_cons, List.not_mem_nil, or_false] at hkey
  rcases hkey with hkey | hkey | hkey <;> rw [hkey] <;> decide

theorem settled_of_content {n : Nat} {o : Operation}
    (hread : ofContent? (.record o.payload) o.name = some o)
    (hnested : ∀ e ∈ o.payload, Nested IsPlain n e.2) :
    Settled (n + 1) (fun o => .record (("op", .text o.name) :: o.payload)) ofJson? o := by
  constructor
  · have htag : ∀ e ∈ o.payload, e.1 ≠ "op" := by
      intro e he hop
      have hkey := key_of_payload he
      rw [hop] at hkey
      revert hkey
      decide
    rw [ofJson?_eq, tagged?_record o.name_mem htag]
    exact hread
  · exact .record (List.forall_mem_cons.mpr ⟨.atom trivial, hnested⟩)

theorem written_of_bareNamed? {s : String} {o : Operation} (h : bareNamed? s = some o) :
    o.payload = [] ∧ ofContent? (.record o.payload) o.name = some o := by
  unfold bareNamed? at h
  split at h <;> cases h <;> exact ⟨rfl, rfl⟩

theorem settles (n : Nat) :
    Settles (n + 2) (fun o => .record (("op", .text o.name) :: o.payload)) ofJson? := by
  intro j hj o h
  rw [ofJson?_eq] at h
  obtain ⟨⟨name, content⟩, ht, ho⟩ := Option.bind_eq_some_iff.mp h
  obtain ⟨_, hn, hcontent⟩ := nested_of_tagged? ht hj
  cases hn
  simp only [ofContent?] at ho
  split at ho
  · obtain ⟨es, hes, ho⟩ := Option.bind_eq_some_iff.mp ho
    obtain ⟨allocated, hallocated, ho⟩ := Option.bind_eq_some_iff.mp ho
    cases ho
    have hallocated :=
      (Shape.settles (n + 1) true).required (nested_of_fields? hes hcontent) hallocated
    refine settled_of_content ?_ (List.forall_mem_singleton.mpr hallocated.nested)
    simp [ofContent?, name, payload, required, hallocated.read_write]
  · obtain ⟨es, hes, ho⟩ := Option.bind_eq_some_iff.mp ho
    obtain ⟨callee, hcallee, ho⟩ := Option.bind_eq_some_iff.mp ho
    obtain ⟨targets, htargets, ho⟩ := Option.bind_eq_some_iff.mp ho
    cases ho
    have hes := nested_of_fields? hes hcontent
    have hcallee := (settles_optional_text (n + 1)).withDefault hes settled_none hcallee
    have htargets := (settles_texts n).withDefault hes (settled_texts_nil n) htargets
    -- Targets are left out when there are none.
    cases targets with
    | nil =>
      refine settled_of_content ?_ (List.forall_mem_singleton.mpr hcallee.nested)
      simp [ofContent?, name, payload, withDefault, get?, hcallee.read_write]
    | cons t ts =>
      refine settled_of_content ?_ (List.forall_mem_cons.mpr
        ⟨hcallee.nested, List.forall_mem_singleton.mpr htargets.nested⟩)
      simp [ofContent?, name, payload, withDefault, hcallee.read_write, htargets.read_write]
  · obtain ⟨hpayload, hread⟩ := written_of_bareNamed? ho
    refine settled_of_content hread ?_
    rw [hpayload]
    exact List.forall_mem_nil _

end Operation

theorem Instruction.settles (n : Nat) :
    Settles (n + 2) Instruction.toJson Instruction.ofJson? := by
  intro j hj i h
  cases j with
  | record entries =>
    obtain ⟨_, hn, hentries⟩ := (nested_record_iff id).mp hj
    cases hn
    obtain ⟨es, hes, h⟩ := Option.bind_eq_some_iff.mp h
    obtain ⟨_, hname, h⟩ := Option.bind_eq_some_iff.mp h
    obtain ⟨operation, hoperation, h⟩ := Option.bind_eq_some_iff.mp h
    obtain ⟨_, hshape, h⟩ := Option.bind_eq_some_iff.mp h
    obtain ⟨_, hoperands, h⟩ := Option.bind_eq_some_iff.mp h
    cases h
    have hes := nested_of_fields? hes (.record fun e he => hentries e (List.mem_filter.mp he).1)
    have hname := (settles_optional_text (n + 1)).withDefault hes settled_none hname
    have hoperation := Operation.settles n _
      (.record fun e he => hentries e (List.mem_filter.mp he).1) operation hoperation
    have hshape := ((Shape.settles (n + 1) false).option Shape.toJson_ne_null).withDefault hes
      settled_none hshape
    have hoperands := (Operand.settles n).list.withDefault hes settled_nil hoperands
    obtain ⟨_, hn, hwritten⟩ := (nested_record_iff id).mp hoperation.nested
    cases hn
    obtain ⟨hop, hpayload⟩ := List.forall_mem_cons.mp hwritten
    constructor
    · have hown : operation.payload.filter (ownFields.contains ·.1) = [] :=
        List.filter_eq_nil_iff.mpr fun e he => by simp [Operation.not_mem_ownFields he]
      have hrest : operation.payload.filter (!ownFields.contains ·.1) = operation.payload :=
        List.filter_eq_self.mpr fun e he => by simp [Operation.not_mem_ownFields he]
      have hop := hoperation.read_write
      simp only [Instruction.toJson, Instruction.ofJson?, List.filter_append, hown, hrest]
      simp [ownFields, withDefault, hname.read_write, hop, hshape.read_write,
        hoperands.read_write]
    · refine .record (List.forall_mem_append.mpr ⟨List.forall_mem_append.mpr ⟨?_, hpayload⟩, ?_⟩)
      · exact List.forall_mem_cons.mpr ⟨hname.nested, List.forall_mem_singleton.mpr hop⟩
      · exact List.forall_mem_cons.mpr ⟨hshape.nested, List.forall_mem_singleton.mpr hoperands.nested⟩
  | _ => cases h

theorem Block.settles (n : Nat) : Settles (n + 4) Block.toJson Block.ofJson? := by
  intro j hj b h
  obtain ⟨es, hes, h⟩ := Option.bind_eq_some_iff.mp h
  obtain ⟨_, hlabel, h⟩ := Option.bind_eq_some_iff.mp h
  obtain ⟨_, hinstructions, h⟩ := Option.bind_eq_some_iff.mp h
  obtain ⟨_, hsuccessors, h⟩ := Option.bind_eq_some_iff.mp h
  cases h
  have hes := nested_of_fields? hes hj
  have hlabel := (settles_text (n + 3)).required hes hlabel
  have hinstructions := (Instruction.settles n).list.required hes hinstructions
  have hsuccessors := (settles_texts (n + 2)).withDefault hes (settled_texts_nil (n + 2)) hsuccessors
  refine ⟨?_, .record (by simpa using ⟨hlabel.nested, hinstructions.nested, hsuccessors.nested⟩)⟩
  simp [Block.ofJson?, Block.toJson, required, withDefault, hlabel.read_write,
    hinstructions.read_write, hsuccessors.read_write]

theorem Function.settles (n : Nat) : Settles (n + 6) Function.toJson Function.ofJson? := by
  intro j hj f h
  obtain ⟨es, hes, h⟩ := Option.bind_eq_some_iff.mp h
  obtain ⟨_, hname, h⟩ := Option.bind_eq_some_iff.mp h
  obtain ⟨_, hreturns, h⟩ := Option.bind_eq_some_iff.mp h
  obtain ⟨_, hparams, h⟩ := Option.bind_eq_some_iff.mp h
  obtain ⟨_, hblocks, h⟩ := Option.bind_eq_some_iff.mp h
  cases h
  have hes := nested_of_fields? hes hj
  have hname := (settles_text (n + 5)).required hes hname
  have hreturns := (Shape.settles (n + 5) false).withDefault hes
    (Shape.settled_bare rfl (by decide) rfl false) hreturns
  have hparams := (Param.settles (n + 3)).list.withDefault hes settled_nil hparams
  have hblocks := (Block.settles n).list.withDefault hes settled_nil hblocks
  refine ⟨?_, .record (by simpa using
    ⟨hname.nested, hreturns.nested, hparams.nested, hblocks.nested⟩)⟩
  simp [Function.ofJson?, Function.toJson, required, withDefault, hname.read_write,
    hreturns.read_write, hparams.read_write, hblocks.read_write]

theorem Loop.settles (n : Nat) : Settles (n + 2) Loop.toJson Loop.ofJson? := by
  intro j hj l h
  obtain ⟨es, hes, h⟩ := Option.bind_eq_some_iff.mp h
  obtain ⟨_, hfunction, h⟩ := Option.bind_eq_some_iff.mp h
  obtain ⟨_, hheader, h⟩ := Option.bind_eq_some_iff.mp h
  obtain ⟨_, hlatch, h⟩ := Option.bind_eq_some_iff.mp h
  obtain ⟨_, hpredecessor, h⟩ := Option.bind_eq_some_iff.mp h
  obtain ⟨_, hblocks, h⟩ := Option.bind_eq_some_iff.mp h
  cases h
  have hes := nested_of_fields? hes hj
  have hfunction := (settles_text (n + 1)).required hes hfunction
  have hheader := (settles_text (n + 1)).required hes hheader
  have hlatch := (settles_optional_text (n + 1)).withDefault hes settled_none hlatch
  have hpredecessor := (settles_optional_text (n + 1)).withDefault hes settled_none hpredecessor
  have hblocks := (settles_texts n).withDefault hes (settled_texts_nil n) hblocks
  refine ⟨?_, .record (by simpa using ⟨hfunction.nested, hheader.nested, hlatch.nested,
    hpredecessor.nested, hblocks.nested⟩)⟩
  simp [Loop.ofJson?, Loop.toJson, required, withDefault, hfunction.read_write, hheader.read_write,
    hlatch.read_write, hpredecessor.read_write, hblocks.read_write]

theorem settles (n : Nat) : Settles (n + 8) toJson ofJson? := by
  intro j hj s h
  obtain ⟨es, hes, h⟩ := Option.bind_eq_some_iff.mp h
  obtain ⟨_, hglobals, h⟩ := Option.bind_eq_some_iff.mp h
  obtain ⟨_, hfunctions, h⟩ := Option.bind_eq_some_iff.mp h
  obtain ⟨_, hloops, h⟩ := Option.bind_eq_some_iff.mp h
  obtain ⟨_, hpointsTo, h⟩ := Option.bind_eq_some_iff.mp h
  obtain ⟨_, hflows, h⟩ := Option.bind_eq_some_iff.mp h
  obtain ⟨_, hallocators, h⟩ := Option.bind_eq_some_iff.mp h
  cases h
  have hes := nested_of_fields? hes hj
  have hglobals := (Global.settles (n + 5)).list.withDefault hes settled_nil hglobals
  have hfunctions := (Function.settles n).list.required hes hfunctions
  have hloops := (Loop.settles (n + 4)).list.withDefault hes settled_nil hloops
  have hpointsTo := (settles_pairs (by decide) (n + 5)).withDefault hes
    (settled_pairs_nil _ _ _) hpointsTo
  have hflows := (settles_pairs (by decide) (n + 5)).withDefault hes (settled_pairs_nil _ _ _) hflows
  have hallocators := ((settles_texts (n + 6)).option nofun).withDefault hes settled_none hallocators
  refine ⟨?_, .record (by simpa using ⟨hglobals.nested, hfunctions.nested, hloops.nested,
    hpointsTo.nested, hflows.nested, hallocators.nested⟩)⟩
  simp [ofJson?, toJson, required, withDefault, hglobals.read_write, hfunctions.read_write,
    hloops.read_write, hpointsTo.read_write, hflows.read_write, hallocators.read_write]

/-- A snapshot that was read from any text is read back from the text it is written as, and is then
written as the same text again. -/
theorem written_reads_back {t : String} {s : Snapshot} (h : parse? t = some s) :
    parse? s.write = some s ∧ (parse? s.write).map write = some s.write := by
  obtain ⟨j, hj, hs⟩ := Option.bind_eq_some_iff.mp h
  have hsettled : Settled maxDepth toJson ofJson? s := settles 119 j (nested_of_parse? hj) s hs
  have hread : parse? s.write = some s := by
    rw [parse?, write, pretty, parse?_write hsettled.nested .indented]
    exact hsettled.read_write
  rw [hread]
  exact ⟨rfl, rfl⟩

/-- Lists in place of records, types and an operation given by position, an escaped name, and many
fields left out. -/
def sparse : String :=
  "[[],[[\"m\\u0061in\",[\"struct\",[[3,[1,8]]]],[],[[\"b\", [\x7b\"op\":6,\"operands\":[-1]\x7d]]]]]]"

theorem sparse_reads_back : ∃ s, parse? sparse = some s ∧
    s.functions.map (·.name) = ["main"] ∧ parse? s.write = some s ∧
      (parse? s.write).map write = some s.write := by
  have h : (parse? sparse).map (·.functions.map (·.name)) = some ["main"] := by decide +kernel
  obtain ⟨s, hs, hnames⟩ := Option.map_eq_some_iff.mp h
  exact ⟨s, hs, hnames, written_reads_back hs⟩

end PointerTriage.Snapshot
