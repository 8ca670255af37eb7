import Mathlib.Data.List.Basic
import PointerTriage.PointsTo.Constraint
import PointerTriage.Proofs.Ir.Sound

namespace PointerTriage

/-- The opcode with another callee, if it is a call. -/
def Opcode.redirect (callee : Option FunctionId) : Opcode → Opcode
  | .call _ => .call callee
  | opcode => opcode

def ValueKind.redirect (callee : Option FunctionId) : ValueKind → ValueKind
  | .instruction opcode block => .instruction (opcode.redirect callee) block
  | kind => kind

def Value.redirect (callees : ValueId → Option FunctionId) (v : Value) : Value :=
  { v with kind := v.kind.redirect (callees v.id) }

def Tables.redirect (t : Tables) (callees : ValueId → Option FunctionId) : Tables :=
  { t with values := t.values.map (Value.redirect callees) }

def Ir.redirect (ir : Ir) (callees : ValueId → Option FunctionId) : Ir :=
  { ir with tables := ir.tables.redirect callees }

section

variable (callees : ValueId → Option FunctionId)

namespace Value

variable (v : Value)

theorem opcode?_redirect :
    (v.redirect callees).opcode? = v.opcode?.map (Opcode.redirect (callees v.id)) := by
  obtain ⟨_, _, _, kind, _⟩ := v
  cases kind <;> rfl

theorem constant?_redirect : (v.redirect callees).constant? = v.constant? := by
  obtain ⟨_, _, _, kind, _⟩ := v
  cases kind <;> rfl

theorem block?_redirect : (v.redirect callees).block? = v.block? := by
  obtain ⟨_, _, _, kind, _⟩ := v
  cases kind <;> rfl

theorem allocated?_redirect : (v.redirect callees).allocated? = v.allocated? := by
  obtain ⟨_, _, _, kind, _⟩ := v
  cases kind with
  | instruction opcode block => cases opcode <;> rfl
  | _ => rfl

end Value

namespace Tables

/-- Users do not depend on callees. -/
theorem usersLatestFirst_redirect (t : Tables) :
    usersLatestFirst (t.redirect callees).values = usersLatestFirst t.values := by
  simp only [usersLatestFirst, redirect, Array.toList_map, List.foldl_map, Array.size_map]
  rfl

theorem ofTables_redirect {t : Tables} {ir ir' : Ir} (h : Ir.ofTables t = .ok ir)
    (h' : Ir.ofTables (t.redirect callees) = .ok ir') : ir' = ir.redirect callees := by
  simp only [Ir.ofTables, except_seq_ok_iff] at h h'
  obtain ⟨_, he⟩ := h
  obtain ⟨_, he'⟩ := h'
  cases he
  cases he'
  rw [usersLatestFirst_redirect]
  rfl

end Tables

namespace Ir

variable (ir : Ir)

theorem value?_redirect (v : ValueId) :
    (ir.redirect callees).value? v = (ir.value? v).map (Value.redirect callees) := by
  simp [value?, redirect, Tables.redirect]

theorem values_redirect : (ir.redirect callees).values = ir.values.map (Value.redirect callees) := by
  simp [values, redirect, Tables.redirect]

theorem flatMap_values_redirect {α : Type} {f g : Value → List α}
    (h : ∀ v ∈ ir.values, g (v.redirect callees) = f v) :
    (ir.redirect callees).values.flatMap g = ir.values.flatMap f := by
  rw [values_redirect, List.flatMap_map]
  exact List.flatMap_congr h

theorem filterMap_values_redirect {α : Type} {f g : Value → Option α}
    (h : ∀ v ∈ ir.values, g (v.redirect callees) = f v) :
    (ir.redirect callees).values.filterMap g = ir.values.filterMap f := by
  rw [values_redirect, List.filterMap_map]
  exact List.filterMap_congr h

theorem opcode?_redirect (v : ValueId) : (ir.redirect callees).opcode? v =
    (ir.value? v).bind fun value => value.opcode?.map (Opcode.redirect (callees value.id)) := by
  rw [opcode?, value?_redirect, Option.bind_map]
  exact congrArg _ (funext fun value => value.opcode?_redirect callees)

theorem isCall_redirect : (ir.redirect callees).isCall = ir.isCall := by
  funext v
  rw [isCall, isCall, opcode?_redirect, opcode?]
  cases ir.value? v with
  | none => rfl
  | some value =>
    cases ho : value.opcode? with
    | none => simp [ho]
    | some opcode => cases opcode <;> simp [ho, Opcode.redirect, Opcode.isCall]

theorem blockOf?_redirect : (ir.redirect callees).blockOf? = ir.blockOf? := by
  funext v
  rw [blockOf?, blockOf?, value?_redirect, Option.bind_map]
  exact congrArg _ (funext fun value => value.block?_redirect callees)

theorem ownerOf?_redirect : (ir.redirect callees).ownerOf? = ir.ownerOf? := by
  funext v
  rw [ownerOf?, ownerOf?, blockOf?_redirect]
  rfl

theorem isConstant_redirect : (ir.redirect callees).isConstant = ir.isConstant := by
  funext v
  rw [isConstant, isConstant, constant?, constant?, value?_redirect, Option.bind_map]
  exact congrArg (fun f => Option.isSome ((ir.value? v).bind f))
    (funext fun value => value.constant?_redirect callees)

theorem operand?_redirect : (ir.redirect callees).operand? = ir.operand? := by
  funext v i
  rw [operand?, operand?, value?_redirect, Option.bind_map]
  rfl

theorem isGlobal_redirect : (ir.redirect callees).isGlobal = ir.isGlobal := by
  funext v
  rw [isGlobal, isGlobal, value?_redirect]
  cases ir.value? v with
  | none => rfl
  | some value =>
    obtain ⟨_, _, _, kind, _⟩ := value
    cases kind <;> rfl

theorem isConstantGep_redirect : (ir.redirect callees).isConstantGep = ir.isConstantGep := by
  funext v
  unfold isConstantGep
  rw [isConstant_redirect, value?_redirect, opcode?_redirect, opcode?]
  cases ir.value? v with
  | none => rfl
  | some value =>
    cases ho : value.opcode? with
    | none => simp [ho]
    | some opcode => cases opcode <;> simp [ho, Opcode.redirect, Value.redirect]

theorem isRuntime_redirect : (ir.redirect callees).isRuntime = ir.isRuntime := by
  funext v
  simp only [isRuntime, isConstant_redirect, isConstantGep_redirect]

theorem rets_redirect (f : FunctionId) :
    (ir.redirect callees).rets f = (ir.rets f).map (Value.redirect callees) := by
  unfold rets
  rw [values_redirect, List.filter_map]
  congr 2
  funext v
  obtain ⟨_, _, _, kind, _⟩ := v
  cases kind with
  | instruction opcode block => cases opcode <;> rfl
  | _ => rfl

end Ir

end

end PointerTriage
