import PointerTriage.Ir.Tables

namespace PointerTriage

theorem except_bind_ok_iff {ε α β : Type} {x : Except ε α} {f : α → Except ε β} {b : β} :
    (x >>= f) = .ok b ↔ ∃ a, x = .ok a ∧ f a = .ok b := by
  cases x with
  | error e => simp [bind, Except.bind]
  | ok a => simp [bind, Except.bind]

theorem except_seq_ok_iff {ε β : Type} {x : Except ε Unit} {y : Except ε β} {b : β} :
    (x >>= fun _ => y) = .ok b ↔ x = .ok () ∧ y = .ok b := by
  rw [except_bind_ok_iff]
  exact ⟨fun ⟨_, hx, hy⟩ => ⟨hx, hy⟩, fun ⟨hx, hy⟩ => ⟨(), hx, hy⟩⟩

theorem except_forM_ok_iff {ε α : Type} {f : α → Except ε PUnit} {as : List α} :
    as.forM f = .ok () ↔ ∀ a ∈ as, f a = .ok () := by
  rw [List.forM_eq_forM]
  induction as with
  | nil => exact iff_of_true rfl nofun
  | cons a as ih => rw [List.forM_cons, except_seq_ok_iff, ih, List.forall_mem_cons]

/-- A refusal in front of a computation. -/
theorem except_guard_ok_iff {ε β : Type} {p : Prop} [Decidable p] {e : ε}
    {y : Unit → Except ε β} {b : β} :
    (if p then (throw e : Except ε Unit) >>= y else y ()) = .ok b ↔ ¬p ∧ y () = .ok b := by
  split
  · rename_i hp
    simp [throw, throwThe, MonadExceptOf.throw, bind, Except.bind, hp]
  · rename_i hp
    simp [hp]

namespace Tables

/-- Every id is the index of its entry and every reference resolves. -/
structure Sound (t : Tables) : Prop where
  value : ∀ i (v : Value), t.values[i]? = some v → v.id = i
  operand : ∀ v ∈ t.values, ∀ op ∈ v.operands, op < t.values.size
  owner : ∀ v ∈ t.values, ∀ f i, v.kind = .argument f i → f < t.functions.size
  home : ∀ v ∈ t.values, ∀ opcode b, v.kind = .instruction opcode b → b < t.blocks.size
  callee : ∀ v ∈ t.values, ∀ f b, v.kind = .instruction (.call (some f)) b → f < t.functions.size
  function : ∀ i (f : Function), t.functions[i]? = some f → f.id = i
  param : ∀ f ∈ t.functions, ∀ v ∈ f.params, v < t.values.size
  body : ∀ f ∈ t.functions, ∀ b ∈ f.blocks, b < t.blocks.size
  block : ∀ i (b : Block), t.blocks[i]? = some b → b.id = i
  blockOwner : ∀ b ∈ t.blocks, b.function < t.functions.size
  instruction : ∀ b ∈ t.blocks, ∀ v ∈ b.instructions, v < t.values.size
  successor : ∀ b ∈ t.blocks, ∀ s ∈ b.successors, s < t.blocks.size
  loop : ∀ l ∈ t.loops, l.function < t.functions.size ∧
    ∀ b ∈ l.header :: (l.latch.toList ++ l.predecessor.toList ++ l.blocks), b < t.blocks.size

theorem checkEach_ok_iff {α : Type} {check : Nat → α → Except GraphFault Unit} {slot : Nat}
    {as : List α} :
    checkEach check slot as = .ok () ↔ ∀ i a, as[i]? = some a → check (slot + i) a = .ok () := by
  induction as generalizing slot with
  | nil => simp [checkEach]
  | cons a as ih =>
    simp only [checkEach, except_seq_ok_iff, ih]
    constructor
    · rintro ⟨ha, has⟩ i b hb
      cases i with
      | zero =>
        cases hb
        exact ha
      | succ i =>
        have := has i b (by simpa using hb)
        rwa [Nat.add_assoc, Nat.add_comm 1] at this
    · intro h
      refine ⟨h 0 a rfl, ?_⟩
      intro i b hb
      have := h (i + 1) b (by simpa using hb)
      rwa [Nat.add_assoc, Nat.add_comm 1]

theorem checkIds_ok_iff {has : Nat → Bool} {fault : Nat → GraphFault} {ids : List Nat} :
    checkIds has fault ids = .ok () ↔ ∀ i ∈ ids, has i = true := by
  unfold checkIds
  cases hf : ids.find? (!has ·) with
  | none => simpa using hf
  | some bad =>
    have hb := List.find?_some hf
    have hm := List.mem_of_find?_eq_some hf
    simp only [reduceCtorEq, false_iff]
    intro h
    simp [h bad hm] at hb

theorem checkKind_ok_iff {t : Tables} {v : Value} :
    t.checkKind v = .ok () ↔
      (∀ f i, v.kind = .argument f i → f < t.functions.size) ∧
      (∀ opcode b, v.kind = .instruction opcode b → b < t.blocks.size) ∧
      (∀ f b, v.kind = .instruction (.call (some f)) b → f < t.functions.size) := by
  unfold checkKind
  split
  · rename_i f i hk
    simp [checkIds_ok_iff, hasFunction, hk]
  · rename_i opcode b hk
    rw [except_seq_ok_iff]
    split
    · rename_i callee
      cases callee <;> simp [checkIds_ok_iff, hasBlock, hasFunction, hk]
    · rename_i hc
      have hne : ∀ f, opcode ≠ .call (some f) := fun f => hc (some f)
      simp [checkIds_ok_iff, hasBlock, hk, hne]
  · rename_i ha hi
    simp_all

theorem checkValue_ok_iff {t : Tables} {slot : Nat} {v : Value} :
    t.checkValue slot v = .ok () ↔
      v.id = slot ∧ (∀ op ∈ v.operands, op < t.values.size) ∧ t.checkKind v = .ok () := by
  unfold checkValue
  simp only [except_guard_ok_iff, except_seq_ok_iff, checkIds_ok_iff, hasValue,
    decide_eq_true_eq, ne_eq, Decidable.not_not]

theorem checkFunction_ok_iff {t : Tables} {slot : Nat} {f : Function} :
    t.checkFunction slot f = .ok () ↔
      f.id = slot ∧ (∀ v ∈ f.params, v < t.values.size) ∧ ∀ b ∈ f.blocks, b < t.blocks.size := by
  unfold checkFunction
  simp only [except_guard_ok_iff, except_seq_ok_iff, checkIds_ok_iff, hasValue, hasBlock,
    decide_eq_true_eq, ne_eq, Decidable.not_not]

theorem checkBlock_ok_iff {t : Tables} {slot : Nat} {b : Block} :
    t.checkBlock slot b = .ok () ↔
      b.id = slot ∧ b.function < t.functions.size ∧ (∀ v ∈ b.instructions, v < t.values.size) ∧
        ∀ s ∈ b.successors, s < t.blocks.size := by
  unfold checkBlock
  simp only [except_guard_ok_iff, except_seq_ok_iff, checkIds_ok_iff, hasValue, hasBlock,
    hasFunction, decide_eq_true_eq, ne_eq, not_or, Decidable.not_not, Bool.not_eq_true',
    Bool.not_eq_false, and_assoc]

theorem checkLoop_ok_iff {t : Tables} {slot : Nat} {l : Loop} :
    t.checkLoop slot l = .ok () ↔ l.function < t.functions.size ∧
      ∀ b ∈ l.header :: (l.latch.toList ++ l.predecessor.toList ++ l.blocks),
        b < t.blocks.size := by
  unfold checkLoop
  simp only [Bool.and_eq_true, List.all_eq_true, hasBlock, hasFunction, decide_eq_true_eq]
  split
  · rename_i h
    exact iff_of_true rfl ⟨h.2, h.1⟩
  · rename_i h
    exact iff_of_false (by simp) fun hl => h ⟨hl.2, hl.1⟩

theorem check_ok_iff {t : Tables} : t.check = .ok () ↔ t.Sound := by
  unfold check
  simp only [except_seq_ok_iff, checkEach_ok_iff, Nat.zero_add, Array.getElem?_toList,
    checkValue_ok_iff, checkKind_ok_iff, checkFunction_ok_iff, checkBlock_ok_iff, checkLoop_ok_iff]
  constructor
  · intro hex
    obtain ⟨hv, hf, hb, hl⟩ := hex
    have values : ∀ v ∈ t.values, ∃ i, t.values[i]? = some v := fun v => Array.mem_iff_getElem?.mp
    have functions : ∀ f ∈ t.functions, ∃ i, t.functions[i]? = some f :=
      fun f => Array.mem_iff_getElem?.mp
    have blocks : ∀ b ∈ t.blocks, ∃ i, t.blocks[i]? = some b := fun b => Array.mem_iff_getElem?.mp
    have loops : ∀ l ∈ t.loops, ∃ i : Nat, t.loops[i]? = some l := fun l => List.mem_iff_getElem?.mp
    constructor
    case value => exact fun i v h => (hv i v h).1
    case function => exact fun i f h => (hf i f h).1
    case block => exact fun i b h => (hb i b h).1
    case operand | owner | home | callee =>
      intro v hm
      obtain ⟨i, h⟩ := values v hm
      obtain ⟨_, ho, ha, hi, hc⟩ := hv i v h
      assumption
    case param | body =>
      intro f hm
      obtain ⟨i, h⟩ := functions f hm
      obtain ⟨_, hp, hb⟩ := hf i f h
      assumption
    case blockOwner | instruction | successor =>
      intro b hm
      obtain ⟨i, h⟩ := blocks b hm
      obtain ⟨_, ho, hi, hs⟩ := hb i b h
      assumption
    case loop =>
      intro l hm
      obtain ⟨i, h⟩ := loops l hm
      exact hl i l h
  · intro h
    refine ⟨?_, ?_, ?_, ?_⟩
    · intro i v hv
      have hm := Array.mem_of_getElem? hv
      exact ⟨h.value i v hv, h.operand v hm, h.owner v hm, h.home v hm, h.callee v hm⟩
    · intro i f hf
      have hm := Array.mem_of_getElem? hf
      exact ⟨h.function i f hf, h.param f hm, h.body f hm⟩
    · intro i b hb
      have hm := Array.mem_of_getElem? hb
      exact ⟨h.block i b hb, h.blockOwner b hm, h.instruction b hm, h.successor b hm⟩
    · intro i l hl
      exact h.loop l (List.mem_of_getElem? hl)

end Tables

namespace Ir

/-- Checked tables are kept as they are. -/
theorem ofTables_ok {t : Tables} {ir : Ir} (h : ofTables t = .ok ir) : ir.tables = t ∧ t.Sound := by
  unfold ofTables at h
  obtain ⟨hc, he⟩ := except_seq_ok_iff.mp h
  cases he
  exact ⟨rfl, Tables.check_ok_iff.mp hc⟩

end Ir

end PointerTriage
