import Mathlib.Data.List.Basic
import PointerTriage.Proofs.ValueFlow.Definitions

namespace PointerTriage

/-- A run follows another one through a view, as long as each step does where an invariant holds. -/
theorem foldlM_eq_some_view {σ τ α : Type} {f : σ → α → Option σ} {g : τ → α → τ} {view : τ → σ}
    (inv : τ → Prop) {as : List α}
    (hstep : ∀ a ∈ as, ∀ t, inv t → f (view t) a = some (view (g t a)) ∧ inv (g t a)) {t : τ}
    (ht : inv t) : as.foldlM f (view t) = some (view (as.foldl g t)) ∧ inv (as.foldl g t) := by
  induction as generalizing t with
  | nil => exact ⟨rfl, ht⟩
  | cons a as ih =>
    obtain ⟨hfirst, hstep⟩ := List.forall_mem_cons.mp hstep
    obtain ⟨hf, ha⟩ := hfirst t ht
    rw [List.foldlM_cons, hf]
    exact ih hstep ha

namespace Tables

/-- The ids of the values that have `v` among their operands. -/
def usersAmong (values : List Value) (v : ValueId) : List ValueId :=
  (values.filter (v ∈ ·.operands)).map Value.id

/-- The users of one operand after `user` has been entered. -/
def enter (users : List ValueId) (user : ValueId) : List ValueId :=
  if users.head? = some user then users else user :: users

theorem enter_enter (users : List ValueId) (user : ValueId) :
    enter (enter users user) user = enter users user := by
  unfold enter
  split <;> simp_all

theorem getElem?_addUser (user : ValueId) (table : Array (List ValueId)) (operand v : ValueId) :
    (addUser user table operand)[v]? =
      if operand = v then table[v]?.map (enter · user) else table[v]? :=
  Array.getElem?_modify

/-- One value is entered at each of its operands, once. -/
theorem getElem?_foldl_addUser (user : ValueId) (table : Array (List ValueId))
    (operands : List ValueId) (v : ValueId) : (operands.foldl (addUser user) table)[v]? =
      if v ∈ operands then table[v]?.map (enter · user) else table[v]? := by
  induction operands generalizing table with
  | nil => simp
  | cons operand operands ih =>
    rw [List.foldl_cons, ih, getElem?_addUser]
    by_cases hfirst : operand = v
    · subst hfirst
      simp [Function.comp_def, enter_enter]
    · simp [hfirst, Ne.symm hfirst]

/-- Each place of the table is filled on its own. -/
theorem getElem?_foldl_values (table : Array (List ValueId)) (values : List Value) (v : ValueId) :
    (values.foldl (fun table x => x.operands.foldl (addUser x.id) table) table)[v]? =
      table[v]?.map ((usersAmong values v).foldl enter) := by
  induction values generalizing table with
  | nil => simp [usersAmong]
  | cons x values ih =>
    rw [List.foldl_cons, ih, getElem?_foldl_addUser]
    by_cases hx : v ∈ x.operands
    · simp [usersAmong, hx, Function.comp_def]
    · simp [usersAmong, hx]

/-- Ascending users are never left out. -/
theorem foldl_enter {users : List ValueId} (hasc : users.Pairwise (· < ·)) (before : List ValueId)
    (hbefore : ∀ user ∈ users, before.head? ≠ some user) :
    users.foldl enter before = users.reverse ++ before := by
  induction users generalizing before with
  | nil => rfl
  | cons user users ih =>
    obtain ⟨hlater, hasc⟩ := List.pairwise_cons.mp hasc
    have hnew : enter before user = user :: before := if_neg (hbefore user List.mem_cons_self)
    have hnext : ∀ later ∈ users, (user :: before).head? ≠ some later := by
      intro later hmem heq
      exact Nat.ne_of_lt (hlater later hmem) (Option.some.inj heq)
    rw [List.foldl_cons, hnew, ih hasc (user :: before) hnext, List.reverse_cons, List.append_assoc,
      List.singleton_append]

theorem Sound.pairwise_usersAmong {ir : Ir} (hs : ir.tables.Sound) (v : ValueId) :
    (usersAmong ir.values v).Pairwise (· < ·) :=
  List.pairwise_map.mpr (hs.ids_ascending.sublist List.filter_sublist)

theorem Sound.mem_usersAmong {ir : Ir} (hs : ir.tables.Sound) {u v : ValueId} :
    u ∈ usersAmong ir.values v ↔ ∃ x, ir.value? u = some x ∧ v ∈ x.operands := by
  simp only [usersAmong, List.mem_map, List.mem_filter, decide_eq_true_eq]
  constructor
  · rintro ⟨x, ⟨hx, hv⟩, rfl⟩
    exact ⟨x, hs.value?_of_mem hx, hv⟩
  · rintro ⟨x, hx, hv⟩
    exact ⟨x, ⟨Ir.mem_values hx, hv⟩, hs.id_of_value? hx⟩

/-- The users of one operand after `user` has been put behind them. -/
def enterLast (users : List ValueId) (user : ValueId) : List ValueId :=
  if users.getLast? = some user then users else users ++ [user]

theorem enterLast_reverse (users : List ValueId) (user : ValueId) :
    enterLast users.reverse user = (enter users user).reverse := by
  unfold enterLast enter
  rw [List.getLast?_reverse]
  split <;> simp

/-- Enters `user` at one of its operands, behind the others. -/
def addLast? (user : ValueId) (table : Array (List ValueId)) (operand : ValueId) :
    Option (Array (List ValueId)) :=
  if operand < table.size then some (table.modify operand (enterLast · user)) else none

/-- For each value its users in order, if all operands have a place. -/
def usersInOrder? (values : Array Value) : Option (Array (List ValueId)) :=
  values.toList.foldlM (fun table v => v.operands.foldlM (addLast? v.id) table)
    (Array.replicate values.size [])

theorem size_addUser (user : ValueId) (table : Array (List ValueId)) (operand : ValueId) :
    (addUser user table operand).size = table.size :=
  Array.size_modify

theorem addLast?_map_reverse (user : ValueId) {table : Array (List ValueId)} {operand : ValueId}
    (h : operand < table.size) : addLast? user (table.map List.reverse) operand =
      some ((addUser user table operand).map List.reverse) := by
  rw [addLast?, if_pos (by simpa using h), Option.some.injEq]
  apply Array.ext_getElem?
  intro v
  rw [Array.getElem?_modify, Array.getElem?_map, Array.getElem?_map, getElem?_addUser]
  split
  · simp [Function.comp_def, enterLast_reverse]
  · rfl

theorem foldlM_addLast? (user : ValueId) {table : Array (List ValueId)} {operands : List ValueId}
    (h : ∀ operand ∈ operands, operand < table.size) :
    operands.foldlM (addLast? user) (table.map List.reverse) =
        some ((operands.foldl (addUser user) table).map List.reverse) ∧
      (operands.foldl (addUser user) table).size = table.size := by
  refine foldlM_eq_some_view (Array.size · = table.size) ?_ rfl
  intro operand hoperand filled hsize
  have hplace : operand < filled.size := hsize ▸ h operand hoperand
  exact ⟨addLast?_map_reverse user hplace, (size_addUser user filled operand).trans hsize⟩

/-- If all operands are known, each has a place whenever a user is entered at it. -/
theorem usersInOrder?_eq {values : Array Value}
    (h : ∀ v ∈ values, ∀ operand ∈ v.operands, operand < values.size) :
    usersInOrder? values = some ((usersLatestFirst values).map List.reverse) := by
  have hempty : (Array.replicate values.size ([] : List ValueId)).map List.reverse =
      Array.replicate values.size [] := Array.map_replicate
  rw [usersInOrder?, ← hempty]
  refine (foldlM_eq_some_view (Array.size · = values.size) ?_ Array.size_replicate).1
  intro v hv table hsize
  have hplaces : ∀ operand ∈ v.operands, operand < table.size := by
    rw [hsize]
    exact h v (Array.mem_toList_iff.mp hv)
  obtain ⟨hrun, hkept⟩ := foldlM_addLast? v.id hplaces
  exact ⟨hrun, hkept.trans hsize⟩

end Tables

namespace Ir

variable {t : Tables} {ir : Ir}

theorem userTable_of_ofTables (h : ofTables t = .ok ir) :
    ir.userTable = (Tables.usersLatestFirst t.values).map List.reverse := by
  obtain ⟨_, he⟩ := except_seq_ok_iff.mp h
  cases he
  rfl

theorem users_eq_usersAmong (h : ofTables t = .ok ir) (v : ValueId) :
    ir.users v = Tables.usersAmong ir.values v := by
  obtain ⟨rfl, hs⟩ := ofTables_ok h
  have hfilled := Tables.foldl_enter (hs.pairwise_usersAmong v) [] (by simp)
  rw [users, userTable_of_ofTables h, Array.getElem?_map, Tables.usersLatestFirst,
    Tables.getElem?_foldl_values, Array.getElem?_replicate, ← values]
  by_cases hv : v < ir.tables.values.size
  · simp [hv, hfilled]
  · -- What has no place in the table is nobody's operand.
    have hnone : Tables.usersAmong ir.values v = [] := by
      refine List.eq_nil_iff_forall_not_mem.mpr fun u hu => ?_
      obtain ⟨x, hx, hoperand⟩ := hs.mem_usersAmong.mp hu
      exact hv (hs.operand x (Array.mem_of_getElem? hx) v hoperand)
    simp [hv, hnone]

/-- Checked tables list for each value, in ascending order and each once, the values that have it among
their operands. The table of users can be filled from the front, and no operand is without a place. -/
theorem users_exact (h : ofTables t = .ok ir) :
    (∀ v, (ir.users v).Pairwise (· < ·) ∧
      ∀ u, u ∈ ir.users v ↔ ∃ x, t.values[u]? = some x ∧ v ∈ x.operands) ∧
    Tables.usersInOrder? t.values = some ir.userTable := by
  obtain ⟨rfl, hs⟩ := ofTables_ok h
  constructor
  · intro v
    rw [users_eq_usersAmong h]
    exact ⟨hs.pairwise_usersAmong v, fun u => hs.mem_usersAmong⟩
  · rw [userTable_of_ofTables h]
    exact Tables.usersInOrder?_eq hs.operand

end Ir

/-- A loop whose first value takes itself and a later one, and whose second takes the first twice. -/
def feedback : Tables where
  values := #[
    ⟨0, some "start", .int 32, .argument 0 0, []⟩,
    ⟨1, some "i", .int 32, .instruction .phi 0, [2, 1, 0, 1, 2]⟩,
    ⟨2, some "next", .int 32, .instruction .binary 0, [1, 0, 1]⟩,
    ⟨3, none, .void, .instruction .branch 0, [2, 2]⟩]
  functions := #[⟨0, "spin", [0], [0], .void⟩]
  blocks := #[⟨0, 0, [1, 2, 3], [0]⟩]
  loops := [⟨0, 0, some 0, none, [0]⟩]

theorem Ir.users_feedback : ∃ ir, ofTables feedback = .ok ir ∧
    (∀ v, (ir.users v).Pairwise (· < ·)) ∧ 1 ∈ ir.users 2 ∧
    ir.userTable = #[[1, 2], [1, 2], [1, 3], []] ∧
    Tables.usersInOrder? feedback.values = some ir.userTable := by
  obtain ⟨ir, h⟩ : ∃ ir, ofTables feedback = .ok ir := ⟨_, rfl⟩
  obtain ⟨husers, hinOrder⟩ := users_exact h
  have hlater : 1 ∈ ir.users 2 := ((husers 2).2 1).mpr ⟨_, rfl, by decide⟩
  have htable : ir.userTable = #[[1, 2], [1, 2], [1, 3], []] := by
    rw [userTable_of_ofTables h]
    decide +kernel
  exact ⟨ir, h, fun v => (husers v).1, hlater, htable, hinOrder⟩

end PointerTriage
