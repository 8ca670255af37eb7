import Mathlib.Data.List.Nodup
import Mathlib.Logic.Relation
import PointerTriage.Graph.Unfold

namespace PointerTriage.Graph

variable {α : Type} {children : α → List α} {rank : α → Nat}

/-- Children rank lower, so that the tree below a node is finite. -/
def Ranked (children : α → List α) (rank : α → Nat) : Prop :=
  ∀ a, ∀ b ∈ children a, rank b < rank a

/-- What holds of a node when it holds of its children holds of all nodes. -/
theorem Ranked.induction (h : Ranked children rank) {motive : α → Prop}
    (step : ∀ a, (∀ b ∈ children a, motive b) → motive a) (a : α) : motive a :=
  (measure rank).wf.induction a fun a ih => step a fun b hb => ih b (h a b hb)

/-- The nodes of the tree below a node, itself first. -/
def below (h : Ranked children rank) (a : α) : List α :=
  a :: (children a).attach.flatMap fun b => below h b.1
termination_by rank a
decreasing_by exact h a b.1 b.2

theorem below_eq (h : Ranked children rank) (a : α) :
    below h a = a :: (children a).flatMap (below h) := by
  rw [below]
  conv_rhs => rw [← List.attach_map_subtype_val (children a), List.flatMap_map]

def leavesBelow (h : Ranked children rank) (a : α) : List α :=
  (below h a).filter fun b => (children b).isEmpty

theorem leavesBelow_eq (h : Ranked children rank) (a : α) :
    leavesBelow h a =
      (if (children a).isEmpty then [a] else []) ++ (children a).flatMap (leavesBelow h) := by
  unfold leavesBelow
  rw [below_eq, List.filter_cons, List.filter_flatMap]
  split <;> rfl

theorem leavesBelow_ne_nil (h : Ranked children rank) (a : α) : leavesBelow h a ≠ [] := by
  induction a using h.induction with
  | step a ih =>
    rw [leavesBelow_eq]
    cases hc : children a with
    | nil => simp
    | cons b bs =>
      have hb := ih b (by simp [hc])
      simp [hb]

theorem mem_below {h : Ranked children rank} {a b : α} :
    b ∈ below h a ↔ Relation.ReflTransGen (fun x y => y ∈ children x) a b := by
  constructor
  · induction a using h.induction with
    | step a ih =>
      intro hb
      rw [below_eq, List.mem_cons, List.mem_flatMap] at hb
      rcases hb with rfl | ⟨c, hc, hb⟩
      · exact .refl
      · exact .head hc (ih c hc hb)
  · intro hr
    induction hr using Relation.ReflTransGen.head_induction_on with
    | refl =>
      rw [below_eq]
      exact List.mem_cons_self
    | head hc _ ih =>
      rw [below_eq]
      exact List.mem_cons_of_mem _ (List.mem_flatMap.mpr ⟨_, hc, ih⟩)

/-- Below every node of the tree there is one of its leaves. -/
theorem exists_leaf_below {h : Ranked children rank} {a b : α} (hb : b ∈ below h a) :
    ∃ leaf ∈ leavesBelow h a, leaf ∈ below h b := by
  obtain ⟨leaf, hleaf⟩ := List.exists_mem_of_ne_nil _ (leavesBelow_ne_nil h b)
  obtain ⟨hbelow, hend⟩ := List.mem_filter.mp hleaf
  have hroot : leaf ∈ below h a := mem_below.mpr ((mem_below.mp hb).trans (mem_below.mp hbelow))
  exact ⟨leaf, List.mem_filter.mpr ⟨hroot, hend⟩, hbelow⟩

theorem rank_le_of_mem_below {h : Ranked children rank} {a b : α} (hb : b ∈ below h a) :
    rank b ≤ rank a := by
  have hr := mem_below.mp hb
  induction hr with
  | refl => exact Nat.le_refl _
  | tail hr hc ih => exact Nat.le_trans (Nat.le_of_lt (h _ _ hc)) (ih (mem_below.mpr hr))

/-- Siblings have no node below them in common, if nodes have one parent each. -/
theorem disjoint_below (h : Ranked children rank)
    (hparent : ∀ a b c, c ∈ children a → c ∈ children b → a = b) {a b c : α}
    (hb : b ∈ children a) (hc : c ∈ children a) (hne : b ≠ c) :
    (below h b).Disjoint (below h c) := by
  -- A sibling below the other would have their parent below that one.
  have hapart : ∀ {b c : α}, b ∈ children a → c ∈ children a → b ≠ c → c ∉ below h b := by
    intro b c hb hc hne hm
    rcases Relation.ReflTransGen.cases_tail (mem_below.mp hm) with he | ⟨d, hd, hcd⟩
    · exact hne he.symm
    · rw [hparent d a c hcd hc] at hd
      exact Nat.lt_irrefl _
        (Nat.lt_of_le_of_lt (rank_le_of_mem_below (h := h) (mem_below.mpr hd)) (h a b hb))
  intro x hxb hxc
  have hunique : Relator.RightUnique (Function.swap fun x y => y ∈ children x) :=
    fun x y z hy hz => hparent y z x hy hz
  rcases Relation.ReflTransGen.total_of_right_unique hunique (mem_below.mp hxb).swap
      (mem_below.mp hxc).swap with hr | hr
  · exact hapart hc hb hne.symm (mem_below.mpr hr.swap)
  · exact hapart hb hc hne (mem_below.mpr hr.swap)

theorem nodup_below (h : Ranked children rank)
    (hparent : ∀ a b c, c ∈ children a → c ∈ children b → a = b)
    (hnodup : ∀ a, (children a).Nodup) (a : α) : (below h a).Nodup := by
  induction a using h.induction with
  | step a ih =>
    rw [below_eq, List.nodup_cons, List.nodup_flatMap]
    refine ⟨?_, ih, ?_⟩
    · intro hm
      obtain ⟨b, hb, ha⟩ := List.mem_flatMap.mp hm
      exact Nat.lt_irrefl _ (Nat.lt_of_le_of_lt (rank_le_of_mem_below ha) (h a b hb))
    · exact (hnodup a).imp_of_mem fun hb hc hne => disjoint_below h hparent hb hc hne

/-- The walk over a queue that is one list. -/
def walk (children : α → List α) (budget visits : Nat) (queue met : List α) : Unfolding α :=
  match budget, queue with
  | _, [] => ⟨met.reverse, visits, false⟩
  | 0, a :: _ => ⟨(a :: met).reverse, visits, true⟩
  | budget + 1, a :: queue =>
    walk children budget (visits + 1) (queue ++ children a)
      (if (children a).isEmpty then a :: met else met)

theorem queue_of_pop? {front back : List α} :
    front ++ back.reverse =
      match pop? front back with
      | none => []
      | some (a, front, back) => a :: (front ++ back.reverse) := by
  unfold pop?
  cases front with
  | cons a front => rfl
  | nil =>
    cases back.reverse with
    | nil => rfl
    | cons a front => simp

theorem unfoldFrom_eq_walk (budget visits : Nat) (front back met : List α) :
    unfoldFrom children budget visits front back met =
      walk children budget visits (front ++ back.reverse) met := by
  induction budget generalizing visits front back met with
  | zero =>
    rw [queue_of_pop?, unfoldFrom]
    cases pop? front back with
    | none => rfl
    | some next => rfl
  | succ budget ih =>
    rw [queue_of_pop?, unfoldFrom]
    cases pop? front back with
    | none => rfl
    | some next =>
      obtain ⟨a, front, back⟩ := next
      cases hc : children a with
      | nil => simp [ih, walk, hc]
      | cons b bs => simp [ih, walk, hc]

/-- A visit exchanges a node for its children, in the queue and in what lies below the queue. -/
theorem length_below_visit (h : Ranked children rank) (a : α) (queue : List α) :
    ((a :: queue).flatMap (below h)).length =
      ((queue ++ children a).flatMap (below h)).length + 1 := by
  rw [List.flatMap_cons, List.flatMap_append, below_eq, List.length_append, List.length_append,
    List.length_cons]
  omega

theorem mem_below_visit {h : Ranked children rank} {a x : α} {queue : List α} :
    x ∈ (a :: queue).flatMap (below h) ↔ x = a ∨ x ∈ (queue ++ children a).flatMap (below h) := by
  rw [List.flatMap_cons, List.flatMap_append, below_eq, List.mem_append, List.mem_append,
    List.mem_cons, or_assoc]
  exact or_congr_right or_comm

theorem mem_met {a x : α} {met : List α}
    (hx : x ∈ if (children a).isEmpty then a :: met else met) : x = a ∨ x ∈ met := by
  split at hx
  · exact List.mem_cons.mp hx
  · exact .inr hx

/-- With enough visits the walk meets all leaves below the queue. -/
theorem walk_whole (h : Ranked children rank) {budget visits : Nat} {queue met : List α}
    (hb : (queue.flatMap (below h)).length ≤ budget) :
    (walk children budget visits queue met).truncated = false ∧
    (walk children budget visits queue met).visits =
      visits + (queue.flatMap (below h)).length ∧
    (walk children budget visits queue met).leaves.Perm
      (met.reverse ++ queue.flatMap (leavesBelow h)) := by
  induction budget generalizing visits queue met with
  | zero =>
    cases queue with
    | nil => simp [walk]
    | cons a queue =>
      rw [length_below_visit] at hb
      omega
  | succ budget ih =>
    cases queue with
    | nil => simp [walk]
    | cons a queue =>
      rw [length_below_visit] at hb ⊢
      obtain ⟨htruncated, hvisits, hleaves⟩ := @ih (visits + 1) (queue ++ children a)
        (if (children a).isEmpty then a :: met else met) (Nat.le_of_succ_le_succ hb)
      refine ⟨htruncated, ?_, ?_⟩
      · rw [walk, hvisits]
        omega
      · have hmet : (if (children a).isEmpty then a :: met else met).reverse =
            met.reverse ++ if (children a).isEmpty then [a] else [] := by
          split <;> simp
        rw [walk]
        refine hleaves.trans ?_
        rw [hmet, List.flatMap_cons, leavesBelow_eq, List.flatMap_append, List.append_assoc,
          List.append_assoc]
        exact (List.perm_append_comm.append_left _).append_left _

/-- With fewer visits than nodes below the queue, the walk is cut short after as many as it has. -/
theorem walk_cut (h : Ranked children rank) {budget visits : Nat} {queue met : List α}
    (hb : budget < (queue.flatMap (below h)).length) :
    (walk children budget visits queue met).truncated = true ∧
    (walk children budget visits queue met).visits = visits + budget ∧
    (walk children budget visits queue met).leaves ≠ [] ∧
    ∀ x ∈ (walk children budget visits queue met).leaves,
      x ∈ met ∨ x ∈ queue.flatMap (below h) := by
  induction budget generalizing visits queue met with
  | zero =>
    cases queue with
    | nil => simp at hb
    | cons a queue =>
      refine ⟨rfl, rfl, by simp [walk], ?_⟩
      intro x hx
      rcases List.mem_cons.mp (List.mem_reverse.mp hx) with rfl | hx
      · exact .inr (mem_below_visit.mpr (.inl rfl))
      · exact .inl hx
  | succ budget ih =>
    cases queue with
    | nil => simp at hb
    | cons a queue =>
      rw [length_below_visit] at hb
      obtain ⟨htruncated, hvisits, hsome, hmem⟩ := @ih (visits + 1) (queue ++ children a)
        (if (children a).isEmpty then a :: met else met) (Nat.lt_of_succ_lt_succ hb)
      rw [walk]
      refine ⟨htruncated, by omega, hsome, ?_⟩
      intro x hx
      rcases hmem x hx with hm | hm
      · rcases mem_met hm with rfl | hm
        · exact .inr (mem_below_visit.mpr (.inl rfl))
        · exact .inl hm
      · exact .inr (mem_below_visit.mpr (.inr hm))

theorem unfold_eq_walk (budget : Nat) (root : α) :
    unfold children budget root = walk children budget 0 [root] [] :=
  unfoldFrom_eq_walk budget 0 [root] [] []

theorem unfold_whole (h : Ranked children rank) {budget : Nat} {root : α}
    (hb : (below h root).length ≤ budget) :
    (unfold children budget root).truncated = false ∧
    (unfold children budget root).visits = (below h root).length ∧
    (unfold children budget root).leaves.Perm (leavesBelow h root) := by
  have hq : ([root].flatMap (below h)).length ≤ budget := by simpa using hb
  have hw := @walk_whole α children rank h budget 0 [root] [] hq
  rw [unfold_eq_walk]
  simpa using hw

theorem unfold_cut (h : Ranked children rank) {budget : Nat} {root : α}
    (hb : budget < (below h root).length) :
    (unfold children budget root).truncated = true ∧
    (unfold children budget root).visits = budget ∧
    (unfold children budget root).leaves ≠ [] ∧
    ∀ a ∈ (unfold children budget root).leaves, a ∈ below h root := by
  have hq : budget < ([root].flatMap (below h)).length := by simpa using hb
  have hc := @walk_cut α children rank h budget 0 [root] [] hq
  rw [unfold_eq_walk]
  simpa using hc

/-- What a walk finds, whether or not it has visits for the whole tree. -/
theorem unfold_spec (h : Ranked children rank) (budget : Nat) (root : α) :
    ((unfold children budget root).truncated = true ↔ budget < (below h root).length) ∧
    (unfold children budget root).visits = min (below h root).length budget ∧
    ((unfold children budget root).truncated = false →
      (unfold children budget root).leaves.Perm (leavesBelow h root)) ∧
    (∀ a ∈ (unfold children budget root).leaves, a ∈ below h root) ∧
    (unfold children budget root).leaves ≠ [] := by
  rcases Nat.lt_or_ge budget (below h root).length with hlt | hle
  · obtain ⟨htruncated, hvisits, hsome, hmem⟩ := unfold_cut h hlt
    refine ⟨iff_of_true htruncated hlt, ?_, ?_, hmem, hsome⟩
    · rw [hvisits, Nat.min_eq_right (Nat.le_of_lt hlt)]
    · intro hf
      rw [htruncated] at hf
      cases hf
  · obtain ⟨hwhole, hvisits, hleaves⟩ := unfold_whole h hle
    refine ⟨iff_of_false (by simp [hwhole]) (Nat.not_lt.mpr hle), ?_, fun _ => hleaves, ?_, ?_⟩
    · rw [hvisits, Nat.min_eq_left hle]
    · intro a ha
      exact (List.mem_filter.mp (hleaves.mem_iff.mp ha)).1
    · intro he
      rw [he] at hleaves
      exact leavesBelow_ne_nil h root hleaves.nil_eq.symm

end PointerTriage.Graph
