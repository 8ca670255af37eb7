import PointerTriage.Proofs.Graph.Reachability
import PointerTriage.Proofs.Sets

namespace PointerTriage.Graph

variable {α : Type}

/-- Reachable from a seed in so many steps, all inside the domain. -/
inductive ReachesIn (next : α → List α) (domain seeds : List α) : Nat → α → Prop where
  | seed {a : α} (hd : a ∈ domain) (hs : a ∈ seeds) : ReachesIn next domain seeds 0 a
  | step {n : Nat} {a b : α} (ha : ReachesIn next domain seeds n a) (hd : b ∈ domain)
      (hb : b ∈ next a) : ReachesIn next domain seeds (n + 1) b

/-- The least number of steps in which an element is reached. -/
structure IsDistance (next : α → List α) (domain seeds : List α) (n : Nat) (a : α) : Prop where
  reached : ReachesIn next domain seeds n a
  least : ∀ m, ReachesIn next domain seeds m a → n ≤ m

theorem reaches_iff_reachesIn {next : α → List α} {domain seeds : List α} {a : α} :
    Reaches next domain seeds a ↔ ∃ n, ReachesIn next domain seeds n a := by
  constructor
  · intro h
    induction h with
    | seed hd hs => exact ⟨0, .seed hd hs⟩
    | step _ hd hb ih =>
      obtain ⟨n, hn⟩ := ih
      exact ⟨n + 1, .step hn hd hb⟩
  · rintro ⟨n, h⟩
    induction h with
    | seed hd hs => exact .seed hd hs
    | step _ hd hb ih => exact .step ih hd hb

theorem ReachesIn.mem_domain {next : α → List α} {domain seeds : List α} {n : Nat} {a : α}
    (h : ReachesIn next domain seeds n a) : a ∈ domain := by
  cases h with
  | seed hd _ => exact hd
  | step _ hd _ => exact hd

variable [DecidableEq α] {next : α → List α} {domain wave layer : List α} {a : α} {n : Nat}

section

variable (hl : freshIn domain wave = layer)
include hl

theorem mem_layer {b : α} : b ∈ layer ↔ b ∈ wave ∧ b ∈ domain := by
  rw [← hl, mem_freshIn]

/-- A way that starts behind the first layer is one step longer from the seeds. -/
theorem reachesIn_of_behind
    (h : ReachesIn next (without domain layer) (layer.flatMap next) n a) :
    ReachesIn next domain wave (n + 1) a := by
  induction h with
  | seed hd hs =>
    obtain ⟨b, hb, ha⟩ := List.mem_flatMap.mp hs
    obtain ⟨hwave, hdomain⟩ := (mem_layer hl).mp hb
    exact .step (.seed hdomain hwave) (mem_without.mp hd).1 ha
  | step _ hd hb ih => exact .step ih (mem_without.mp hd).1 hb

/-- A way either ends in the first layer, or is longer than one that starts behind it. -/
theorem behind_of_reachesIn (h : ReachesIn next domain wave n a) :
    a ∈ layer ∨ ∃ m < n, ReachesIn next (without domain layer) (layer.flatMap next) m a := by
  induction h with
  | seed hd hs => exact .inl ((mem_layer hl).mpr ⟨hs, hd⟩)
  | @step n a b _ hd hb ih =>
    by_cases hlayer : b ∈ layer
    · exact .inl hlayer
    · have hrest := mem_without.mpr ⟨hd, hlayer⟩
      rcases ih with ha | ⟨m, hm, ha⟩
      · exact .inr ⟨0, n.succ_pos, .seed hrest (List.mem_flatMap.mpr ⟨a, ha, hb⟩)⟩
      · exact .inr ⟨m + 1, Nat.succ_lt_succ hm, .step ha hrest hb⟩

theorem isDistance_of_layer (ha : a ∈ layer) (h : IsDistance next domain wave n a) : n = 0 := by
  obtain ⟨hwave, hdomain⟩ := (mem_layer hl).mp ha
  exact Nat.le_zero.mp (h.least 0 (.seed hdomain hwave))

/-- Behind the first layer all distances are shorter by one. -/
theorem isDistance_behind (ha : a ∉ layer) (h : IsDistance next domain wave n a) :
    ∃ m, n = m + 1 ∧ IsDistance next (without domain layer) (layer.flatMap next) m a := by
  obtain ⟨m, hm, hbehind⟩ := (behind_of_reachesIn hl h.reached).resolve_left ha
  have hn : n ≤ m + 1 := h.least _ (reachesIn_of_behind hl hbehind)
  refine ⟨m, by omega, hbehind, ?_⟩
  intro k hk
  have := h.least _ (reachesIn_of_behind hl hk)
  omega

end

/-- The search from a wave finds its first layer, and then what is behind it. -/
theorem reach_eq_layer_append (next : α → List α) (domain wave : List α) :
    reach next domain wave = freshIn domain wave ++
      if (freshIn domain wave).isEmpty then []
      else reach next (without domain (freshIn domain wave)) ((freshIn domain wave).flatMap next) := by
  rw [reach, layers]
  split
  · rename_i hl
    simp [hl]
  · rename_i b layer hl
    simp [hl, reach]

theorem not_mem_layer_of_behind {seeds : List α} (ha : a ∈ reach next (without domain layer) seeds) :
    a ∉ layer := by
  induction mem_reach_iff.mp ha with
  | seed hd _ => exact (mem_without.mp hd).2
  | step _ hd _ _ => exact (mem_without.mp hd).2

theorem nodup_reach (next : α → List α) (domain wave : List α) :
    (reach next domain wave).Nodup := by
  induction domain, wave using layers.induct next with
  | case1 domain wave hl => simp [reach_eq_layer_append, hl]
  | case2 domain wave b layer hl ih =>
    rw [reach_eq_layer_append, hl]
    refine List.nodup_append.mpr ⟨hl ▸ nodup_eraseDups _, ih, ?_⟩
    rintro a ha a' ha' rfl
    exact not_mem_layer_of_behind ha' ha

/-- What is reached is listed nearest first. -/
theorem pairwise_reach (next : α → List α) (domain wave : List α) :
    (reach next domain wave).Pairwise fun a b => ∀ m n,
      IsDistance next domain wave m a → IsDistance next domain wave n b → m ≤ n := by
  induction domain, wave using layers.induct next with
  | case1 domain wave hl => simp [reach_eq_layer_append, hl]
  | case2 domain wave b layer hl ih =>
    rw [reach_eq_layer_append, hl]
    have hfirst : ∀ a ∈ b :: layer, ∀ m, IsDistance next domain wave m a → m = 0 :=
      fun a ha m hm => isDistance_of_layer hl ha hm
    refine List.pairwise_append.mpr ⟨?_, ?_, ?_⟩
    · refine List.pairwise_of_forall_mem_list ?_
      intro a ha a' _ m n hm _
      exact hfirst a ha m hm ▸ Nat.zero_le n
    · refine ih.imp_of_mem ?_
      intro a a' ha ha' h m n hm hn
      -- Both distances are one more than from behind the layer.
      obtain ⟨m', rfl, hm'⟩ := isDistance_behind hl (not_mem_layer_of_behind ha) hm
      obtain ⟨n', rfl, hn'⟩ := isDistance_behind hl (not_mem_layer_of_behind ha') hn
      exact Nat.succ_le_succ (h m' n' hm' hn')
    · intro a ha a' _ m n hm _
      exact hfirst a ha m hm ▸ Nat.zero_le n

/-- The distances from a wave: its first layer at none, and what is behind it one further. -/
theorem distances_eq_layer_append (next : α → List α) (domain wave : List α) :
    distances next domain wave = (freshIn domain wave).map (·, 0) ++
      if (freshIn domain wave).isEmpty then []
      else (distances next (without domain (freshIn domain wave))
        ((freshIn domain wave).flatMap next)).map (Prod.map id (· + 1)) := by
  rw [distances, layers]
  split
  · rename_i hl
    simp [hl]
  · rename_i b layer hl
    simp only [hl, List.zipIdx_cons, List.flatMap_cons, List.isEmpty_cons, Bool.false_eq_true,
      if_false, distances, List.map_flatMap, Nat.zero_add]
    rw [List.zipIdx_succ, List.flatMap_map]
    simp [Function.comp_def]

theorem map_fst_distances (next : α → List α) (domain wave : List α) :
    (distances next domain wave).map (·.1) = reach next domain wave := by
  induction domain, wave using layers.induct next with
  | case1 domain wave hl => simp [distances_eq_layer_append, reach_eq_layer_append, hl]
  | case2 domain wave b layer hl ih =>
    rw [distances_eq_layer_append, reach_eq_layer_append, hl, ← ih]
    simp [Function.comp_def]

/-- The search gives each element its distance. -/
theorem mem_distances : (a, n) ∈ distances next domain wave ↔ IsDistance next domain wave n a := by
  induction domain, wave using layers.induct next generalizing n with
  | case1 domain wave hl =>
    rw [distances_eq_layer_append, hl]
    simp only [List.map_nil, List.isEmpty_nil, if_true, List.append_nil, List.not_mem_nil, false_iff]
    intro h
    have hreach := mem_reach_iff.mpr (reaches_iff_reachesIn.mpr ⟨n, h.reached⟩)
    simp [reach_eq_layer_append, hl] at hreach
  | case2 domain wave b layer hl ih =>
    rw [distances_eq_layer_append, hl]
    constructor
    · intro h
      rcases List.mem_append.mp h with h | h
      · obtain ⟨a, ha, he⟩ := List.mem_map.mp h
        obtain ⟨rfl, rfl⟩ := Prod.mk.inj he
        obtain ⟨hwave, hdomain⟩ := (mem_layer hl).mp ha
        exact ⟨.seed hdomain hwave, fun m _ => m.zero_le⟩
      · obtain ⟨⟨a, m⟩, ha, he⟩ := List.mem_map.mp h
        obtain ⟨rfl, rfl⟩ := Prod.mk.inj he
        have hbehind := ih.mp ha
        refine ⟨reachesIn_of_behind hl hbehind.reached, ?_⟩
        intro k hk
        -- A shorter way would start behind the layer as well.
        have hlayer := (mem_without.mp hbehind.reached.mem_domain).2
        obtain ⟨k', hlt, hk'⟩ := (behind_of_reachesIn hl hk).resolve_left hlayer
        exact Nat.lt_of_le_of_lt (hbehind.least k' hk') hlt
    · intro h
      by_cases ha : a ∈ b :: layer
      · obtain rfl := isDistance_of_layer hl ha h
        exact List.mem_append_left _ (List.mem_map_of_mem ha)
      · obtain ⟨m, rfl, hm⟩ := isDistance_behind hl ha h
        refine List.mem_append_right _ (List.mem_map.mpr ⟨(a, m), ih.mpr hm, rfl⟩)

end PointerTriage.Graph
