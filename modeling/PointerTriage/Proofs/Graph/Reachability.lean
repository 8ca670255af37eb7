import PointerTriage.Graph.Layers

namespace PointerTriage.Graph

variable {α : Type}

/-- Reachable from a seed by steps that stay in the domain. -/
inductive Reaches (next : α → List α) (domain seeds : List α) : α → Prop where
  | seed {a : α} (hd : a ∈ domain) (hs : a ∈ seeds) : Reaches next domain seeds a
  | step {a b : α} (ha : Reaches next domain seeds a) (hd : b ∈ domain) (hb : b ∈ next a) :
      Reaches next domain seeds b

variable [DecidableEq α]

theorem mem_without {domain layer : List α} {a : α} :
    a ∈ without domain layer ↔ a ∈ domain ∧ a ∉ layer := by
  simp [without]

/-- Peeling the first layer off: the rest is reachable from its neighbours without it. -/
theorem reaches_layer {next : α → List α} {domain wave layer : List α} {a : α}
    (hl : freshIn domain wave = layer) :
    Reaches next domain wave a ↔
      a ∈ layer ∨ Reaches next (without domain layer) (layer.flatMap next) a := by
  have hmem : ∀ {b}, b ∈ layer ↔ b ∈ wave ∧ b ∈ domain := by
    intro b
    rw [← hl, mem_freshIn]
  constructor
  · intro h
    induction h with
    | seed hd hs => exact .inl (hmem.mpr ⟨hs, hd⟩)
    | @step a b _ hd hb ih =>
      by_cases hl : b ∈ layer
      · exact .inl hl
      · have hw := mem_without.mpr ⟨hd, hl⟩
        rcases ih with ha | ha
        · exact .inr (.seed hw (List.mem_flatMap.mpr ⟨a, ha, hb⟩))
        · exact .inr (.step ha hw hb)
  · intro hor
    rcases hor with h | h
    · exact .seed (hmem.mp h).2 (hmem.mp h).1
    · induction h with
      | seed hd hs =>
        obtain ⟨b, hb, ha⟩ := List.mem_flatMap.mp hs
        exact .step (.seed (hmem.mp hb).2 (hmem.mp hb).1) (mem_without.mp hd).1 ha
      | step _ hd hb ih => exact .step ih (mem_without.mp hd).1 hb

theorem mem_reach_iff {next : α → List α} {domain seeds : List α} {a : α} :
    a ∈ reach next domain seeds ↔ Reaches next domain seeds a := by
  unfold reach
  induction domain, seeds using layers.induct next with
  | case1 domain wave hl =>
    rw [layers, reaches_layer hl]
    split
    · simp only [List.flatten_nil, List.not_mem_nil, List.flatMap_nil, false_or, false_iff]
      intro h
      induction h with
      | seed _ hs => exact List.not_mem_nil hs
      | step _ _ _ ih => exact ih
    · simp_all
  | case2 domain wave b layer hl ih =>
    rw [layers, reaches_layer hl, ← ih]
    split
    · simp_all
    · rename_i hl'
      rw [hl] at hl'
      cases hl'
      rw [List.flatten_cons, List.mem_append]

/-- What holds of the seeds and is kept by steps inside the domain holds of all that is reached. -/
theorem reach_induction {next : α → List α} {domain seeds : List α} {P : α → Prop}
    (hs : ∀ a ∈ seeds, a ∈ domain → P a)
    (hn : ∀ a, P a → ∀ b ∈ next a, b ∈ domain → P b) : ∀ a ∈ reach next domain seeds, P a := by
  intro a ha
  induction mem_reach_iff.mp ha with
  | seed hd hseed => exact hs _ hseed hd
  | step before hd hb ih => exact hn _ (ih (mem_reach_iff.mpr before)) _ hb hd

theorem seed_mem_reach {next : α → List α} {domain seeds : List α} {a : α}
    (ha : a ∈ seeds) (hd : a ∈ domain) : a ∈ reach next domain seeds :=
  mem_reach_iff.mpr (.seed hd ha)

theorem reach_closed {next : α → List α} {domain seeds : List α} {a b : α}
    (ha : a ∈ reach next domain seeds) (hb : b ∈ next a) (hd : b ∈ domain) :
    b ∈ reach next domain seeds :=
  mem_reach_iff.mpr (.step (mem_reach_iff.mp ha) hd hb)

/-- More seeds and more steps reach more. -/
theorem reach_mono {next next' : α → List α} {domain seeds seeds' : List α}
    (hn : ∀ a, ∀ b ∈ next a, b ∈ next' a) (hs : ∀ a ∈ seeds, a ∈ seeds') :
    ∀ a ∈ reach next domain seeds, a ∈ reach next' domain seeds' :=
  reach_induction (fun a ha hd => seed_mem_reach (hs a ha) hd)
    fun a ha b hb hd => reach_closed ha (hn a b hb) hd

/-- The order in which the steps are listed does not matter. -/
theorem mem_reach_congr {next next' : α → List α} (hn : ∀ a b, b ∈ next a ↔ b ∈ next' a)
    {domain seeds : List α} {a : α} : a ∈ reach next domain seeds ↔ a ∈ reach next' domain seeds :=
  ⟨reach_mono (fun x y => (hn x y).mp) (fun _ h => h) a,
    reach_mono (fun x y => (hn x y).mpr) (fun _ h => h) a⟩

/-- What is reached is reached from one of the seeds. -/
theorem mem_reach_iff_seed {next : α → List α} {domain seeds : List α} {a : α} :
    a ∈ reach next domain seeds ↔ ∃ s ∈ seeds, a ∈ reach next domain [s] := by
  constructor
  · refine reach_induction (P := fun a => ∃ s ∈ seeds, a ∈ reach next domain [s]) ?_ ?_ a
    · intro s hs hd
      exact ⟨s, hs, seed_mem_reach (List.mem_singleton_self s) hd⟩
    · intro a hex b hb hd
      obtain ⟨s, hs, ha⟩ := hex
      exact ⟨s, hs, reach_closed ha hb hd⟩
  · intro hex
    obtain ⟨s, hs, ha⟩ := hex
    refine reach_mono (fun _ _ hb => hb) ?_ a ha
    intro x hx
    rwa [List.mem_singleton.mp hx]

end PointerTriage.Graph
