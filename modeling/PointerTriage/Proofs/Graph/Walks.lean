import Mathlib.Data.List.Chain
import Mathlib.Data.List.Infix
import Mathlib.Data.List.Lemmas

namespace PointerTriage.Graph

variable {α β : Type}

inductive Step (wholes : β → Prop) (parts : β → List α) (follows : β → β → Prop) : α → α → Prop where
  | within {b : β} {a a' : α} (hb : wholes b) (h : [a, a'] <:+: parts b) :
      Step wholes parts follows a a'
  | across {b b' : β} {a a' : α} (hb : wholes b) (hb' : wholes b') (h : follows b b')
      (ha : (parts b).getLast? = some a) (ha' : (parts b').head? = some a') :
      Step wholes parts follows a a'

/-- A list of wholes, each of which follows the one before. -/
def Walk (wholes : β → Prop) (follows : β → β → Prop) (bs : List β) : Prop :=
  (∀ b ∈ bs, wholes b) ∧ bs.IsChain follows

variable {wholes : β → Prop} {parts : β → List α} {follows : β → β → Prop}

theorem Walk.cons {b b' : β} {bs : List β} (h : Walk wholes follows (b' :: bs)) (hb : wholes b)
    (hf : follows b b') : Walk wholes follows (b :: b' :: bs) := by
  refine ⟨?_, List.isChain_cons_cons.mpr ⟨hf, h.2⟩⟩
  intro c hc
  rcases List.mem_cons.mp hc with rfl | hc
  · exact hb
  · exact h.1 c hc

theorem isChain_parts {b : β} (hb : wholes b) :
    (parts b).IsChain (Step wholes parts follows) := by
  refine List.isChain_iff_forall_rel_of_append_cons_cons.mpr ?_
  intro a a' before after he
  refine .within hb ⟨before, after, ?_⟩
  rw [he]
  simp

/-- What a walk through wholes passes is a walk by steps. -/
theorem Walk.isChain_flatMap (hne : ∀ b, wholes b → parts b ≠ []) {bs : List β}
    (h : Walk wholes follows bs) : (bs.flatMap parts).IsChain (Step wholes parts follows) := by
  obtain ⟨hbs, hchain⟩ := h
  have hempty : [] ∉ bs.map parts := by
    intro hm
    obtain ⟨b, hb, he⟩ := List.mem_map.mp hm
    exact hne b (hbs b hb) he
  rw [List.flatMap_def]
  refine (List.isChain_flatten hempty).mpr ⟨?_, ?_⟩
  · intro l hl
    obtain ⟨b, hb, rfl⟩ := List.mem_map.mp hl
    exact isChain_parts (hbs b hb)
  · rw [List.isChain_map]
    refine hchain.imp_of_mem_imp ?_
    intro b b' hb hb' hf a ha a' ha'
    exact .across (hbs b hb) (hbs b' hb') hf ha ha'

/-- Parts tell where they are: no two wholes share one, and none is in a whole twice. -/
structure Apart (wholes : β → Prop) (parts : β → List α) : Prop where
  nodup : ∀ b, wholes b → (parts b).Nodup
  unique : ∀ b b' a, wholes b → wholes b' → a ∈ parts b → a ∈ parts b' → b = b'

/-- A part splits its whole in one way. -/
theorem Apart.split_unique (h : Apart wholes parts) {b : β} (hb : wholes b) {a : α}
    {before after before' after' : List α} (he : parts b = before ++ a :: after)
    (he' : parts b = before' ++ a :: after') : before = before' := by
  have hnodup := h.nodup b hb
  rw [he, List.nodup_append] at hnodup
  obtain ⟨_, hafter, hapart⟩ := hnodup
  have hbefore : a ∉ before := fun hm => hapart a hm a List.mem_cons_self rfl
  have heq := (List.append_cons_inj_of_notMem hbefore (List.nodup_cons.mp hafter).1).mp
    (he.symm.trans he')
  exact heq.1

/-- A walk by steps is what a walk through wholes passes, after some parts of the first whole and
before some parts of the last. -/
theorem Apart.exists_walk (h : Apart wholes parts) {a : α} {as : List α}
    (hchain : (a :: as).IsChain (Step wholes parts follows)) (ha : ∃ b, wholes b ∧ a ∈ parts b) :
    ∃ b bs before after, Walk wholes follows (b :: bs) ∧ (∃ rest, parts b = before ++ a :: rest) ∧
      (b :: bs).flatMap parts = before ++ (a :: as) ++ after := by
  induction as generalizing a with
  | nil =>
    obtain ⟨b, hb, ha⟩ := ha
    obtain ⟨before, rest, he⟩ := List.append_of_mem ha
    refine ⟨b, [], before, rest, ⟨by simpa using hb, List.isChain_singleton b⟩, ⟨rest, he⟩, ?_⟩
    simp [he]
  | cons a' as ih =>
    obtain ⟨hstep, hchain⟩ := List.isChain_cons_cons.mp hchain
    cases hstep with
    | @within b₀ _ _ hb₀ hin =>
      obtain ⟨before₀, after₀, he₀⟩ := hin
      have he₀ : parts b₀ = (before₀ ++ [a]) ++ a' :: after₀ := by simp [← he₀]
      obtain ⟨b, bs, before, after, hwalk, ⟨rest, hrest⟩, heq⟩ :=
        ih hchain ⟨b₀, hb₀, by simp [he₀]⟩
      have hb := hwalk.1 b List.mem_cons_self
      have hsame : b = b₀ := h.unique b b₀ a' hb hb₀ (by simp [hrest]) (by simp [he₀])
      subst hsame
      have hbefore := h.split_unique hb hrest he₀
      subst hbefore
      refine ⟨b, bs, before₀, after, hwalk, ⟨a' :: after₀, by simpa using he₀⟩, ?_⟩
      rw [heq]
      simp
    | @across b₀ b₁ _ _ hb₀ hb₁ hf hlast hhead =>
      obtain ⟨rest₁, he₁⟩ : ∃ rest, parts b₁ = [] ++ a' :: rest := by
        obtain ⟨rest, he⟩ := List.head?_eq_some_iff.mp hhead
        exact ⟨rest, he⟩
      obtain ⟨b, bs, before, after, hwalk, ⟨rest, hrest⟩, heq⟩ :=
        ih hchain ⟨b₁, hb₁, by simp [he₁]⟩
      have hb := hwalk.1 b List.mem_cons_self
      have hsame : b = b₁ := h.unique b b₁ a' hb hb₁ (by simp [hrest]) (by simp [he₁])
      subst hsame
      have hbefore := h.split_unique hb hrest he₁
      subst hbefore
      obtain ⟨before₀, he₀⟩ := List.getLast?_eq_some_iff.mp hlast
      refine ⟨b₀, b :: bs, before₀, after, hwalk.cons hb₀ hf, ⟨[], he₀⟩, ?_⟩
      rw [List.flatMap_cons, heq, he₀]
      simp

theorem Apart.exists_walk_around (h : Apart wholes parts) {as : List α}
    (hchain : as.IsChain (Step wholes parts follows))
    (hfirst : ∀ a ∈ as.head?, ∃ b, wholes b ∧ a ∈ parts b) :
    ∃ bs, Walk wholes follows bs ∧ as <:+: bs.flatMap parts := by
  cases as with
  | nil => exact ⟨[], ⟨by simp, List.isChain_nil⟩, List.nil_infix⟩
  | cons a as =>
    obtain ⟨b, bs, before, after, hwalk, _, heq⟩ := h.exists_walk hchain (hfirst a rfl)
    exact ⟨b :: bs, hwalk, before, after, heq.symm⟩

end PointerTriage.Graph
