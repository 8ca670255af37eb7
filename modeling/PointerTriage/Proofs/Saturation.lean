import Mathlib.Data.List.Induction
import Mathlib.Logic.Function.Iterate

namespace PointerTriage

variable {σ α : Type}

/-- In a pass of steps that only add, each item is handled in some state between the first and the
last. -/
theorem foldl_visits {R : σ → σ → Prop} (hrefl : ∀ s, R s s)
    (htrans : ∀ {s t u}, R s t → R t u → R s u) {f : σ → α → σ} (hf : ∀ s a, R s (f s a))
    (as : List α) (s : σ) :
    R s (as.foldl f s) ∧ ∀ a ∈ as, ∃ t, R s t ∧ R (f t a) (as.foldl f s) := by
  induction as generalizing s with
  | nil => exact ⟨hrefl s, by simp⟩
  | cons a as ih =>
    obtain ⟨hpass, hvisit⟩ := ih (f s a)
    refine ⟨htrans (hf s a) hpass, ?_⟩
    intro b hb
    rcases List.mem_cons.mp hb with rfl | hb
    · exact ⟨s, hrefl s, hpass⟩
    · obtain ⟨t, ht, hb⟩ := hvisit b hb
      exact ⟨t, htrans (hf s a) ht, hb⟩

/-- An item comes when the items before it are as `P` asks. -/
def ComesWhen (items : List α) (a : α) (P : List α → Prop) : Prop :=
  ∃ before after, items = before ++ a :: after ∧ P before

theorem comesWhen_nil {a : α} {P : List α → Prop} : ¬ComesWhen [] a P := by
  simp [ComesWhen]

theorem comesWhen_concat {items : List α} {a b : α} {P : List α → Prop} :
    ComesWhen (items ++ [b]) a P ↔ ComesWhen items a P ∨ (b = a ∧ P items) := by
  constructor
  · intro hex
    obtain ⟨before, after, heq, hbefore⟩ := hex
    cases after using List.reverseRecOn with
    | nil =>
      obtain ⟨rfl, hlast⟩ := List.append_singleton_inj.mp heq
      exact .inr ⟨hlast, hbefore⟩
    | append_singleton after last =>
      rw [← List.cons_append, ← List.append_assoc, List.append_singleton_inj] at heq
      exact .inl ⟨before, after, heq.1, hbefore⟩
  · intro hor
    rcases hor with ⟨before, after, rfl, hbefore⟩ | ⟨rfl, hitems⟩
    · exact ⟨before, after ++ [b], by simp, hbefore⟩
    · exact ⟨items, [], rfl, hitems⟩

/-- Some round is the first that does not lower the measure. -/
theorem exists_last_round (step : σ → σ) (room : σ → Nat) (s : σ) :
    ∃ k, (∀ j < k, room (step^[j + 1] s) < room (step^[j] s)) ∧
      room (step^[k] s) ≤ room (step^[k + 1] s) := by
  induction hn : room s using Nat.strongRecOn generalizing s with
  | ind n ih =>
    by_cases hf : room (step s) < room s
    · obtain ⟨k, hj, hk⟩ := ih _ (hn ▸ hf) (step s) rfl
      refine ⟨k + 1, ?_, hk⟩
      intro j hjk
      cases j with
      | zero => exact hf
      | succ j => exact hj j (by omega)
    · exact ⟨0, by simp, Nat.le_of_not_lt hf⟩

end PointerTriage
