import PointerTriage.Proofs.Ir.Sound
import PointerTriage.Settings.Draft

namespace PointerTriage.Settings

theorem require_ok_iff {holds : Bool} {e : Error} :
    require holds e = .ok () ↔ holds = true := by
  cases holds <;> simp [require]

theorem Bound.within_ok_iff {range : Range} {value most : Nat} :
    Bound.within range value most = .ok () ↔ 1 ≤ value ∧ value ≤ most := by
  simp [Bound.within, require_ok_iff]

theorem Bound.check_ok_iff {b : Bound} :
    b.check = .ok () ↔
      (1 ≤ b.maxBackwardCmps ∧ b.maxBackwardCmps ≤ 1000) ∧
      (1 ≤ b.maxPathLength ∧ b.maxPathLength ≤ 10000) ∧
      (1 ≤ b.maxPathsWithCmps ∧ b.maxPathsWithCmps ≤ 1000) ∧
      (1 ≤ b.maxExploredPaths ∧ b.maxExploredPaths ≤ 1000000) ∧
      1 ≤ b.weights.scale ∧ b.weights.scale ≤ 1000 := by
  unfold Bound.check
  simp only [except_seq_ok_iff, Bound.within_ok_iff, require_ok_iff, Bool.and_eq_true,
    decide_eq_true_eq]

theorem Stages.check_ok_iff {s : Stages} :
    s.check = .ok () ↔ s.taint.check = .ok () ∧ s.bound.check = .ok () ∧ s.rules.check = .ok () ∧
      s.ranking.check = .ok () := by
  unfold Stages.check
  simp only [except_seq_ok_iff]

end PointerTriage.Settings

namespace PointerTriage

theorem Settings.bound_valid (s : Settings) : s.bound.check = .ok () :=
  (Settings.Stages.check_ok_iff.mp s.valid).2.1

end PointerTriage
