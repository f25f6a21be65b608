import Nexus.NetworkManager
import Mathlib.Tactic.Ring

namespace Nexus

theorem squaredDiff_comm (a b : Binary64) : squaredDiff a b = squaredDiff b a := by
  unfold squaredDiff
  rw [Binary64.square_sub_comm]

theorem distance_comm (a b : Node) : distance a b = distance b a := by
  unfold distance
  rw [squaredDiff_comm a.coords.1, squaredDiff_comm a.coords.2]

theorem linkWeight_comm (a b : Node) : linkWeight a b = linkWeight b a := by
  unfold linkWeight
  rw [distance_comm a b]
  congr 1
  funext weight
  by_cases ga : a.type = .ground <;> by_cases gb : b.type = .ground <;> simp [ga, gb]

/-- A distance is the root of a sum that fits an `int`. -/
theorem distance_bounds {a b : Node} {w : Int} (run : distance a b = .ok w) : 0 ≤ w ∧ w ≤ 46340 := by
  obtain ⟨x, _, run⟩ := bind_eq_ok.mp run
  obtain ⟨y, _, run⟩ := bind_eq_ok.mp run
  obtain ⟨sum, sumRun, run⟩ := bind_eq_ok.mp run
  obtain ⟨⟨_, upper⟩, rfl⟩ := checkInt_eq_ok.mp sumRun
  unfold sqrtInt at run
  split at run
  · cases run
  · cases run
    have root : (x + y).toNat.sqrt < 46341 := Nat.sqrt_lt.mpr (by unfold INT_MAX at upper; omega)
    omega

/-- The quadratic penalty in unbounded integers. -/
def penalty (weight : Int) : Int := if 500 < weight then 500 + (weight - 500) * (weight - 500) else weight

theorem penalty_bounds {w : Int} (nonneg : 0 ≤ w) (small : w ≤ 47340) :
    0 ≤ penalty w ∧ penalty w ≤ 2193986100 ∧ (500 < w → 0 < penalty w) := by
  have square : 0 ≤ (w - 500) * (w - 500) := mul_self_nonneg _
  unfold penalty
  split
  · have bound : (w - 500) * (w - 500) ≤ 46840 * 46840 := mul_self_le_mul_self (by omega) (by omega)
    omega
  · omega

/-- Weights in the range of the distances stay far below the limits of `long long`. -/
theorem penalised_eq {w : Int} (nonneg : 0 ≤ w) (small : w ≤ 47340) : penalised w = .ok (penalty w) := by
  obtain ⟨lower, upper, _⟩ := penalty_bounds nonneg small
  unfold penalty at lower upper ⊢
  by_cases long : 500 < w
  · have square : 0 ≤ (w - 500) * (w - 500) := mul_self_nonneg _
    have fits : ∀ v : Int, 0 ≤ v → v ≤ 2193986100 → checkLongLong v = .ok v := fun v _ _ =>
      checkLongLong_eq (by unfold LONG_LONG_MIN; omega) (by unfold LONG_LONG_MAX; omega)
    rw [if_pos long] at lower upper
    rw [penalised, if_pos long, if_pos long]
    refine bind_eq_ok.mpr ⟨_, fits _ (by omega) (by omega), ?_⟩
    refine bind_eq_ok.mpr ⟨_, fits _ square (by omega), ?_⟩
    exact fits _ (by omega) (by omega)
  · rw [penalised, if_neg long, if_neg long]

/-- The weights that the loop can store: no link between two ground nodes, and otherwise a
number of at most 32 bits, positive when one end is a ground node. -/
theorem linkWeight_cases {a b : Node} {w : Int} (run : linkWeight a b = .ok w) :
    (a.type = .ground ∧ b.type = .ground ∧ w = LONG_LONG_MAX) ∨
      (¬(a.type = .ground ∧ b.type = .ground) ∧ 0 ≤ w ∧ w ≤ 2193986100 ∧
        (a.type = .ground ∨ b.type = .ground → 0 < w)) := by
  obtain ⟨d, distanceRun, run⟩ := bind_eq_ok.mp run
  obtain ⟨lower, upper⟩ := distance_bounds distanceRun
  have raised : ∀ w, checkLongLong (d + 1000) >>= penalised = .ok w → 0 ≤ w ∧ w ≤ 2193986100 ∧ 0 < w := by
    intro w run
    obtain ⟨_, check, run⟩ := bind_eq_ok.mp run
    obtain ⟨_, rfl⟩ := checkLongLong_eq_ok.mp check
    rw [penalised_eq (by omega) (by omega)] at run
    cases run
    obtain ⟨nonneg, bound, positive⟩ := @penalty_bounds (d + 1000) (by omega) (by omega)
    exact ⟨nonneg, bound, positive (by omega)⟩
  by_cases both : a.type = .ground ∧ b.type = .ground
  · rw [if_pos both] at run
    cases run
    exact Or.inl ⟨both.1, both.2, rfl⟩
  · refine Or.inr ⟨both, ?_⟩
    rw [if_neg both] at run
    by_cases ga : a.type = .ground
    · rw [if_pos ga] at run
      obtain ⟨nonneg, bound, positive⟩ := raised w run
      exact ⟨nonneg, bound, fun _ => positive⟩
    · rw [if_neg ga] at run
      by_cases gb : b.type = .ground
      · rw [if_pos gb] at run
        obtain ⟨nonneg, bound, positive⟩ := raised w run
        exact ⟨nonneg, bound, fun _ => positive⟩
      · rw [if_neg gb] at run
        rw [penalised_eq lower (by omega)] at run
        cases run
        obtain ⟨nonneg, bound, _⟩ := @penalty_bounds d lower (by omega)
        exact ⟨nonneg, bound, fun ground => (ground.elim ga gb).elim⟩

end Nexus
