import Nexus.Routing.Weights
import Mathlib.Analysis.Real.Sqrt

namespace Nexus

section Roots

/-- The finite values of the format of `double`. -/
def Representable (s : ℝ) : Prop := ∃ m e : Int, |m| < 2 ^ 53 ∧ -1074 ≤ e ∧ s = m * 2 ^ e

/-- A value of the format that is nearest to `r`, as `std::sqrt` returns it for the root `r`. -/
structure NearestTo (r s : ℝ) : Prop where
  value : Representable s
  closest : ∀ t, Representable t → |s - r| ≤ |t - r|

/-- The root stays clear of the middle between the next integer and the value of the format before it. -/
theorem sqrt_clear {n : ℕ} (small : n.sqrt ≤ 46340) :
    (n.sqrt : ℝ) ≤ Real.sqrt n ∧ Real.sqrt n < n.sqrt + 1 - 1 / 2 ^ 21 := by
  have lower : n.sqrt * n.sqrt ≤ n := Nat.sqrt_le n
  have upper : n + 1 ≤ (n.sqrt + 1) * (n.sqrt + 1) := Nat.lt_succ_sqrt n
  have bits : (n.sqrt : ℝ) ≤ 46340 := by exact_mod_cast small
  constructor
  · refine Real.le_sqrt_of_sq_le ?_
    rw [sq]
    exact_mod_cast lower
  · have less : (n : ℝ) + 1 ≤ (n.sqrt + 1) * (n.sqrt + 1) := by exact_mod_cast upper
    have positive : (0 : ℝ) ≤ n.sqrt := Nat.cast_nonneg _
    rw [Real.sqrt_lt' (by linarith)]
    nlinarith

theorem floor_nearest {k : ℕ} (small : k ≤ 46340) {r s : ℝ} (below : k ≤ r) (clear : r < k + 1 - 1 / 2 ^ 21)
    (root : NearestTo r s) : ⌊s⌋ = k := by
  have bits : (k : ℝ) ≤ 46340 := by exact_mod_cast small
  have whole : Representable k := ⟨k, 0, by rw [abs_lt]; omega, by omega, by simp⟩
  have before : Representable (k + 1 - 1 / 2 ^ 20) :=
    ⟨(k + 1) * 2 ^ 20 - 1, -20, by rw [abs_lt]; omega, by omega, by push_cast; norm_num; ring⟩
  have nearK := root.closest _ whole
  have nearBefore := root.closest _ before
  have least : (k : ℝ) ≤ s := by
    by_contra less
    rw [abs_of_nonpos (by linarith), abs_of_nonpos (by linarith)] at nearK
    linarith
  have most : s < k + 1 := by
    by_contra more
    rw [abs_of_nonneg (by linarith)] at nearBefore
    rcases abs_cases ((k : ℝ) + 1 - 1 / 2 ^ 20 - r) with ⟨same, _⟩ | ⟨same, _⟩
    · rw [same] at nearBefore
      linarith
    · rw [same] at nearBefore
      linarith
  exact Int.floor_eq_iff.mpr ⟨by exact_mod_cast least, by exact_mod_cast most⟩

/-- The integer part of a rounded root is the floor of the root. -/
theorem sqrtInt_nearest {v : Int} (nonneg : 0 ≤ v) (fits : v ≤ INT_MAX) {s : ℝ} (root : NearestTo (Real.sqrt v) s) :
    sqrtInt v = .ok ⌊s⌋ := by
  obtain ⟨n, rfl⟩ := Int.eq_ofNat_of_zero_le nonneg
  rw [Int.cast_natCast] at root
  have small : n.sqrt ≤ 46340 := by
    have square := Nat.sqrt_le n
    unfold INT_MAX at fits
    by_contra large
    have larger : 46341 * 46341 ≤ n.sqrt * n.sqrt := Nat.mul_self_le_mul_self (by omega)
    omega
  obtain ⟨below, clear⟩ := sqrt_clear small
  unfold sqrtInt
  rw [if_neg (by omega), Int.toNat_natCast, floor_nearest small below clear root]

end Roots

/-- Two points at integer coordinates and the square of their distance. -/
def squaredDistance (p q : Int × Int) : Int := (p.1 - q.1) * (p.1 - q.1) + (p.2 - q.2) * (p.2 - q.2)

/-- A node at integer coordinates. -/
def Node.At (node : Node) (p : Int × Int) : Prop := node.coords = (.finite p.1, .finite p.2)

/-- The weight of a link in unbounded integers, with the floor of the root. -/
def exactWeight (a b : Node) (p q : Int × Int) : Int :=
  penalty (if a.type = .ground ∨ b.type = .ground then ((squaredDistance p q).toNat.sqrt : Int) + 1000
    else (squaredDistance p q).toNat.sqrt)

theorem squaredDiff_natCast (x : Int) (d : Nat) :
    squaredDiff (.finite (x + d : Int)) (.finite x) =
      if ((d * d : Nat) : Int) ≤ INT_MAX then .ok ((d * d : Nat) : Int) else .error .overflow := by
  have apart : (Binary64.finite (x + d : Int)).sub (.finite x) = .ofRat d := by
    rw [Binary64.sub]
    push_cast
    rw [add_sub_cancel_left]
  unfold squaredDiff
  rw [apart]
  rcases Binary64.truncate_square d with ⟨small, whole⟩ | ⟨large, far⟩
  · rw [whole]
    show checkInt _ = _
    unfold checkInt INT_MIN
    by_cases fits : ((d * d : Nat) : Int) ≤ INT_MAX
    · rw [if_pos fits, if_pos ⟨by omega, fits⟩]
    · rw [if_neg fits, if_neg fun both => fits both.2]
  · rw [if_neg (by unfold INT_MAX; omega)]
    split
    · rename_i v whole
      have bound := far v whole
      exact if_neg (by unfold INT_MAX; omega)
    · rfl

/-- A squared difference is exact where it fits an `int`, and undefined elsewhere. -/
theorem squaredDiff_intCast (x y : Int) :
    squaredDiff (.finite x) (.finite y) =
      if (x - y) * (x - y) ≤ INT_MAX then .ok ((x - y) * (x - y)) else .error .overflow := by
  rcases Int.le_total y x with above | below
  · obtain ⟨d, rfl⟩ := Int.le.dest above
    have size : (y + d - y) * (y + d - y) = ((d * d : Nat) : Int) := by
      push_cast
      ring
    rw [size, squaredDiff_natCast]
  · obtain ⟨d, rfl⟩ := Int.le.dest below
    have size : (x - (x + d)) * (x - (x + d)) = ((d * d : Nat) : Int) := by
      push_cast
      ring
    rw [size, squaredDiff_comm, squaredDiff_natCast]

section Nodes
variable {a b : Node} {p q : Int × Int}

theorem distance_at (left : a.At p) (right : b.At q) :
    distance a b =
      if squaredDistance p q ≤ INT_MAX then .ok ((squaredDistance p q).toNat.sqrt : Int) else .error .overflow := by
  have square : 0 ≤ (p.1 - q.1) * (p.1 - q.1) := mul_self_nonneg _
  have square' : 0 ≤ (p.2 - q.2) * (p.2 - q.2) := mul_self_nonneg _
  unfold distance
  rw [left, right, squaredDiff_intCast, squaredDiff_intCast]
  unfold squaredDistance
  by_cases fits : (p.1 - q.1) * (p.1 - q.1) + (p.2 - q.2) * (p.2 - q.2) ≤ INT_MAX
  · rw [if_pos fits, if_pos (by omega), if_pos (by omega)]
    have sum := checkInt_eq_ok.mpr ⟨⟨by unfold INT_MIN; omega, fits⟩, rfl⟩
    exact bind_eq_ok.mpr ⟨_, rfl, bind_eq_ok.mpr ⟨_, rfl, bind_eq_ok.mpr ⟨_, sum, if_neg (by omega)⟩⟩⟩
  · rw [if_neg fits]
    by_cases first : (p.1 - q.1) * (p.1 - q.1) ≤ INT_MAX
    · rw [if_pos first]
      by_cases second : (p.2 - q.2) * (p.2 - q.2) ≤ INT_MAX
      · rw [if_pos second]
        have tooLarge : checkInt ((p.1 - q.1) * (p.1 - q.1) + (p.2 - q.2) * (p.2 - q.2)) = .error .overflow :=
          if_neg fun both => fits both.2
        show (checkInt _ >>= sqrtInt) = _
        rw [tooLarge]
        rfl
      · rw [if_neg second]
        rfl
    · rw [if_neg first]
      rfl

theorem linkWeight_at (left : a.At p) (right : b.At q) (notBoth : ¬(a.type = .ground ∧ b.type = .ground)) :
    linkWeight a b =
      if squaredDistance p q ≤ INT_MAX then .ok (exactWeight a b p q) else .error .overflow := by
  by_cases fits : squaredDistance p q ≤ INT_MAX
  · have run : distance a b = .ok ((squaredDistance p q).toNat.sqrt : Int) := by
      rw [distance_at left right, if_pos fits]
    obtain ⟨lower, upper⟩ := distance_bounds run
    have raised : checkLongLong (((squaredDistance p q).toNat.sqrt : Int) + 1000) >>= penalised =
        .ok (penalty ((squaredDistance p q).toNat.sqrt + 1000)) := by
      refine bind_eq_ok.mpr ⟨_, checkLongLong_eq ?_ ?_, penalised_eq (by omega) (by omega)⟩
      · unfold LONG_LONG_MIN
        omega
      · unfold LONG_LONG_MAX
        omega
    rw [if_pos fits]
    refine bind_eq_ok.mpr ⟨_, run, ?_⟩
    unfold exactWeight
    rw [if_neg notBoth]
    by_cases ga : a.type = .ground
    · rw [if_pos ga, if_pos (Or.inl ga), raised]
    · rw [if_neg ga]
      by_cases gb : b.type = .ground
      · rw [if_pos gb, if_pos (Or.inr gb), raised]
      · rw [if_neg gb, if_neg (not_or.mpr ⟨ga, gb⟩), penalised_eq (by omega) (by omega)]
  · unfold linkWeight
    rw [distance_at left right, if_neg fits, if_neg fits]
    rfl

end Nodes

/-- The weight of a link between nodes at integer coordinates is computed without overflow, and exactly, if and only if
the square of their distance fits an `int`. -/
theorem linkWeight_exact_iff (a b : Node) (p q : Int × Int) (left : a.At p) (right : b.At q)
    (notBoth : ¬(a.type = .ground ∧ b.type = .ground)) :
    (∃ w, linkWeight a b = .ok w ∧ 0 ≤ w ∧ w ≠ LONG_LONG_MAX ∧ w = exactWeight a b p q) ↔
      squaredDistance p q ≤ INT_MAX := by
  rw [linkWeight_at left right notBoth]
  constructor
  · rintro ⟨w, run, _⟩
    by_contra large
    rw [if_neg large] at run
    cases run
  · intro fits
    have run : linkWeight a b = .ok (exactWeight a b p q) := by rw [linkWeight_at left right notBoth, if_pos fits]
    rcases linkWeight_cases run with ⟨ga, gb, _⟩ | ⟨_, nonneg, bound, _⟩
    · exact absurd ⟨ga, gb⟩ notBoth
    · exact ⟨_, if_pos fits, nonneg, by unfold LONG_LONG_MAX; omega, rfl⟩

namespace satellites

def satellite (x y : Int) : Node := ⟨.satellite, "1", "sat1", "127.0.0.1", 33001, (.finite x, .finite y)⟩

theorem linkWeight_exact_iff_near :
    (∃ w, linkWeight (satellite 0 0) (satellite 3 4) = .ok w ∧ 0 ≤ w ∧ w ≠ LONG_LONG_MAX ∧
      w = exactWeight (satellite 0 0) (satellite 3 4) (0, 0) (3, 4)) ↔ squaredDistance (0, 0) (3, 4) ≤ INT_MAX :=
  linkWeight_exact_iff _ _ (0, 0) (3, 4) rfl rfl (by decide)

/-- Two satellites 50000 apart: the square of the difference leaves `int`. -/
theorem linkWeight_far : linkWeight (satellite 0 0) (satellite 50000 0) = .error .overflow := by
  decide +kernel

end satellites
end Nexus
