import Mathlib.Data.Int.Log
import Mathlib.Data.Rat.Floor
import Mathlib.Tactic.Linarith
import Mathlib.Tactic.FieldSimp
import Mathlib.Tactic.NormNum

/-- A value of the binary interchange format with 53 significant bits; zero has one sign. -/
inductive Binary64
  | finite (q : ℚ)
  | infinity (negative : Bool)
  | nan
  deriving DecidableEq

namespace Binary64

/-- The nearest integer, the even one of two. -/
def roundEven (q : ℚ) : ℤ :=
  if q - ⌊q⌋ < 1 / 2 then ⌊q⌋ else if 1 / 2 < q - ⌊q⌋ then ⌊q⌋ + 1 else ⌊q⌋ + ⌊q⌋ % 2

/-- The distance of neighbouring values around `q`. -/
def ulp (q : ℚ) : ℚ := 2 ^ (max (-1022) (Int.log 2 |q|) - 52)

/-- The nearest value with an unbounded exponent upwards. -/
def nearest (q : ℚ) : ℚ := roundEven (q / ulp q) * ulp q

/-- The result of an operation whose exact value is `q`. -/
def ofRat (q : ℚ) : Binary64 :=
  if |nearest q| < 2 ^ 1024 then finite (nearest q) else infinity (decide (q < 0))

def sub : Binary64 → Binary64 → Binary64
  | finite a, finite b => ofRat (a - b)
  | infinity s, infinity t => if s = t then nan else infinity s
  | infinity s, finite _ => infinity s
  | finite _, infinity t => infinity (!t)
  | nan, _ => nan
  | _, nan => nan

def add : Binary64 → Binary64 → Binary64
  | finite a, finite b => ofRat (a + b)
  | infinity s, infinity t => if s = t then infinity s else nan
  | infinity s, finite _ => infinity s
  | finite _, infinity t => infinity t
  | nan, _ => nan
  | _, nan => nan

def mul : Binary64 → Binary64 → Binary64
  | finite a, finite b => ofRat (a * b)
  | infinity s, infinity t => infinity (s != t)
  | infinity s, finite b => if b = 0 then nan else infinity (s != decide (b < 0))
  | finite a, infinity t => if a = 0 then nan else infinity (t != decide (a < 0))
  | nan, _ => nan
  | _, nan => nan

def div : Binary64 → Binary64 → Binary64
  | finite a, finite b => if b ≠ 0 then ofRat (a / b) else if a = 0 then nan else infinity (decide (a < 0))
  | infinity _, infinity _ => nan
  | infinity s, finite b => infinity (s != decide (b < 0))
  | finite _, infinity _ => finite 0
  | nan, _ => nan
  | _, nan => nan

def neg : Binary64 → Binary64
  | finite a => finite (-a)
  | infinity s => infinity (!s)
  | nan => nan

/-- Dropping the fraction; only finite values have an integer part. -/
def truncate : Binary64 → Option ℤ
  | finite q => some (if 0 ≤ q then ⌊q⌋ else ⌈q⌉)
  | infinity _ => none
  | nan => none

theorem truncate_natCast (k : ℕ) : (finite k).truncate = some (k : ℤ) := by
  rw [truncate, if_pos (Nat.cast_nonneg k), Int.floor_natCast]

/-- The smallest integer that is not less. -/
def ceil : Binary64 → Binary64
  | finite q => finite ⌈q⌉
  | infinity s => infinity s
  | nan => nan

/-- The nearest integer, of two the one further from zero. -/
def round : Binary64 → Binary64
  | finite q => finite (if 0 ≤ q then ⌊q + 1 / 2⌋ else ⌈q - 1 / 2⌉ : ℤ)
  | infinity s => infinity s
  | nan => nan

theorem ulp_pos (q : ℚ) : 0 < ulp q :=
  zpow_pos (by norm_num) _

theorem ulp_neg (q : ℚ) : ulp (-q) = ulp q := by
  unfold ulp
  rw [abs_neg]

theorem roundEven_near (q : ℚ) : |(roundEven q : ℚ) - q| ≤ 1 / 2 := by
  have lower := Int.floor_le q
  have upper := Int.lt_floor_add_one q
  have parity : ((⌊q⌋ % 2 : ℤ) : ℚ) = 0 ∨ ((⌊q⌋ % 2 : ℤ) : ℚ) = 1 := by
    rcases Int.emod_two_eq_zero_or_one ⌊q⌋ with even | odd
    · exact Or.inl (by rw [even]; norm_num)
    · exact Or.inr (by rw [odd]; norm_num)
  unfold roundEven
  rw [abs_le]
  split
  · constructor <;> linarith
  · split
    · push_cast
      constructor <;> linarith
    · push_cast
      rcases parity with zero | one
      · rw [zero]
        constructor <;> linarith
      · rw [one]
        constructor <;> linarith

theorem roundEven_intCast (n : ℤ) : roundEven n = n := by
  simp [roundEven]

theorem roundEven_neg (q : ℚ) : roundEven (-q) = -roundEven q := by
  by_cases whole : (⌊q⌋ : ℚ) = q
  · rw [← whole, roundEven_intCast, ← Int.cast_neg, roundEven_intCast]
  · have above : (⌊q⌋ : ℚ) < q := lt_of_le_of_ne (Int.floor_le q) whole
    have upper := Int.lt_floor_add_one q
    have floor : ⌊-q⌋ = -⌊q⌋ - 1 := by
      rw [Int.floor_eq_iff]
      push_cast
      constructor <;> linarith
    unfold roundEven
    rw [floor]
    push_cast
    by_cases small : q - ⌊q⌋ < 1 / 2
    · rw [if_pos small, if_neg (by linarith), if_pos (by linarith)]
      ring
    · by_cases large : 1 / 2 < q - ⌊q⌋
      · rw [if_neg small, if_pos large, if_pos (by linarith)]
        ring
      · rw [if_neg small, if_neg large, if_neg (by linarith), if_neg (by linarith)]
        omega

theorem roundEven_nonneg {q : ℚ} (nonneg : 0 ≤ q) : 0 ≤ roundEven q := by
  have floor : 0 ≤ ⌊q⌋ := Int.floor_nonneg.mpr nonneg
  unfold roundEven
  split
  · exact floor
  · split <;> omega

theorem nearest_neg (q : ℚ) : nearest (-q) = -nearest q := by
  unfold nearest
  rw [ulp_neg, neg_div, roundEven_neg]
  push_cast
  ring

theorem nearest_nonneg {q : ℚ} (nonneg : 0 ≤ q) : 0 ≤ nearest q := by
  have scaled : 0 ≤ q / ulp q := div_nonneg nonneg (ulp_pos q).le
  exact mul_nonneg (by exact_mod_cast roundEven_nonneg scaled) (ulp_pos q).le

theorem nearest_error (q : ℚ) : |nearest q - q| ≤ ulp q / 2 := by
  have positive := ulp_pos q
  have scaled := roundEven_near (q / ulp q)
  have factor : nearest q - q = (roundEven (q / ulp q) - q / ulp q) * ulp q := by
    unfold nearest
    field_simp
  rw [factor, abs_mul, abs_of_pos positive]
  nlinarith

/-- Integers of at most 53 bits are values of the format. -/
theorem nearest_natCast {n : ℕ} (small : n < 2 ^ 53) : nearest n = n := by
  rcases Nat.eq_zero_or_pos n with rfl | positive
  · simp [nearest, roundEven]
  have log : Int.log 2 |(n : ℚ)| ≤ 52 := by
    rw [abs_of_nonneg (by positivity), Int.log_natCast]
    have bits := Nat.log_lt_of_lt_pow positive.ne' small
    omega
  obtain ⟨k, exponent⟩ : ∃ k : ℕ, max (-1022) (Int.log 2 |(n : ℚ)|) - 52 = -(k : ℤ) :=
    ⟨(52 - max (-1022) (Int.log 2 |(n : ℚ)|)).toNat, by omega⟩
  have scaled : (n : ℚ) / ulp n = ((n * 2 ^ k : ℕ) : ℤ) := by
    unfold ulp
    rw [exponent, zpow_neg, div_inv_eq_mul, zpow_natCast]
    push_cast
    rfl
  unfold nearest
  rw [scaled, roundEven_intCast, ← scaled, div_mul_cancel₀ _ (ulp_pos _).ne']

theorem ofRat_neg (q : ℚ) (nonzero : q ≠ 0) : ofRat (-q) = (ofRat q).neg := by
  unfold ofRat
  rw [nearest_neg, abs_neg]
  split
  · rfl
  · simp only [neg, neg_lt_zero, infinity.injEq]
    rcases lt_or_gt_of_ne nonzero with below | above
    · simp [below, below.le]
    · simp [above, above.le]

theorem ofRat_zero : ofRat 0 = finite 0 := by
  have exact0 := nearest_natCast (n := 0) (by norm_num)
  simp only [Nat.cast_zero] at exact0
  simp [ofRat, exact0]

theorem sub_comm_neg (a b : Binary64) : a.sub b = (b.sub a).neg := by
  cases a with
  | finite p =>
    cases b with
    | finite q =>
      by_cases same : p = q
      · simp [sub, same, ofRat_zero, neg]
      · have swapped := ofRat_neg (q - p) (sub_ne_zero.mpr (Ne.symm same))
        rwa [neg_sub] at swapped
    | infinity t => cases t <;> rfl
    | nan => rfl
  | infinity s =>
    cases b with
    | finite q => cases s <;> rfl
    | infinity t => cases s <;> cases t <;> rfl
    | nan => rfl
  | nan => cases b <;> rfl

theorem neg_mul_neg (a : Binary64) : a.neg.mul a.neg = a.mul a := by
  cases a <;> simp [neg, mul]

/-- The square of a difference does not depend on its sign. -/
theorem square_sub_comm (a b : Binary64) : (a.sub b).mul (a.sub b) = (b.sub a).mul (b.sub a) := by
  rw [sub_comm_neg a b, neg_mul_neg]

section Quotients

theorem ulp_le {q : ℚ} (normal : 2 ^ (-1022 : ℤ) ≤ q) : ulp q ≤ q * 2 ^ (-52 : ℤ) := by
  have positive : 0 < q := lt_of_lt_of_le (zpow_pos (by norm_num) _) normal
  have exponent : (-1022 : ℤ) ≤ Int.log 2 q := by
    rw [← Int.zpow_le_iff_le_log (by norm_num) positive]
    exact_mod_cast normal
  have below := Int.zpow_log_le_self (b := 2) (by norm_num) positive
  have split : ulp q = 2 ^ Int.log 2 q * 2 ^ (-52 : ℤ) := by
    rw [ulp, abs_of_pos positive, max_eq_right exponent, sub_eq_add_neg, zpow_add₀ (by norm_num)]
  rw [split]
  exact mul_le_mul_of_nonneg_right (by exact_mod_cast below) (zpow_pos (by norm_num) _).le

/-- Rounding moves a number that is not tiny by at most one part in 2^53. -/
theorem nearest_error_le {q : ℚ} (large : 1 / 128 ≤ |q|) : |nearest q - q| ≤ |q| / 2 ^ 53 := by
  have tiny : (2 : ℚ) ^ (-1022 : ℤ) ≤ 2 ^ (-7 : ℤ) := zpow_le_zpow_right₀ (by norm_num) (by norm_num)
  have normal : (2 : ℚ) ^ (-1022 : ℤ) ≤ |q| := tiny.trans (le_trans (by norm_num) large)
  have same : ulp |q| = ulp q := by rw [ulp, ulp, abs_abs]
  have spacing := ulp_le normal
  have exponent : (2 : ℚ) ^ (-52 : ℤ) = 1 / 2 ^ 52 := by norm_num
  rw [same, exponent] at spacing
  have error := nearest_error q
  linarith

theorem ofRat_of_lt {q : ℚ} (small : |nearest q| < 2 ^ 54) : ofRat q = finite (nearest q) :=
  if_pos (lt_trans small (pow_lt_pow_right₀ (by norm_num) (by norm_num)))

/-- Below a power of two, rounding moves a number by at most one part in 2^53 of that power. -/
theorem nearest_error_within {q : ℚ} {n : ℕ} (small : |q| ≤ 2 ^ n) : |nearest q - q| ≤ 2 ^ n / 2 ^ 53 := by
  have log : Int.log 2 |q| ≤ n := by
    rcases eq_or_ne q 0 with rfl | nonzero
    · simp
    · have below := Int.log_mono_right (b := 2) (abs_pos.mpr nonzero) small
      have power : Int.log 2 ((2 : ℚ) ^ n) = n := by
        rw [← zpow_natCast]
        exact Int.log_zpow (R := ℚ) (b := 2) (by norm_num) n
      omega
  have spacing : ulp q ≤ 2 ^ n / 2 ^ 52 := by
    have exponent : max (-1022) (Int.log 2 |q|) - 52 ≤ (n : ℤ) - 52 := by omega
    have split : (2 : ℚ) ^ ((n : ℤ) - 52) = 2 ^ n / 2 ^ 52 := by
      rw [zpow_sub₀ (by norm_num), zpow_natCast]
      norm_num
    exact split ▸ zpow_le_zpow_right₀ (by norm_num) exponent
  have error := nearest_error q
  linarith

theorem ofRat_natCast {n : ℕ} (small : n < 2 ^ 53) : ofRat n = finite n := by
  have size : (n : ℚ) < 2 ^ 53 := by exact_mod_cast small
  have value := nearest_natCast small
  rw [ofRat_of_lt (by rw [value, abs_of_nonneg (Nat.cast_nonneg n)]; linarith), value]

theorem ofRat_large {q : ℚ} (large : 2 ^ 53 ≤ q) :
    (∃ s, ofRat q = infinity s) ∨ ∃ r, ofRat q = finite r ∧ 2 ^ 52 ≤ r := by
  have normal : (2 : ℚ) ^ (-1022 : ℤ) ≤ q := by
    have tiny : (2 : ℚ) ^ (-1022 : ℤ) ≤ 2 ^ (0 : ℤ) := zpow_le_zpow_right₀ (by norm_num) (by norm_num)
    rw [zpow_zero] at tiny
    linarith
  have near := abs_le.mp (nearest_error q)
  have spacing : ulp q ≤ q * (1 / 2 ^ 52) := by
    have exponent : (2 : ℚ) ^ (-52 : ℤ) = 1 / 2 ^ 52 := by norm_num
    exact exponent ▸ ulp_le normal
  have half : 2 ^ 52 ≤ nearest q := by linarith
  unfold ofRat
  split
  · exact Or.inr ⟨_, rfl, half⟩
  · exact Or.inl ⟨_, rfl⟩

theorem truncate_ceil_gt {q : ℚ} {n v : ℤ} (above : n < nearest q) (nonneg : 0 ≤ n)
    (whole : (ofRat q).ceil.truncate = some v) : n < v := by
  unfold ofRat at whole
  split at whole
  · have upward : n < ⌈nearest q⌉ := Int.lt_ceil.mpr above
    rw [ceil, truncate, if_pos (by exact_mod_cast (nonneg.trans_lt upward).le), Int.floor_intCast] at whole
    cases whole
    exact upward
  · cases whole

/-- The integer part of a square: exact below 53 bits, and otherwise large or missing. -/
theorem truncate_square (d : ℕ) :
    (d * d < 2 ^ 53 ∧ ((ofRat d).mul (ofRat d)).truncate = some ((d * d : ℕ) : ℤ)) ∨
      (2 ^ 53 ≤ d * d ∧ ∀ v, ((ofRat d).mul (ofRat d)).truncate = some v → 2 ^ 52 ≤ v) := by
  have large : ∀ q : ℚ, 2 ^ 53 ≤ q → ∀ v, (ofRat q).truncate = some v → 2 ^ 52 ≤ v := by
    intro q bits v whole
    rcases ofRat_large bits with ⟨s, far⟩ | ⟨r, value, bound⟩
    · rw [far] at whole
      cases whole
    · rw [value, truncate, if_pos (by linarith)] at whole
      cases whole
      exact Int.le_floor.mpr (by exact_mod_cast bound)
  rcases Nat.lt_or_ge d (2 ^ 53) with short | long
  · rw [ofRat_natCast short, mul, ← Nat.cast_mul]
    rcases Nat.lt_or_ge (d * d) (2 ^ 53) with small | bits
    · rw [ofRat_natCast small]
      exact Or.inl ⟨small, truncate_natCast _⟩
    · exact Or.inr ⟨bits, large _ (by exact_mod_cast bits)⟩
  · have bits : 2 ^ 53 ≤ d * d := by nlinarith
    refine Or.inr ⟨bits, fun v whole => ?_⟩
    rcases ofRat_large (q := d) (by exact_mod_cast long) with ⟨s, far⟩ | ⟨r, value, bound⟩
    · rw [far, mul] at whole
      cases whole
    · rw [value, mul] at whole
      exact large _ (by nlinarith) v whole

variable {n m : ℕ} (small : n < 2 ^ 53) (positive : 0 < m) (divisor : m < 2 ^ 53)
include small positive divisor

/-- Rounding the quotient of two integers moves it by less than one part of the divisor. -/
theorem nearest_quotient : |nearest (n / m : ℚ) - n / m| < 1 / m := by
  have bottom : (0 : ℚ) < m := by exact_mod_cast positive
  rcases Nat.eq_zero_or_pos n with rfl | above
  · have zero : nearest 0 = 0 := by exact_mod_cast nearest_natCast (n := 0) (by norm_num)
    simpa [zero] using positive
  have top : (1 : ℚ) ≤ n := by exact_mod_cast above
  have size : (n : ℚ) < 2 ^ 53 := by exact_mod_cast small
  have limit : (m : ℚ) < 2 ^ 53 := by exact_mod_cast divisor
  have normal : (2 : ℚ) ^ (-1022 : ℤ) ≤ n / m := by
    have tiny : (2 : ℚ) ^ (-1022 : ℤ) ≤ 2 ^ (-53 : ℤ) := zpow_le_zpow_right₀ (by norm_num) (by norm_num)
    have inverse : (2 : ℚ) ^ (-53 : ℤ) = 1 / 2 ^ 53 := by norm_num
    have larger : (1 : ℚ) / 2 ^ 53 ≤ 1 / m := one_div_le_one_div_of_le bottom limit.le
    have more : (1 : ℚ) / m ≤ n / m := div_le_div_of_nonneg_right top bottom.le
    exact tiny.trans (inverse.le.trans (larger.trans more))
  have half : (n : ℚ) / m * 2 ^ (-52 : ℤ) / 2 = n / 2 ^ 53 * (1 / m) := by
    field_simp
  have part : (n : ℚ) / 2 ^ 53 < 1 := (div_lt_one (by positivity)).mpr size
  calc |nearest (n / m : ℚ) - n / m| ≤ ulp (n / m) / 2 := nearest_error _
    _ ≤ n / m * 2 ^ (-52 : ℤ) / 2 := div_le_div_of_nonneg_right (ulp_le normal) (by norm_num)
    _ = n / 2 ^ 53 * (1 / m) := half
    _ < 1 * (1 / m) := mul_lt_mul_of_pos_right part (one_div_pos.mpr bottom)
    _ = 1 / m := one_mul _

theorem ceil_nearest_quotient : ⌈nearest (n / m : ℚ)⌉ = ((n + m - 1) / m : ℕ) := by
  have bottom : (0 : ℚ) < m := by exact_mod_cast positive
  have near := abs_lt.mp (nearest_quotient small positive divisor)
  obtain ⟨c, count⟩ : ∃ c, c = (n + m - 1) / m := ⟨_, rfl⟩
  have divided := Nat.div_add_mod (n + m - 1) m
  have remainder := Nat.mod_lt (n + m - 1) positive
  rw [← count] at divided ⊢
  rw [Int.ceil_eq_iff, Int.cast_natCast]
  have lower : (c : ℚ) - 1 < nearest (n / m) := by
    have less : (m : ℚ) * c + 1 ≤ n + m := by exact_mod_cast (by omega : m * c + 1 ≤ n + m)
    have scaled : (c : ℚ) - 1 + 1 / m ≤ n / m := by
      rw [le_div_iff₀ bottom]
      field_simp
      linarith
    linarith
  have upper : nearest (n / m) ≤ (c : ℚ) := by
    rcases Nat.lt_or_ge n (m * c) with fraction | whole
    · have less : (n : ℚ) + 1 ≤ m * c := by exact_mod_cast fraction
      have scaled : (n : ℚ) / m + 1 / m ≤ c := by
        rw [← add_div, div_le_iff₀ bottom]
        linarith
      linarith
    · have exactly : n = m * c := by omega
      have quotient : (n : ℚ) / m = c := by
        rw [div_eq_iff bottom.ne', exactly]
        push_cast
        ring
      have bits : c < 2 ^ 53 := lt_of_le_of_lt (Nat.le_mul_of_pos_left c positive) (exactly ▸ small)
      rw [quotient, nearest_natCast bits]
  exact ⟨lower, upper⟩

/-- Dividing two integers of the format and rounding up counts exactly. -/
theorem ceil_div_natCast : ((ofRat n).div (ofRat m)).ceil = finite ((n + m - 1) / m : ℕ) := by
  have bottom : (0 : ℚ) < m := by exact_mod_cast positive
  have inside : |nearest (n / m : ℚ)| < 2 ^ 54 := by
    have near := abs_lt.mp (nearest_quotient small positive divisor)
    have part : (1 : ℚ) / m ≤ 1 := (div_le_one bottom).mpr (by exact_mod_cast positive)
    have whole : (n : ℚ) / m ≤ n := div_le_self (by positivity) (by exact_mod_cast positive)
    have size : (n : ℚ) < 2 ^ 53 := by exact_mod_cast small
    have nonneg : 0 ≤ nearest (n / m : ℚ) := nearest_nonneg (by positivity)
    rw [abs_of_nonneg nonneg]
    linarith
  have quotient : (ofRat n).div (ofRat m) = finite (nearest (n / m)) := by
    rw [ofRat_natCast small, ofRat_natCast divisor, div, if_pos bottom.ne', ofRat_of_lt inside]
  rw [quotient, ceil, ceil_nearest_quotient small positive divisor, Int.cast_natCast]

end Quotients

end Binary64
