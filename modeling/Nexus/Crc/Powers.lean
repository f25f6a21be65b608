import Mathlib.GroupTheory.OrderOfElement
import Nexus.Crc.Register

/-!
Powers of the variable modulo the divisor, computed in the register, and the order of the variable.
-/

namespace Crc
open Polynomial

/-- Hands a word on as a numeral, so that what is computed from it does not keep how it was computed. -/
def forced {w : Nat} {α : Type} (r : BitVec w) (next : BitVec w → α) : α :=
  match r.toNat with
  | 0 => next (BitVec.ofNat w 0)
  | n + 1 => next (BitVec.ofNat w (n + 1))

theorem forced_eq {w : Nat} {α : Type} (r : BitVec w) (next : BitVec w → α) : forced r next = next r := by
  have back : BitVec.ofNat w r.toNat = r := by simp
  unfold forced
  split
  · rename_i zero
    rw [← back, zero]
  · rename_i n successor
    rw [← back, successor]

section
variable {w : Nat} (generator : BitVec (w + 1))

/-- What a product becomes when the second factor goes on with the given bits. -/
def mulBits (r : BitVec (w + 1)) : List Bool → BitVec (w + 1) → BitVec (w + 1)
  | [], product => product
  | bit :: bits, product => forced (shift generator product ^^^ if bit then r else 0#(w + 1)) (mulBits r bits)

/-- The product of two remainders, one bit of the second factor after the other. -/
def mul (r s : BitVec (w + 1)) : BitVec (w + 1) := mulBits generator r (lsbFirst s) 0#(w + 1)

theorem residue_mulBits (r product : BitVec (w + 1)) (bits : List Bool) :
    residue generator (mulBits generator r bits product) =
      AdjoinRoot.root (divisor generator) ^ bits.length * residue generator product +
        residue generator r * AdjoinRoot.mk (divisor generator) (ofBits bits) := by
  induction bits generalizing product with
  | nil => simp [mulBits]
  | cons bit bits ih =>
    have added : residue generator (if bit then r else 0#(w + 1)) =
        residue generator r * AdjoinRoot.mk (divisor generator) (if bit then 1 else 0) := by
      cases bit <;> simp
    have power : (if bit then X ^ bits.length else 0 : (ZMod 2)[X]) = X ^ bits.length * if bit then 1 else 0 := by
      cases bit <;> simp
    rw [mulBits, forced_eq, ih, residue_xor, residue_shift, added, ofBits_cons, power, map_add, map_mul, map_pow,
      AdjoinRoot.mk_X, List.length_cons]
    ring

theorem residue_mul (r s : BitVec (w + 1)) :
    residue generator (mul generator r s) = residue generator r * residue generator s := by
  rw [mul, residue_mulBits, residue_zero, mul_zero, zero_add]
  rfl

/-- The register that holds the constant one. -/
def one : BitVec (w + 1) := BitVec.twoPow (w + 1) w

theorem residue_one : residue generator one = 1 := by
  have constant : poly (one : BitVec (w + 1)) = 1 := by
    rw [poly_eq_sum, Finset.sum_eq_single w]
    · simp [one]
    · intro k inside other
      simp [one, Ne.symm other]
    · intro outside
      exact absurd (Finset.mem_range.mpr (Nat.lt_succ_self w)) outside
  rw [residue, constant, map_one]

theorem nontrivial_quotient : Nontrivial (AdjoinRoot (divisor generator)) := by
  refine ⟨residue generator one, residue generator 0#(w + 1), fun same => ?_⟩
  have top := congrArg (BitVec.getLsbD · w) (residue_injective generator same)
  simp [one] at top

theorem isUnit_root_pow (finite : 0 < orderOf (AdjoinRoot.root (divisor generator))) (n : Nat) :
    IsUnit (AdjoinRoot.root (divisor generator) ^ n) :=
  (IsUnit.of_pow_eq_one (pow_orderOf_eq_one _) finite.ne').pow n

theorem root_pow_ne_zero (finite : 0 < orderOf (AdjoinRoot.root (divisor generator))) (n : Nat) :
    AdjoinRoot.root (divisor generator) ^ n ≠ 0 := by
  have := nontrivial_quotient generator
  exact (isUnit_root_pow generator finite n).ne_zero

/-- The power of the variable to an exponent of at most `k` bits, by repeated squaring. -/
def power : Nat → Nat → BitVec (w + 1)
  | 0, _ => one
  | k + 1, n =>
    forced (power k (n / 2)) fun root =>
      forced (mul generator root root) fun square => if n % 2 = 1 then shift generator square else square

theorem residue_power {k n : Nat} (bits : n < 2 ^ k) :
    residue generator (power generator k n) = AdjoinRoot.root (divisor generator) ^ n := by
  induction k generalizing n with
  | zero =>
    have zero : n = 0 := by simpa using bits
    rw [power, residue_one, zero, pow_zero]
  | succ k ih =>
    have half : n / 2 < 2 ^ k := by
      rw [Nat.pow_succ] at bits
      omega
    have square : residue generator (mul generator (power generator k (n / 2)) (power generator k (n / 2))) =
        AdjoinRoot.root (divisor generator) ^ (n / 2 * 2) := by
      rw [residue_mul, ih half, pow_mul, pow_two]
    rw [power, forced_eq, forced_eq]
    by_cases odd : n % 2 = 1
    · rw [if_pos odd, residue_shift, square, ← pow_succ']
      congr 1
      omega
    · rw [if_neg odd, square]
      congr 1
      omega

theorem root_pow_eq_one_iff {k n : Nat} (bits : n < 2 ^ k) :
    AdjoinRoot.root (divisor generator) ^ n = 1 ↔ power generator k n = one := by
  rw [← residue_power generator bits, ← residue_one generator]
  exact ⟨residue_injective generator, congrArg _⟩

/-- The order of the variable, from its powers at the order and at the order's quotients by primes. -/
theorem orderOf_root {k order : Nat} (positive : 0 < order) (bits : order < 2 ^ k)
    (whole : power generator k order = one)
    (parts : ∀ p : Nat, p.Prime → p ∣ order → power generator k (order / p) ≠ one) :
    orderOf (AdjoinRoot.root (divisor generator)) = order := by
  refine orderOf_eq_of_pow_and_pow_div_prime positive ((root_pow_eq_one_iff generator bits).mpr whole) ?_
  intro p prime divides trivial
  have smaller : order / p < 2 ^ k := lt_of_le_of_lt (Nat.div_le_self _ _) bits
  exact parts p prime divides ((root_pow_eq_one_iff generator smaller).mp trivial)

end

/-- Below its order, different powers of an element are different. -/
theorem pow_ne_pow {M : Type*} [Monoid M] {x : M} {m n : Nat} (below : m < n) (order : n < orderOf x) :
    x ^ m ≠ x ^ n := by
  intro same
  exact below.ne (pow_injOn_Iio_orderOf (lt_trans below order) order same)

end Crc
