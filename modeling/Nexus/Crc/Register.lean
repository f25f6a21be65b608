import Mathlib.RingTheory.AdjoinRoot
import Nexus.Crc.Polynomial

/-!
Division of bit strings by a monic polynomial in a shift register that keeps the highest power of the
remainder in its least significant bit.
-/

namespace Crc
open Polynomial

section
variable {w : Nat} (generator : BitVec w)

/-- The monic polynomial whose lower coefficients are the bits of the generator. -/
noncomputable def divisor : (ZMod 2)[X] := X ^ w + poly generator

theorem monic_divisor : (divisor generator).Monic := monic_X_pow_add (degree_poly_lt generator)

theorem degree_divisor : (divisor generator).degree = w := by
  have lower : (poly generator).degree < (X ^ w : (ZMod 2)[X]).degree := by
    rw [degree_X_pow]
    exact degree_poly_lt generator
  rw [divisor, degree_add_eq_left_of_degree_lt lower, degree_X_pow]

theorem poly_modByMonic (r : BitVec w) : poly r %ₘ divisor generator = poly r := by
  rw [modByMonic_eq_self_iff (monic_divisor generator), degree_divisor]
  exact degree_poly_lt r

/-- The remainder in a register as an element of the quotient by the divisor. -/
noncomputable def residue (r : BitVec w) : AdjoinRoot (divisor generator) :=
  AdjoinRoot.mk (divisor generator) (poly r)

theorem add_self (a : AdjoinRoot (divisor generator)) : a + a = 0 := by
  refine AdjoinRoot.induction_on (divisor generator) a fun p => ?_
  rw [← map_add, CharTwo.add_self_eq_zero, map_zero]

/-- A register holds a remainder as soon as it stands for the same element of the quotient. -/
theorem poly_eq_modByMonic {r : BitVec w} {p : (ZMod 2)[X]}
    (agree : residue generator r = AdjoinRoot.mk (divisor generator) p) : poly r = p %ₘ divisor generator := by
  rw [← poly_modByMonic generator r]
  exact modByMonic_eq_of_dvd_sub (monic_divisor generator) (AdjoinRoot.mk_eq_mk.mp agree)

theorem residue_injective {r s : BitVec w} (same : residue generator r = residue generator s) : r = s := by
  have reduced := poly_eq_modByMonic generator same
  rw [poly_modByMonic] at reduced
  exact poly_injective reduced

@[simp] theorem residue_zero : residue generator 0#w = 0 := by
  rw [residue, poly_zero, map_zero]

theorem residue_eq_zero {r : BitVec w} : residue generator r = 0 ↔ r = 0#w :=
  ⟨fun zero => residue_injective generator (zero.trans (residue_zero generator).symm),
    fun zero => by rw [zero, residue_zero]⟩

theorem residue_xor (r s : BitVec w) : residue generator (r ^^^ s) = residue generator r + residue generator s := by
  rw [residue, poly_xor, map_add]
  rfl

/-- One step of the register: the bit that leaves it is the coefficient to cancel. -/
def shift (r : BitVec w) : BitVec w :=
  if r.getLsbD 0 then (r >>> 1) ^^^ generator else r >>> 1

end

section
variable {w : Nat} (generator : BitVec (w + 1))

theorem X_mul_poly (r : BitVec (w + 1)) :
    X * poly r = (if r.getLsbD 0 then X ^ (w + 1) else 0) + poly (r >>> 1) := by
  rw [poly_eq_sum, poly_eq_sum, Finset.sum_range_succ', Finset.sum_range_succ, mul_add, Finset.mul_sum, add_comm]
  have top : (r >>> 1).getLsbD w = false := by
    rw [BitVec.getLsbD_ushiftRight]
    exact BitVec.getLsbD_of_ge _ _ (by omega)
  rw [top, if_neg Bool.false_ne_true, add_zero]
  congr 1
  · rw [mul_ite, mul_zero, ← pow_succ']
    rfl
  · refine Finset.sum_congr rfl fun k inside => ?_
    have below := Finset.mem_range.mp inside
    have power : w + 1 - 1 - k = w + 1 - 1 - (k + 1) + 1 := by omega
    rw [BitVec.getLsbD_ushiftRight, add_comm 1 k, mul_ite, mul_zero, power, ← pow_succ']

/-- A step multiplies the remainder by the variable and takes away the divisor where it fits. -/
theorem X_mul_poly_eq (r : BitVec (w + 1)) :
    X * poly r = poly (shift generator r) + if r.getLsbD 0 then divisor generator else 0 := by
  rw [X_mul_poly, shift]
  cases r.getLsbD 0
  · simp
  · have cancelled : poly generator + poly generator = 0 := CharTwo.add_self_eq_zero _
    simp only [if_true, poly_xor, divisor]
    rw [add_assoc, add_left_comm (poly generator), cancelled, add_zero, add_comm]

theorem residue_shift (r : BitVec (w + 1)) :
    residue generator (shift generator r) = AdjoinRoot.root (divisor generator) * residue generator r := by
  rw [residue, residue, ← AdjoinRoot.mk_X, ← map_mul, X_mul_poly_eq generator r, map_add]
  cases r.getLsbD 0
  · rw [if_neg Bool.false_ne_true, map_zero, add_zero]
  · rw [if_pos rfl, AdjoinRoot.mk_self, add_zero]

theorem residue_iterate_shift (r : BitVec (w + 1)) (k : Nat) :
    residue generator ((shift generator)^[k] r) = AdjoinRoot.root (divisor generator) ^ k * residue generator r := by
  induction k with
  | zero => rw [Function.iterate_zero_apply, pow_zero, one_mul]
  | succ k ih => rw [Function.iterate_succ_apply', residue_shift, ih, ← mul_assoc, ← pow_succ']

theorem iterate_shift_xor (r s : BitVec (w + 1)) (k : Nat) :
    (shift generator)^[k] (r ^^^ s) = (shift generator)^[k] r ^^^ (shift generator)^[k] s := by
  apply residue_injective generator
  rw [residue_xor, residue_iterate_shift, residue_iterate_shift, residue_iterate_shift, residue_xor, mul_add]

end

section
variable {v k : Nat} (generator : BitVec (v + k + 1))

/-- A word of the message is added to the low bits and shifted through. -/
def feed (r : BitVec (v + k + 1)) (word : BitVec v) : BitVec (v + k + 1) :=
  (shift generator)^[v] (r ^^^ word.setWidth (v + k + 1))

theorem residue_feed (r : BitVec (v + k + 1)) (word : BitVec v) :
    residue generator (feed generator r word) =
      AdjoinRoot.root (divisor generator) ^ v * residue generator r +
        AdjoinRoot.root (divisor generator) ^ (v + k + 1) * AdjoinRoot.mk (divisor generator) (poly word) := by
  have widened : residue generator (word.setWidth (v + k + 1)) =
      AdjoinRoot.root (divisor generator) ^ (k + 1) * AdjoinRoot.mk (divisor generator) (poly word) := by
    rw [residue, ← AdjoinRoot.mk_X, ← map_pow, ← map_mul]
    exact congrArg _ (poly_setWidth (k := k + 1) word)
  rw [feed, residue_iterate_shift, residue_xor, widened]
  ring

/-- The bits of a message, word by word. -/
def message (words : List (BitVec v)) : List Bool := words.flatMap lsbFirst

@[simp] theorem message_nil : message ([] : List (BitVec v)) = [] := rfl

@[simp] theorem message_cons (word : BitVec v) (words : List (BitVec v)) :
    message (word :: words) = lsbFirst word ++ message words := List.flatMap_cons

@[simp] theorem length_message (words : List (BitVec v)) : (message words).length = v * words.length := by
  induction words with
  | nil => rfl
  | cons word words ih =>
    rw [message_cons, List.length_append, length_lsbFirst, ih, List.length_cons, Nat.mul_succ, add_comm]

/-- Feeding a whole message divides it, behind what the register held before. -/
theorem residue_foldl_feed (r : BitVec (v + k + 1)) (words : List (BitVec v)) :
    residue generator (words.foldl (feed generator) r) =
      AdjoinRoot.root (divisor generator) ^ (v * words.length) * residue generator r +
        AdjoinRoot.root (divisor generator) ^ (v + k + 1) *
          AdjoinRoot.mk (divisor generator) (ofBits (message words)) := by
  induction words generalizing r with
  | nil => simp
  | cons word words ih =>
    rw [List.foldl_cons, ih, residue_feed, message_cons, ofBits_append, length_message, map_add, map_mul,
      map_pow, AdjoinRoot.mk_X, List.length_cons, poly, Nat.mul_succ]
    ring

end

end Crc
