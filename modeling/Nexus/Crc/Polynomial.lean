import Mathlib.Algebra.Polynomial.Div
import Mathlib.Algebra.CharP.Two
import Mathlib.Algebra.Field.ZMod
import Mathlib.Data.List.OfFn

/-!
Bit strings as polynomials over the field of two elements, and the reflected shift register that
divides them.
-/

namespace Crc
open Polynomial

/-- The polynomial of a bit string, highest power first. -/
noncomputable def ofBits : List Bool → (ZMod 2)[X]
  | [] => 0
  | b :: bs => (if b then X ^ bs.length else 0) + ofBits bs

@[simp] theorem ofBits_nil : ofBits [] = 0 := rfl

theorem ofBits_cons (b : Bool) (bs : List Bool) :
    ofBits (b :: bs) = (if b then X ^ bs.length else 0) + ofBits bs := rfl

theorem ofBits_append (as bs : List Bool) : ofBits (as ++ bs) = X ^ bs.length * ofBits as + ofBits bs := by
  induction as with
  | nil => rw [List.nil_append, ofBits_nil, mul_zero, zero_add]
  | cons a as ih =>
    rw [List.cons_append, ofBits_cons, ofBits_cons, ih, List.length_append]
    cases a
    · simp
    · simp only [if_true]
      ring

@[simp] theorem ofBits_replicate_false (n : Nat) : ofBits (List.replicate n false) = 0 := by
  induction n with
  | zero => rfl
  | succ n ih => rw [List.replicate_succ, ofBits_cons, ih, if_neg Bool.false_ne_true, add_zero]

theorem degree_ofBits_lt (bs : List Bool) : (ofBits bs).degree < bs.length := by
  induction bs with
  | nil => simp
  | cons b bs ih =>
    rw [ofBits_cons, List.length_cons]
    have longer : (bs.length : WithBot ℕ) < (bs.length + 1 : ℕ) := by
      exact_mod_cast Nat.lt_succ_self _
    refine lt_of_le_of_lt (degree_add_le _ _) (max_lt ?_ (lt_trans ih longer))
    cases b
    · simp
    · simpa using longer

/-- Bit strings of one length with the same polynomial are the same. -/
theorem ofBits_injective {as bs : List Bool} (length : as.length = bs.length) (same : ofBits as = ofBits bs) :
    as = bs := by
  induction as generalizing bs with
  | nil => exact (List.length_eq_zero_iff.mp length.symm).symm
  | cons a as ih =>
    obtain ⟨b, bs, rfl⟩ := List.exists_cons_of_length_eq_add_one length.symm
    have lengths : as.length = bs.length := Nat.succ.inj length
    have leading : ∀ (c : Bool) (cs : List Bool), cs.length = bs.length →
        (ofBits (c :: cs)).coeff bs.length = if c then 1 else 0 := by
      intro c cs size
      have rest : (ofBits cs).coeff bs.length = 0 :=
        coeff_eq_zero_of_degree_lt (size ▸ degree_ofBits_lt cs)
      rw [ofBits_cons, coeff_add, rest, add_zero, size]
      cases c <;> simp
    have bit : a = b := by
      have coefficients := leading a as lengths
      rw [same, leading b bs rfl] at coefficients
      cases a <;> cases b <;> simp_all
    rw [ofBits_cons, ofBits_cons, bit, lengths] at same
    rw [bit, ih lengths (add_left_cancel same)]

/-- The polynomial of a string of which only the positions matter. -/
theorem ofBits_map_range (f : Nat → Bool) (n : Nat) :
    ofBits ((List.range n).map f) = ∑ k ∈ Finset.range n, if f k then X ^ (n - 1 - k) else 0 := by
  induction n with
  | zero => rfl
  | succ n ih =>
    rw [List.range_succ, List.map_append, ofBits_append, ih, Finset.sum_range_succ, Finset.mul_sum]
    congr 1
    · refine Finset.sum_congr rfl fun k inside => ?_
      have before := Finset.mem_range.mp inside
      have power : n + 1 - 1 - k = n - 1 - k + 1 := by omega
      rw [power, pow_succ']
      cases f k <;> simp
    · simp [ofBits_cons]

variable {w : Nat}

/-- The word with the given bits. -/
def word (bit : Nat → Bool) : BitVec w := (BitVec.ofBoolListLE ((List.range w).map bit)).setWidth w

theorem getLsbD_word (bit : Nat → Bool) {i : Nat} (inside : i < w) : (word bit : BitVec w).getLsbD i = bit i := by
  rw [word, BitVec.getLsbD_setWidth, BitVec.getLsbD_ofBoolListLE, List.getD_eq_getElem?_getD]
  simp [inside]

/-- The bits of a word, the least significant one first. -/
def lsbFirst (r : BitVec w) : List Bool := List.ofFn fun i : Fin w => r.getLsbD i

@[simp] theorem length_lsbFirst (r : BitVec w) : (lsbFirst r).length = w := List.length_ofFn

theorem lsbFirst_eq_map (r : BitVec w) : lsbFirst r = (List.range w).map r.getLsbD := by
  refine List.ext_getElem (by simp) fun i inside _ => ?_
  simp only [lsbFirst, List.getElem_ofFn, List.getElem_map, List.getElem_range]

/-- The polynomial of a register that holds the highest power in its least significant bit. -/
noncomputable def poly (r : BitVec w) : (ZMod 2)[X] := ofBits (lsbFirst r)

theorem poly_eq_sum (r : BitVec w) :
    poly r = ∑ k ∈ Finset.range w, if r.getLsbD k then X ^ (w - 1 - k) else 0 := by
  rw [poly, lsbFirst_eq_map, ofBits_map_range]

theorem coeff_poly (r : BitVec w) {k : Nat} (inside : k < w) :
    (poly r).coeff (w - 1 - k) = if r.getLsbD k then 1 else 0 := by
  rw [poly_eq_sum, finsetSum_coeff, Finset.sum_eq_single k]
  · cases r.getLsbD k <;> simp
  · intro j below other
    have power : w - 1 - k ≠ w - 1 - j := by
      have := Finset.mem_range.mp below
      omega
    cases r.getLsbD j <;> simp [coeff_X_pow, power]
  · intro outside
    exact absurd (Finset.mem_range.mpr inside) outside

theorem degree_poly_lt (r : BitVec w) : (poly r).degree < w := by
  have bound := degree_ofBits_lt (lsbFirst r)
  rwa [length_lsbFirst] at bound

theorem poly_injective {r s : BitVec w} (same : poly r = poly s) : r = s := by
  have bits := ofBits_injective (by simp) same
  refine BitVec.eq_of_getLsbD_eq fun i inside => ?_
  exact congrFun (List.ofFn_injective bits) ⟨i, inside⟩

@[simp] theorem poly_zero : poly 0#w = 0 := by
  rw [poly_eq_sum]
  exact Finset.sum_eq_zero fun k _ => by simp

theorem poly_xor (r s : BitVec w) : poly (r ^^^ s) = poly r + poly s := by
  rw [poly_eq_sum, poly_eq_sum, poly_eq_sum, ← Finset.sum_add_distrib]
  refine Finset.sum_congr rfl fun k _ => ?_
  rw [BitVec.getLsbD_xor]
  cases r.getLsbD k <;> cases s.getLsbD k <;> simp [CharTwo.add_self_eq_zero]

theorem poly_allOnes : poly (BitVec.allOnes w) = ∑ k ∈ Finset.range w, X ^ k := by
  rw [poly_eq_sum, ← Finset.sum_range_reflect (fun k => (X ^ k : (ZMod 2)[X]))]
  refine Finset.sum_congr rfl fun k inside => ?_
  have below := Finset.mem_range.mp inside
  rw [BitVec.getLsbD_allOnes, decide_eq_true (by omega), if_pos rfl]

/-- A shorter word in the low bits of a register. -/
theorem poly_setWidth {v k : Nat} (byte : BitVec v) : poly (byte.setWidth (v + k)) = X ^ k * poly byte := by
  have bits : lsbFirst (byte.setWidth (v + k)) = lsbFirst byte ++ List.replicate k false := by
    refine List.ext_getElem (by simp) fun i inside _ => ?_
    simp only [lsbFirst, List.getElem_ofFn, List.getElem_append, List.length_ofFn, List.getElem_replicate]
    simp only [length_lsbFirst] at inside
    split
    · simp [inside]
    · simp [BitVec.getLsbD_of_ge byte i (by omega)]
  rw [poly, bits, ofBits_append, ofBits_replicate_false, add_zero, List.length_replicate, poly]

end Crc
