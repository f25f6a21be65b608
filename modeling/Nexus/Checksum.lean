import Nexus.Crc.Register
import Nexus.Packet

namespace Nexus
open Polynomial

/-- The generator of the standard 32-bit code. -/
noncomputable def generator : (ZMod 2)[X] :=
  X ^ 32 + X ^ 26 + X ^ 23 + X ^ 22 + X ^ 16 + X ^ 12 + X ^ 11 + X ^ 10 + X ^ 8 + X ^ 7 + X ^ 5 + X ^ 4 + X ^ 2 +
    X + 1

/-- The polynomial of a message, each byte taken least significant bit first. -/
noncomputable def messagePolynomial (data : List UInt8) : (ZMod 2)[X] :=
  Crc.ofBits (data.flatMap fun byte => Crc.lsbFirst byte.toBitVec)

/-- The word that holds a remainder with its highest coefficient in the least significant bit. -/
noncomputable def reflect (remainder : (ZMod 2)[X]) : UInt32 :=
  ⟨Crc.word fun i => decide (remainder.coeff (31 - i) = 1)⟩

/-- The code by division of polynomials: the message times `x ^ 32` with its first 32 bits complemented,
reduced modulo the generator, reflected and complemented. To complement a coefficient is to add one. -/
noncomputable def crc32 (data : List UInt8) : UInt32 :=
  ~~~reflect ((messagePolynomial data * X ^ 32 + X ^ (8 * data.length) * ∑ k ∈ Finset.range 32, X ^ k) %ₘ generator)

namespace Packet

/-- The generator as `calculateCRC` holds it. -/
def reflected : BitVec 32 := 0xEDB88320

theorem divisor_reflected : Crc.divisor reflected = generator := by
  have bits : Crc.lsbFirst reflected =
      [false, false, false, false, false, true, false, false, true, true, false, false, false, false, false, true,
        false, false, false, true, true, true, false, true, true, false, true, true, false, true, true, true] := by
    decide
  simp only [Crc.divisor, Crc.poly, bits, Crc.ofBits_cons, Crc.ofBits_nil, List.length_cons, List.length_nil,
    Bool.false_eq_true, if_false, if_true, generator]
  ring

theorem low_bit (crc : UInt32) : crc &&& 1 ≠ 0 ↔ crc.toBitVec.getLsbD 0 = true := by
  have bit : (crc &&& 1).toBitVec = BitVec.setWidth 32 (BitVec.ofBool (crc.toBitVec.getLsbD 0)) :=
    BitVec.and_one_eq_setWidth_ofBool_getLsbD
  rw [Ne, ← UInt32.toBitVec_inj, bit]
  cases crc.toBitVec.getLsbD 0 <;> simp

theorem toBitVec_crcShift (crc : UInt32) : (crcShift crc).toBitVec = Crc.shift reflected crc.toBitVec := by
  unfold crcShift Crc.shift
  by_cases bit : crc &&& 1 ≠ 0
  · rw [if_pos bit, if_pos ((low_bit crc).mp bit)]
    rfl
  · rw [if_neg bit, if_neg (fun set => bit ((low_bit crc).mpr set))]
    rfl

theorem toBitVec_iterate_crcShift (crc : UInt32) (k : Nat) :
    (crcShift^[k] crc).toBitVec = (Crc.shift reflected)^[k] crc.toBitVec := by
  induction k with
  | zero => rfl
  | succ k ih => rw [Function.iterate_succ_apply', Function.iterate_succ_apply', toBitVec_crcShift, ih]

/-- A byte passes through the register of the code as a word of the message. -/
theorem toBitVec_foldl_crcByte (crc : UInt32) (data : List UInt8) :
    (data.foldl crcByte crc).toBitVec =
      (data.map UInt8.toBitVec).foldl (Crc.feed (v := 8) (k := 23) reflected) crc.toBitVec := by
  induction data generalizing crc with
  | nil => rfl
  | cons byte data ih =>
    rw [List.foldl_cons, List.map_cons, List.foldl_cons, ih]
    congr 1
    exact toBitVec_iterate_crcShift (crc ^^^ byte.toUInt32) 8

theorem message_eq (data : List UInt8) :
    Crc.message (data.map UInt8.toBitVec) = data.flatMap fun byte => Crc.lsbFirst byte.toBitVec := by
  rw [Crc.message, List.flatMap_map]

theorem residue_foldl_crcByte (crc : UInt32) (data : List UInt8) :
    Crc.residue reflected (data.foldl crcByte crc).toBitVec =
      AdjoinRoot.mk (Crc.divisor reflected)
        (messagePolynomial data * X ^ 32 + X ^ (8 * data.length) * Crc.poly crc.toBitVec) := by
  rw [toBitVec_foldl_crcByte]
  have run := Crc.residue_foldl_feed (v := 8) (k := 23) reflected crc.toBitVec (data.map UInt8.toBitVec)
  rw [message_eq, List.length_map] at run
  rw [run, map_add, map_mul, map_mul, map_pow, map_pow, AdjoinRoot.mk_X, add_comm, mul_comm]
  rfl

theorem reflect_poly (r : UInt32) : reflect (Crc.poly r.toBitVec) = r := by
  refine UInt32.toBitVec_inj.mp (BitVec.eq_of_getLsbD_eq fun i inside => ?_)
  rw [reflect, Crc.getLsbD_word _ inside, Crc.coeff_poly r.toBitVec inside]
  cases r.toBitVec.getLsbD i <;> simp

/-- The shift register of `calculateCRC` computes the standard code of every list of bytes. -/
theorem calculateCRC_eq_crc32 (data : List UInt8) : calculateCRC data = crc32 data := by
  have start : Crc.poly (0xFFFFFFFF : UInt32).toBitVec = ∑ k ∈ Finset.range 32, X ^ k := Crc.poly_allOnes
  have division := Crc.poly_eq_modByMonic reflected (residue_foldl_crcByte 0xFFFFFFFF data)
  rw [start, divisor_reflected] at division
  rw [calculateCRC, crc32, ← division, reflect_poly]

/-- The check value of the standard code, for the digits from 1 to 9. -/
example : calculateCRC [49, 50, 51, 52, 53, 54, 55, 56, 57] = 0xCBF43926 := by decide +kernel

end Packet
end Nexus
