import Mathlib.Tactic.NormNum.Prime
import Nexus.Codec
import Nexus.Crc.Powers
import Nexus.Checksum

namespace Nexus
open ByteOrder Polynomial

/-- The bits of the `i`-th byte that an error flips. -/
def errorByte (positions : Finset Nat) (i : Nat) : UInt8 := ⟨Crc.word fun j => decide (8 * i + j ∈ positions)⟩

/-- A buffer with the bits at the given positions flipped. Positions are counted byte by byte, the least
significant bit of each byte first. -/
def flipped (buffer : List UInt8) (positions : Finset Nat) : List UInt8 :=
  buffer.mapIdx fun i byte => byte ^^^ errorByte positions i

@[simp] theorem length_flipped (buffer : List UInt8) (positions : Finset Nat) :
    (flipped buffer positions).length = buffer.length := List.length_mapIdx

theorem getLsbD_errorByte (positions : Finset Nat) (i : Nat) {j : Nat} (inside : j < 8) :
    (errorByte positions i).toBitVec.getLsbD j = decide (8 * i + j ∈ positions) :=
  Crc.getLsbD_word _ inside

/-- A byte of the register's message with an error added to it. -/
theorem messagePolynomial_mapIdx (data : List UInt8) (error : Nat → UInt8) :
    messagePolynomial (data.mapIdx fun i byte => byte ^^^ error i) =
      messagePolynomial data + messagePolynomial ((List.range data.length).map error) := by
  induction data generalizing error with
  | nil => simp [messagePolynomial]
  | cons byte data ih =>
    have lengths : ∀ (bytes : List UInt8), (bytes.flatMap fun b => Crc.lsbFirst b.toBitVec).length = 8 * bytes.length := by
      intro bytes
      rw [← Packet.message_eq, Crc.length_message, List.length_map]
    have cons : ∀ (b : UInt8) (bytes : List UInt8), messagePolynomial (b :: bytes) =
        X ^ (8 * bytes.length) * Crc.poly b.toBitVec + messagePolynomial bytes := by
      intro b bytes
      rw [messagePolynomial, List.flatMap_cons, Crc.ofBits_append, lengths]
      rfl
    rw [List.mapIdx_cons, cons, cons, ih, List.length_cons, List.range_succ_eq_map, List.map_cons, List.map_map, cons,
      UInt8.toBitVec_xor, Crc.poly_xor, List.length_mapIdx, List.length_map, List.length_range]
    rw [mul_add, add_add_add_comm]
    rfl

theorem messagePolynomial_errorByte (positions : Finset Nat) (n : Nat) :
    messagePolynomial ((List.range n).map (errorByte positions)) =
      ∑ q ∈ Finset.range (8 * n), if q ∈ positions then X ^ (8 * n - 1 - q) else 0 := by
  have bits : ((List.range n).map (errorByte positions)).flatMap (fun byte => Crc.lsbFirst byte.toBitVec) =
      (List.range (8 * n)).map fun q => decide (q ∈ positions) := by
    induction n with
    | zero => rfl
    | succ n ih =>
      rw [List.range_succ, List.map_append, List.flatMap_append, ih, Nat.mul_succ, List.range_add, List.map_append,
        List.map_map]
      congr 1
      rw [List.map_singleton, List.flatMap_singleton, Crc.lsbFirst_eq_map]
      refine List.map_congr_left fun j inside => ?_
      rw [getLsbD_errorByte positions n (List.mem_range.mp inside)]
      rfl
  rw [messagePolynomial, bits, Crc.ofBits_map_range]
  simp only [decide_eq_true_eq]

namespace Packet
variable {host : ByteOrder}

/-- The number of bits before the error correction code. -/
def codeStart : Nat := 8 * (18 + MAX_BUFFER_SIZE)

/-- The power of the variable that a bit of an encoded packet stands for. The bytes of the error correction
code are in network order, the bits of each byte are not. -/
def exponent (q : Nat) : Nat :=
  if q < codeStart then 32 + (codeStart - 1 - q) else 31 - (8 * (3 - (q - codeStart) / 8) + (q - codeStart) % 8)

/-- What a set of flipped bits adds to the remainder of an encoded packet. -/
noncomputable def syndrome (positions : Finset Nat) : AdjoinRoot (Crc.divisor reflected) :=
  ∑ q ∈ positions, AdjoinRoot.root (Crc.divisor reflected) ^ exponent q

theorem rejected_iff {buffer : List UInt8} (long : wireSize ≤ buffer.length) :
    deserialize host buffer = .error (.thrown crcMismatch) ↔
      calculateCRC (buffer.take (18 + MAX_BUFFER_SIZE)) ≠ load big (slice buffer (18 + MAX_BUFFER_SIZE) 4) := by
  rw [deserialize_eq long, ← @body_fields host buffer long]
  have verified := @verifyCRC_iff host (fields buffer long)
  by_cases accepted : (fields buffer long).verifyCRC host = true
  · rw [if_pos accepted]
    exact ⟨fun rejected => (by cases rejected), fun differs => absurd (verified.mp accepted) differs⟩
  · rw [if_neg accepted]
    exact ⟨fun _ same => accepted (verified.mpr same), fun _ => rfl⟩

/-- The error that a set of flipped bits makes in the error correction code. -/
def codeError (positions : Finset Nat) : List UInt8 :=
  (List.range 4).map fun i => errorByte positions (18 + MAX_BUFFER_SIZE + i)

theorem load_big_xor (a b : List UInt8) (sizeA : a.length = 4) (sizeB : b.length = 4) (error : Nat → UInt8)
    (added : b = a.mapIdx fun i byte => byte ^^^ error i) :
    (load big b : UInt32) = load big a ^^^ load big ((List.range 4).map error) := by
  refine UInt32.toBitVec_inj.mp (BitVec.eq_of_getLsbD_eq fun k inside => ?_)
  have byte : 3 - k / 8 < 4 := by omega
  rw [UInt32.toBitVec_xor, BitVec.getLsbD_xor, getLsbD_load_big sizeA inside, getLsbD_load_big sizeB inside,
    getLsbD_load_big (by simp) inside, added]
  simp [List.getD_eq_getElem?_getD, sizeA, byte]

theorem flipped_serialize (host : ByteOrder) (p : Packet) (positions : Finset Nat) :
    flipped (p.serialize host) positions = flipped (p.body host) positions ++
      (store big (calculateCRC (p.body host))).mapIdx fun i byte =>
        byte ^^^ errorByte positions (18 + MAX_BUFFER_SIZE + i) := by
  rw [flipped, serialize, store_hton, List.mapIdx_append, length_body]
  congr 2
  funext i byte
  rw [add_comm]

theorem take_flipped (host : ByteOrder) (p : Packet) (positions : Finset Nat) :
    (flipped (p.serialize host) positions).take (18 + MAX_BUFFER_SIZE) = flipped (p.body host) positions := by
  have length : (flipped (p.body host) positions).length = 18 + MAX_BUFFER_SIZE := by
    rw [length_flipped, length_body]
  rw [flipped_serialize, ← length, List.take_left]

theorem load_flipped (host : ByteOrder) (p : Packet) (positions : Finset Nat) :
    (load big (slice (flipped (p.serialize host) positions) (18 + MAX_BUFFER_SIZE) 4) : UInt32) =
      calculateCRC (p.body host) ^^^ load big (codeError positions) := by
  have length : (flipped (p.body host) positions).length = 18 + MAX_BUFFER_SIZE := by
    rw [length_flipped, length_body]
  have size : (store big (calculateCRC (p.body host))).length = 4 := length_store _ _
  have code := load_big_xor (store big (calculateCRC (p.body host))) _ size
    (by rw [List.length_mapIdx, size]) (fun i => errorByte positions (18 + MAX_BUFFER_SIZE + i)) rfl
  rw [load_store] at code
  rw [flipped_serialize, slice, ← length, List.drop_left, length, List.take_of_length_le]
  · exact code
  · rw [List.length_mapIdx, size]

theorem residue_dataError (positions : Finset Nat) (n : Nat) :
    AdjoinRoot.mk (Crc.divisor reflected) (messagePolynomial ((List.range n).map (errorByte positions)) * X ^ 32) =
      ∑ q ∈ Finset.range (8 * n),
        if q ∈ positions then AdjoinRoot.root (Crc.divisor reflected) ^ (32 + (8 * n - 1 - q)) else 0 := by
  rw [messagePolynomial_errorByte, Finset.sum_mul, map_sum]
  refine Finset.sum_congr rfl fun q inside => ?_
  by_cases set : q ∈ positions
  · rw [if_pos set, if_pos set, ← pow_add, add_comm, map_pow, AdjoinRoot.mk_X]
  · rw [if_neg set, if_neg set, zero_mul, map_zero]

theorem complement_xor (a b e : UInt32) : ~~~a = ~~~b ^^^ e ↔ a ^^^ b ^^^ e = 0 := by
  rw [UInt32.not_xor, UInt32.not_inj, UInt32.xor_assoc, UInt32.xor_eq_zero_iff]

/-- By how much an error in the data changes its code. -/
theorem calculateCRC_flipped (data : List UInt8) (positions : Finset Nat) (e : UInt32) :
    calculateCRC (flipped data positions) = calculateCRC data ^^^ e ↔
      AdjoinRoot.mk (Crc.divisor reflected)
          (messagePolynomial ((List.range data.length).map (errorByte positions)) * X ^ 32) +
        Crc.residue reflected e.toBitVec = 0 := by
  have register := residue_foldl_crcByte 0xFFFFFFFF (flipped data positions)
  rw [flipped, messagePolynomial_mapIdx, List.length_mapIdx, add_mul, add_right_comm, map_add,
    ← residue_foldl_crcByte] at register
  rw [calculateCRC, calculateCRC, complement_xor, ← UInt32.toBitVec_inj, UInt32.toBitVec_xor, UInt32.toBitVec_xor,
    flipped]
  have difference : Crc.residue reflected
      ((data.mapIdx fun i byte => byte ^^^ errorByte positions i).foldl crcByte 0xFFFFFFFF).toBitVec +
        Crc.residue reflected (data.foldl crcByte 0xFFFFFFFF).toBitVec =
      AdjoinRoot.mk (Crc.divisor reflected)
        (messagePolynomial ((List.range data.length).map (errorByte positions)) * X ^ 32) := by
    rw [register, add_right_comm, Crc.add_self, zero_add]
  rw [← difference, ← Crc.residue_xor, ← Crc.residue_xor, Crc.residue_eq_zero]
  rfl

theorem getLsbD_codeError (positions : Finset Nat) {k : Nat} (below : k < 32) :
    (load big (codeError positions) : UInt32).toBitVec.getLsbD k =
      decide (codeStart + (8 * (3 - k / 8) + k % 8) ∈ positions) := by
  have byte : 3 - k / 8 < 4 := by omega
  have position : 8 * (18 + MAX_BUFFER_SIZE + (3 - k / 8)) + k % 8 = codeStart + (8 * (3 - k / 8) + k % 8) := by
    rw [codeStart]
    omega
  rw [getLsbD_load_big (by simp [codeError]) below, codeError, List.getD_eq_getElem?_getD, List.getElem?_map,
    List.getElem?_range byte, Option.map_some, Option.getD_some, getLsbD_errorByte _ _ (Nat.mod_lt k (by decide)),
    position]

theorem exponent_code {k : Nat} (below : k < 32) : exponent (codeStart + (8 * (3 - k / 8) + k % 8)) = 31 - k := by
  rw [exponent, if_neg (by omega)]
  omega

theorem residue_codeError (positions : Finset Nat) :
    Crc.residue reflected (load big (codeError positions) : UInt32).toBitVec =
      ∑ q ∈ Finset.Ico codeStart (8 * wireSize),
        if q ∈ positions then AdjoinRoot.root (Crc.divisor reflected) ^ exponent q else 0 := by
  rw [Crc.residue, Crc.poly_eq_sum, map_sum]
  refine Finset.sum_nbij' (fun k => codeStart + (8 * (3 - k / 8) + k % 8))
    (fun q => 8 * (3 - (q - codeStart) / 8) + (q - codeStart) % 8) ?_ ?_ ?_ ?_ ?_
  · intro k inside
    have below := Finset.mem_range.mp inside
    rw [Finset.mem_Ico, wireSize, codeStart]
    omega
  · intro q inside
    rw [Finset.mem_Ico, wireSize] at inside
    rw [codeStart] at inside ⊢
    rw [Finset.mem_range]
    omega
  · intro k inside
    have below := Finset.mem_range.mp inside
    omega
  · intro q inside
    rw [Finset.mem_Ico, wireSize] at inside
    rw [codeStart] at inside ⊢
    omega
  · intro k inside
    have below := Finset.mem_range.mp inside
    rw [getLsbD_codeError positions below, exponent_code below]
    by_cases set : codeStart + (8 * (3 - k / 8) + k % 8) ∈ positions
    · rw [if_pos (decide_eq_true set), if_pos set, map_pow, AdjoinRoot.mk_X]
    · rw [if_neg (by simpa using set), if_neg set, map_zero]

theorem syndrome_eq {positions : Finset Nat} (inside : ∀ q ∈ positions, q < 8 * wireSize) :
    AdjoinRoot.mk (Crc.divisor reflected)
        (messagePolynomial ((List.range (18 + MAX_BUFFER_SIZE)).map (errorByte positions)) * X ^ 32) +
      Crc.residue reflected (load big (codeError positions) : UInt32).toBitVec = syndrome positions := by
  have whole : codeStart ≤ 8 * wireSize := by
    rw [codeStart, wireSize]
    omega
  have within : positions ⊆ Finset.range (8 * wireSize) := fun q set => Finset.mem_range.mpr (inside q set)
  have data : ∀ q ∈ Finset.range codeStart,
      (if q ∈ positions then AdjoinRoot.root (Crc.divisor reflected) ^ (32 + (codeStart - 1 - q)) else 0) =
        if q ∈ positions then AdjoinRoot.root (Crc.divisor reflected) ^ exponent q else 0 := by
    intro q before
    rw [exponent, if_pos (Finset.mem_range.mp before)]
  have start : 8 * (18 + MAX_BUFFER_SIZE) = codeStart := rfl
  rw [residue_dataError, residue_codeError, start, Finset.sum_congr rfl data, Finset.range_eq_Ico,
    Finset.sum_Ico_consecutive _ (Nat.zero_le _) whole, ← Finset.range_eq_Ico, Finset.sum_ite_mem,
    Finset.inter_eq_right.mpr within]
  rfl

/-- An error is detected exactly when its syndrome is not zero. -/
theorem deserialize_flipped_iff (host : ByteOrder) (p : Packet) {positions : Finset Nat}
    (inside : ∀ q ∈ positions, q < 8 * wireSize) :
    deserialize host (flipped (p.serialize host) positions) = .error (.thrown crcMismatch) ↔
      syndrome positions ≠ 0 := by
  have long : wireSize ≤ (flipped (p.serialize host) positions).length := by
    rw [length_flipped, length_serialize]
  rw [rejected_iff long, take_flipped, load_flipped, Ne, Ne, ← syndrome_eq inside]
  have changed := calculateCRC_flipped (p.body host) positions (load big (codeError positions))
  rw [length_body] at changed
  exact not_congr changed

/-- The generator is primitive: only after `2 ^ 32 - 1` steps does the register return to one. -/
theorem orderOf_root : orderOf (AdjoinRoot.root (Crc.divisor reflected)) = 2 ^ 32 - 1 := by
  have parts : ∀ p ∈ [3, 5, 17, 257, 65537],
      Crc.power (w := 31) reflected 32 ((2 ^ 32 - 1) / p) ≠ Crc.one := by decide +kernel
  refine Crc.orderOf_root (w := 31) (k := 32) reflected (by decide) (by decide) (by decide +kernel) ?_
  intro p prime divides
  have same : ∀ q : Nat, q.Prime → p ∣ q → p = q := fun q other => (Nat.prime_dvd_prime_iff_eq prime other).mp
  rw [show 2 ^ 32 - 1 = 3 * (5 * (17 * (257 * 65537))) by rfl] at divides
  simp only [prime.dvd_mul] at divides
  have factor : p ∈ [3, 5, 17, 257, 65537] := by
    simp only [List.mem_cons, List.not_mem_nil, or_false]
    rcases divides with three | five | seventeen | fermat | fermat
    · exact .inl (same 3 (by norm_num) three)
    · exact .inr (.inl (same 5 (by norm_num) five))
    · exact .inr (.inr (.inl (same 17 (by norm_num) seventeen)))
    · exact .inr (.inr (.inr (.inl (same 257 (by norm_num) fermat))))
    · exact .inr (.inr (.inr (.inr (same 65537 (by norm_num) fermat))))
  exact parts p factor

theorem orderOf_root_pos : 0 < orderOf (AdjoinRoot.root (Crc.divisor reflected)) := by
  rw [orderOf_root]
  decide

theorem exponent_lt {q : Nat} (inside : q < 8 * wireSize) : exponent q < 8 * wireSize := by
  rw [wireSize] at inside ⊢
  rw [exponent, codeStart]
  split <;> omega

theorem exponent_injective {q r : Nat} (insideQ : q < 8 * wireSize) (insideR : r < 8 * wireSize)
    (same : exponent q = exponent r) : q = r := by
  rw [wireSize] at insideQ insideR
  rw [exponent, exponent, codeStart] at same
  split at same <;> split at same <;> omega

/-- Different bits of an encoded packet stand for different powers, since the generator is primitive. -/
theorem root_pow_exponent_ne {q r : Nat} (insideQ : q < 8 * wireSize) (insideR : r < 8 * wireSize) (other : q ≠ r) :
    AdjoinRoot.root (Crc.divisor reflected) ^ exponent q ≠ AdjoinRoot.root (Crc.divisor reflected) ^ exponent r := by
  have long : 8 * wireSize < orderOf (AdjoinRoot.root (Crc.divisor reflected)) := by
    rw [orderOf_root, wireSize, MAX_BUFFER_SIZE]
    decide
  have boundQ := exponent_lt insideQ
  have boundR := exponent_lt insideR
  rcases Nat.lt_trichotomy (exponent q) (exponent r) with below | same | above
  · exact Crc.pow_ne_pow below (lt_trans boundR long)
  · exact absurd (exponent_injective insideQ insideR same) other
  · exact (Crc.pow_ne_pow above (lt_trans boundQ long)).symm

/-- Every corruption of one bit or of two bits of an encoded packet is detected. -/
theorem deserialize_flipped_of_card (host : ByteOrder) (p : Packet) (positions : Finset Nat)
    (inside : ∀ q ∈ positions, q < 8 * wireSize) (few : positions.card = 1 ∨ positions.card = 2) :
    deserialize host (flipped (p.serialize host) positions) = .error (.thrown crcMismatch) := by
  refine (deserialize_flipped_iff host p inside).mpr ?_
  rcases few with single | pair
  · obtain ⟨q, rfl⟩ := Finset.card_eq_one.mp single
    rw [syndrome, Finset.sum_singleton]
    exact Crc.root_pow_ne_zero (w := 31) reflected orderOf_root_pos _
  · obtain ⟨q, r, other, rfl⟩ := Finset.card_eq_two.mp pair
    have insideQ := inside q (by simp)
    have insideR := inside r (by simp)
    rw [syndrome, Finset.sum_pair other]
    intro cancelled
    exact root_pow_exponent_ne insideQ insideR other
      (add_right_cancel (cancelled.trans (Crc.add_self reflected _).symm))

/-- The first and the last bit of a packet. -/
theorem deserialize_flipped_of_card_ends :
    deserialize .little (flipped ((addressed 0 0 0x0100007F 1280 0x0100007F 1281 .text).serialize .little)
      {0, 400175}) = .error (.thrown crcMismatch) :=
  deserialize_flipped_of_card .little _ {0, 400175}
    (by simp only [Finset.mem_insert, Finset.mem_singleton, wireSize, MAX_BUFFER_SIZE]; omega)
    (.inr (Finset.card_pair (by decide)))

end Packet
end Nexus
