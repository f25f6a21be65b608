import Nexus.Crc.Span
import Nexus.Corruption

namespace Nexus
open ByteOrder

namespace Packet
variable {host : ByteOrder}

/-- The flipped bits among the last four bytes of the data, in the low half, and the error correction code. -/
def pattern (positions : Finset Nat) : BitVec 64 := Crc.word fun i => decide (codeStart - 32 + i ∈ positions)

/-- The error in the last four bytes of the data together with the error in the code that hides it. The bytes
of the code are in network order. -/
def straddling (data : BitVec 32) : BitVec 64 :=
  Crc.forced ((Crc.shift reflected)^[32] data) fun code =>
    code.extractLsb' 0 8 ++ code.extractLsb' 8 8 ++ code.extractLsb' 16 8 ++ code.extractLsb' 24 8 ++ data

theorem getLsbD_octet (code : BitVec 32) {start i j : Nat} (below : i < 8) (same : start + i = j) :
    (decide (i < 8) && code.getLsbD (start + i)) = code.getLsbD j := by
  rw [decide_eq_true below, Bool.true_and, same]

theorem getLsbD_straddling (data : BitVec 32) {i : Nat} (inside : i < 64) :
    (straddling data).getLsbD i = if i < 32 then data.getLsbD i
      else ((Crc.shift reflected)^[32] data).getLsbD (8 * (3 - (i - 32) / 8) + (i - 32) % 8) := by
  rw [straddling, Crc.forced_eq]
  simp only [BitVec.getLsbD_append, BitVec.getLsbD_extractLsb']
  split
  · rfl
  · split
    · exact getLsbD_octet _ (by omega) (by omega)
    · split
      · exact getLsbD_octet _ (by omega) (by omega)
      · split
        · exact getLsbD_octet _ (by omega) (by omega)
        · exact getLsbD_octet _ (by omega) (by omega)

theorem straddling_xor (a b : BitVec 32) : straddling (a ^^^ b) = straddling a ^^^ straddling b := by
  refine BitVec.eq_of_getLsbD_eq fun i inside => ?_
  rw [BitVec.getLsbD_xor, getLsbD_straddling _ inside, getLsbD_straddling _ inside, getLsbD_straddling _ inside,
    Crc.iterate_shift_xor (w := 31)]
  split <;> rw [BitVec.getLsbD_xor]

/-- The errors of at most 32 successive bits that are not detected, as patterns. -/
def undetectedBursts : List (BitVec 64) :=
  [0x000000013F036DC2, 0x000000027E06DB84, 0x00000004FC0DB708, 0x0000001179D7BD60, 0x00000022F3AF7AC0,
    0x000003A237641400, 0x0000055F63E6D800, 0x00000ABEC7CDB000, 0x0000777A6C308000, 0x0000EEF4D8610000,
    0x0001EE4B1C840000, 0x0002DC9739080000, 0x000332DC258C0000, 0x000927CDB1900000, 0x2083B8ED80000000]

/-- The bits outside a window of 32 bits. -/
def outside (first : Nat) : List Nat := (List.range 64).filter fun i => i < first || first + 32 ≤ i

/-- What is left of the undetected errors in a window of 32 bits. -/
def windowed (first : Nat) : List (BitVec 64) :=
  Crc.sums ((outside first).foldl (fun words k => Crc.clear k words) (Crc.images straddling 32))

theorem undetectedBursts_straddling :
    (undetectedBursts.all fun burst => burst == straddling (burst.setWidth 32)) = true := by
  decide +kernel

theorem windowed_undetected :
    ((List.range 32).all fun k => (windowed (k + 1)).all fun burst => burst == 0#64 || undetectedBursts.contains burst) =
      true := by
  decide +kernel

/-- A pattern within 32 successive bits, not all of them before the code, hides itself only if it is listed. -/
theorem mem_undetectedBursts_iff {burst : BitVec 64} (some : burst ≠ 0#64) {first : Nat} (late : 1 ≤ first)
    (window : ∀ i, burst.getLsbD i = true → first ≤ i ∧ i < first + 32) :
    burst = straddling (burst.setWidth 32) ↔ burst ∈ undetectedBursts := by
  constructor
  · intro hidden
    obtain ⟨k, below, bits⟩ : ∃ k, k < 32 ∧ ∀ i, burst.getLsbD i = true → k + 1 ≤ i ∧ i < k + 1 + 32 := by
      refine ⟨min (first - 1) 31, by omega, fun i set => ?_⟩
      have inside := BitVec.lt_of_getLsbD set
      have bound := window i set
      omega
    have member : burst ∈ windowed (k + 1) := by
      refine Crc.mem_sums_foldl_clear ?_ fun i out => ?_
      · rw [hidden]
        exact Crc.mem_sums_images straddling_xor fun i high => BitVec.getLsbD_of_ge _ _ high
      · simp only [outside, List.mem_filter, Bool.or_eq_true, decide_eq_true_eq] at out
        by_contra set
        have bound := bits i (by simpa using set)
        omega
    have listed := List.all_eq_true.mp (List.all_eq_true.mp windowed_undetected k (List.mem_range.mpr below)) burst member
    simpa [some] using listed
  · intro listed
    exact eq_of_beq (List.all_eq_true.mp undetectedBursts_straddling burst listed)

theorem getLsbD_pattern {positions : Finset Nat} (inside : ∀ q ∈ positions, q < 8 * wireSize) (i : Nat) :
    (pattern positions).getLsbD i = true ↔ codeStart - 32 + i ∈ positions := by
  by_cases below : i < 64
  · rw [pattern, Crc.getLsbD_word _ below, decide_eq_true_eq]
  · refine ⟨fun set => absurd (BitVec.lt_of_getLsbD set) below, fun set => ?_⟩
    have bound := inside _ set
    rw [codeStart, wireSize] at bound
    omega

/-- The data error of a burst near the code, moved behind the data. -/
theorem residue_pattern {positions : Finset Nat} (late : ∀ q ∈ positions, codeStart ≤ q + 32) :
    Crc.residue reflected ((Crc.shift reflected)^[32] ((pattern positions).setWidth 32)) =
      AdjoinRoot.mk (Crc.divisor reflected)
        (messagePolynomial ((List.range (18 + MAX_BUFFER_SIZE)).map (errorByte positions)) * Polynomial.X ^ 32) := by
  have start : 8 * (18 + MAX_BUFFER_SIZE) = codeStart := rfl
  have room : 32 ≤ codeStart := by
    rw [codeStart]
    omega
  have earlier : ∀ q ∈ Finset.Ico 0 (codeStart - 32),
      (if q ∈ positions then AdjoinRoot.root (Crc.divisor reflected) ^ (32 + (codeStart - 1 - q)) else 0) = 0 := by
    intro q before
    rw [Finset.mem_Ico] at before
    refine if_neg fun set => ?_
    have bound := late q set
    omega
  rw [residue_dataError, start, Finset.range_eq_Ico, ← Finset.sum_Ico_consecutive _ (Nat.zero_le (codeStart - 32))
    (Nat.sub_le codeStart 32), Finset.sum_eq_zero earlier, zero_add, Finset.sum_Ico_eq_sum_range,
    Nat.sub_sub_self room]
  rw [Crc.residue_iterate_shift (w := 31), Crc.residue, Crc.poly_eq_sum, map_sum, Finset.mul_sum]
  refine Finset.sum_congr rfl fun k inside => ?_
  have below := Finset.mem_range.mp inside
  have power : 32 + (codeStart - 1 - (codeStart - 32 + k)) = 32 + (31 - k) := by omega
  rw [BitVec.getLsbD_setWidth, decide_eq_true below, Bool.true_and, pattern, Crc.getLsbD_word _ (by omega), power]
  by_cases set : codeStart - 32 + k ∈ positions
  · rw [if_pos (decide_eq_true set), if_pos set, map_pow, AdjoinRoot.mk_X, ← pow_add]
  · rw [if_neg (by simpa using set), if_neg set, map_zero, mul_zero]

/-- Near the code, an error goes undetected exactly when its part in the code is the one that hides the rest. -/
theorem syndrome_eq_zero_iff {positions : Finset Nat} (inside : ∀ q ∈ positions, q < 8 * wireSize)
    (late : ∀ q ∈ positions, codeStart ≤ q + 32) :
    syndrome positions = 0 ↔ pattern positions = straddling ((pattern positions).setWidth 32) := by
  have room : 32 ≤ codeStart := by
    rw [codeStart]
    omega
  have code : ∀ k < 32, (load big (codeError positions) : UInt32).toBitVec.getLsbD k =
      (pattern positions).getLsbD (32 + (8 * (3 - k / 8) + k % 8)) := by
    intro k below
    rw [getLsbD_codeError positions below, pattern, Crc.getLsbD_word _ (by omega)]
    congr 2
    omega
  rw [← syndrome_eq inside, ← residue_pattern late, ← Crc.residue_xor, Crc.residue_eq_zero, BitVec.xor_eq_zero_iff]
  constructor
  · intro hidden
    refine BitVec.eq_of_getLsbD_eq fun i below => ?_
    rw [getLsbD_straddling _ below, hidden]
    split
    · rename_i low
      rw [BitVec.getLsbD_setWidth, decide_eq_true low, Bool.true_and]
    · rw [code _ (by omega)]
      congr 1
      omega
  · intro hidden
    refine BitVec.eq_of_getLsbD_eq fun k below => ?_
    have position : 32 + (8 * (3 - k / 8) + k % 8) < 64 := by omega
    rw [code k below]
    conv_rhs => rw [hidden, getLsbD_straddling _ position, if_neg (by omega)]
    congr 1
    omega

/-- Before the code, an error within 32 successive bits is a remainder times a power, so it is never zero. -/
theorem syndrome_ne_zero_of_data {positions : Finset Nat} {first : Nat} (member : first ∈ positions)
    (early : first + 31 < codeStart) (window : ∀ q ∈ positions, first ≤ q ∧ q ≤ first + 31) :
    syndrome positions ≠ 0 := by
  have short : positions ⊆ Finset.Ico first (first + 32) := fun q set => by
    have bound := window q set
    rw [Finset.mem_Ico]
    omega
  have factor : syndrome positions = AdjoinRoot.root (Crc.divisor reflected) ^ (codeStart - first) *
      Crc.residue reflected (Crc.word fun k => decide (first + k ∈ positions)) := by
    rw [syndrome, ← Finset.inter_eq_right.mpr short, ← Finset.sum_ite_mem, Finset.sum_Ico_eq_sum_range,
      Nat.add_sub_cancel_left, Crc.residue, Crc.poly_eq_sum, map_sum, Finset.mul_sum,
      Finset.inter_eq_right.mpr short]
    refine Finset.sum_congr rfl fun k inside => ?_
    have below := Finset.mem_range.mp inside
    have power : exponent (first + k) = codeStart - first + (31 - k) := by
      rw [exponent, if_pos (by omega)]
      omega
    rw [Crc.getLsbD_word _ below, power]
    by_cases set : first + k ∈ positions
    · rw [if_pos set, if_pos (decide_eq_true set), map_pow, AdjoinRoot.mk_X, ← pow_add]
    · rw [if_neg set, if_neg (by simpa using set), map_zero, mul_zero]
  have bit : (Crc.word fun k => decide (first + k ∈ positions) : BitVec 32).getLsbD 0 = true := by
    rw [Crc.getLsbD_word _ (by decide)]
    exact decide_eq_true member
  rw [factor, Ne, (Crc.isUnit_root_pow (w := 31) reflected orderOf_root_pos _).mul_right_eq_zero, Crc.residue_eq_zero]
  intro zero
  rw [zero, BitVec.getLsbD_zero] at bit
  exact Bool.false_ne_true bit

theorem mem_undetectedBursts_pattern {positions : Finset Nat} (inside : ∀ q ∈ positions, q < 8 * wireSize)
    (late : ∀ q ∈ positions, codeStart ≤ q + 32) :
    pattern positions ∈ undetectedBursts ↔ ∃ burst ∈ undetectedBursts, ∀ q, q ∈ positions ↔
      codeStart ≤ q + 32 ∧ burst.getLsbD (q + 32 - codeStart) = true := by
  have room : 32 ≤ codeStart := by
    rw [codeStart]
    omega
  constructor
  · refine fun listed => ⟨_, listed, fun q => ?_⟩
    rw [getLsbD_pattern inside]
    refine ⟨fun set => ⟨late q set, ?_⟩, fun both => ?_⟩
    · rwa [show codeStart - 32 + (q + 32 - codeStart) = q by have := late q set; omega]
    · have set := both.2
      rwa [show codeStart - 32 + (q + 32 - codeStart) = q by omega] at set
  · rintro ⟨burst, listed, same⟩
    have equal : pattern positions = burst := by
      refine BitVec.eq_of_getLsbD_eq fun i below => Bool.eq_iff_iff.mpr ?_
      rw [getLsbD_pattern inside, same, show codeStart - 32 + i + 32 - codeStart = i by omega]
      exact ⟨And.right, fun set => ⟨by omega, set⟩⟩
    rwa [equal]

theorem undetectedBursts_both_sides : (undetectedBursts.all fun burst =>
    (List.range 32).any burst.getLsbD && (List.range 32).any fun k => burst.getLsbD (32 + k)) = true := by
  decide +kernel

theorem exists_code_bit {burst : BitVec 64} (listed : burst ∈ undetectedBursts) :
    ∃ k, k < 32 ∧ burst.getLsbD (32 + k) = true := by
  have both := List.all_eq_true.mp undetectedBursts_both_sides burst listed
  obtain ⟨k, below, set⟩ := List.any_eq_true.mp (Bool.and_eq_true_iff.mp both).2
  exact ⟨k, List.mem_range.mp below, set⟩

theorem exists_data_bit {burst : BitVec 64} (listed : burst ∈ undetectedBursts) :
    ∃ k, k < 32 ∧ burst.getLsbD k = true := by
  have both := List.all_eq_true.mp undetectedBursts_both_sides burst listed
  obtain ⟨k, below, set⟩ := List.any_eq_true.mp (Bool.and_eq_true_iff.mp both).1
  exact ⟨k, List.mem_range.mp below, set⟩

/-- A burst of at most 32 bits has syndrome zero exactly when it is listed. -/
theorem syndrome_ne_zero_iff {positions : Finset Nat} (inside : ∀ q ∈ positions, q < 8 * wireSize)
    (some : positions.Nonempty) (short : ∀ q ∈ positions, ∀ r ∈ positions, r ≤ q + 31) :
    syndrome positions ≠ 0 ↔ ¬∃ burst ∈ undetectedBursts, ∀ q, q ∈ positions ↔
      codeStart ≤ q + 32 ∧ burst.getLsbD (q + 32 - codeStart) = true := by
  obtain ⟨first, member, least⟩ : ∃ first ∈ positions, ∀ q ∈ positions, first ≤ q :=
    ⟨positions.min' some, positions.min'_mem some, fun q set => positions.min'_le q set⟩
  by_cases early : first + 31 < codeStart
  · have detected := syndrome_ne_zero_of_data member early fun q set => ⟨least q set, short first member q set⟩
    refine ⟨fun _ ⟨burst, listed, same⟩ => ?_, fun _ => detected⟩
    obtain ⟨k, below, set⟩ := exists_code_bit listed
    have flipped := (same (codeStart + k)).mpr ⟨by omega, by
      rwa [show codeStart + k + 32 - codeStart = 32 + k by omega]⟩
    have bound := short first member _ flipped
    omega
  · have late : ∀ q ∈ positions, codeStart ≤ q + 32 := fun q set => by
      have bound := least q set
      omega
    have room : 32 ≤ codeStart := by
      rw [codeStart]
      omega
    have nonzero : pattern positions ≠ 0#64 := by
      intro zero
      have bit := (getLsbD_pattern inside (first + 32 - codeStart)).mpr (by
        rwa [show codeStart - 32 + (first + 32 - codeStart) = first by omega])
      rw [zero, BitVec.getLsbD_zero] at bit
      exact Bool.false_ne_true bit
    have window : ∀ i, (pattern positions).getLsbD i = true →
        first + 32 - codeStart ≤ i ∧ i < first + 32 - codeStart + 32 := by
      intro i set
      have flipped := (getLsbD_pattern inside i).mp set
      have lower := least _ flipped
      have upper := short first member _ flipped
      omega
    rw [Ne, syndrome_eq_zero_iff inside late, mem_undetectedBursts_iff nonzero (by omega) window,
      mem_undetectedBursts_pattern inside late]

/-- Every burst error of at most 32 bits is detected, but for fifteen patterns across the end of the data: the
bytes of the code go out in network order, its bits in the order of the division. -/
theorem deserialize_flipped_burst (host : ByteOrder) (p : Packet) (positions : Finset Nat)
    (inside : ∀ q ∈ positions, q < 8 * wireSize) (some : positions.Nonempty)
    (short : ∀ q ∈ positions, ∀ r ∈ positions, r ≤ q + 31) :
    (deserialize host (flipped (p.serialize host) positions) = .error (.thrown crcMismatch) ↔
      ¬∃ burst ∈ undetectedBursts, ∀ q, q ∈ positions ↔
        codeStart ≤ q + 32 ∧ burst.getLsbD (q + 32 - codeStart) = true) ∧
    ∀ burst ∈ undetectedBursts,
      (∃ k < 32, burst.getLsbD k = true) ∧ ∃ k < 32, burst.getLsbD (32 + k) = true :=
  ⟨(deserialize_flipped_iff host p inside).trans (syndrome_ne_zero_iff inside some short),
    fun _ listed => ⟨exists_data_bit listed, exists_code_bit listed⟩⟩

/-- The last bit of the data and the bits of the code that it changes, 31 successive bits. -/
def hiddenBurst : Finset Nat :=
  {400143, 400144, 400146, 400147, 400149, 400150, 400151, 400155, 400156, 400157, 400159, 400160, 400161, 400167,
    400173}

theorem hiddenBurst_bits : ((List.range 64).all fun k =>
    (0x2083B8ED80000000 : BitVec 64).getLsbD k == decide (400112 + k ∈ hiddenBurst)) = true := by
  decide +kernel

theorem hiddenBurst_window : ∀ q ∈ hiddenBurst, 400143 ≤ q ∧ q ≤ 400173 := by
  simp only [hiddenBurst, Finset.mem_insert, Finset.mem_singleton]
  omega

/-- A burst of 31 bits that an empty text packet does not reveal. -/
theorem hiddenBurst_accepted : ¬∀ (host : ByteOrder) (p : Packet) (positions : Finset Nat),
    (∀ q ∈ positions, q < 8 * wireSize) → positions.Nonempty →
    (∀ q ∈ positions, ∀ r ∈ positions, r ≤ q + 31) →
    deserialize host (flipped (p.serialize host) positions) = .error (.thrown crcMismatch) := by
  intro detected
  have start : codeStart = 400144 := by rw [codeStart, MAX_BUFFER_SIZE]
  have inside : ∀ q ∈ hiddenBurst, q < 8 * wireSize := fun q set => by
    have bound := hiddenBurst_window q set
    rw [wireSize, MAX_BUFFER_SIZE]
    omega
  have some : hiddenBurst.Nonempty := ⟨400143, by simp [hiddenBurst]⟩
  have short : ∀ q ∈ hiddenBurst, ∀ r ∈ hiddenBurst, r ≤ q + 31 := fun q set r other => by
    have lower := hiddenBurst_window q set
    have upper := hiddenBurst_window r other
    omega
  have rejected := detected .little (addressed 0 0 0x0100007F 1280 0x0100007F 1281 .text) hiddenBurst inside some short
  refine (syndrome_ne_zero_iff inside some short).mp ((deserialize_flipped_iff _ _ inside).mp rejected) ?_
  refine ⟨0x2083B8ED80000000, by decide, fun q => ?_⟩
  have bits : ∀ k < 64, (0x2083B8ED80000000 : BitVec 64).getLsbD k = decide (400112 + k ∈ hiddenBurst) :=
    fun k below => eq_of_beq (List.all_eq_true.mp hiddenBurst_bits k (List.mem_range.mpr below))
  rw [start]
  constructor
  · intro set
    have bound := hiddenBurst_window q set
    refine ⟨by omega, ?_⟩
    rw [bits _ (by omega), show 400112 + (q + 32 - 400144) = q by omega]
    exact decide_eq_true set
  · rintro ⟨late, set⟩
    have below := BitVec.lt_of_getLsbD set
    rw [bits _ below, show 400112 + (q + 32 - 400144) = q by omega] at set
    exact of_decide_eq_true set

/-- Five bits on both sides of the end of the data, the first and the last as far apart as a burst allows. -/
def acrossData : Finset Nat := {400140, 400143, 400144, 400150, 400171}

theorem deserialize_flipped_burst_across :
    let p := addressed 0 0 0x0100007F 1280 0x0100007F 1281 .text
    (deserialize .little (flipped (p.serialize .little) acrossData) = .error (.thrown crcMismatch) ↔
      ¬∃ burst ∈ undetectedBursts, ∀ q, q ∈ acrossData ↔
        codeStart ≤ q + 32 ∧ burst.getLsbD (q + 32 - codeStart) = true) ∧
    ∀ burst ∈ undetectedBursts,
      (∃ k < 32, burst.getLsbD k = true) ∧ ∃ k < 32, burst.getLsbD (32 + k) = true := by
  have inside : ∀ q ∈ acrossData, 400140 ≤ q ∧ q ≤ 400171 := by
    simp only [acrossData, Finset.mem_insert, Finset.mem_singleton]
    omega
  refine deserialize_flipped_burst .little _ acrossData (fun q member => ?_) ⟨400140, by decide⟩
    fun q member r member' => ?_
  · have bound := (inside q member).2
    unfold wireSize MAX_BUFFER_SIZE
    omega
  · have first := (inside q member).1
    have last := (inside r member').2
    omega

end Packet
end Nexus
