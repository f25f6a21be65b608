import Nexus.Crc.Powers

/-!
Exclusive-or sums of words, and the elimination of those sums in which a bit is set.
-/

namespace Crc
variable {w v : Nat}

/-- Every exclusive or of some of the words. -/
def sums : List (BitVec w) → List (BitVec w)
  | [] => [0#w]
  | b :: bs => sums bs ++ (sums bs).map (· ^^^ b)

theorem mem_sums_cons {b x : BitVec w} {bs : List (BitVec w)} :
    x ∈ sums (b :: bs) ↔ x ∈ sums bs ∨ x ^^^ b ∈ sums bs := by
  rw [sums, List.mem_append, List.mem_map]
  refine or_congr_right ⟨?_, fun member => ⟨x ^^^ b, member, ?_⟩⟩
  · rintro ⟨y, member, rfl⟩
    rwa [BitVec.xor_assoc, BitVec.xor_self, BitVec.xor_zero]
  · rw [BitVec.xor_assoc, BitVec.xor_self, BitVec.xor_zero]

/-- Takes bit `k` out of the words with a word that has it. -/
def cancel (k : Nat) (b : BitVec w) : List (BitVec w) → List (BitVec w)
  | [] => []
  | c :: cs => forced (if c.getLsbD k then c ^^^ b else c) (· :: cancel k b cs)

/-- Words whose sums are the sums of the given words in which bit `k` is clear. -/
def clear (k : Nat) : List (BitVec w) → List (BitVec w)
  | [] => []
  | b :: bs => if b.getLsbD k then cancel k b bs else b :: clear k bs

theorem mem_sums_cancel {b x : BitVec w} {bs : List (BitVec w)} (k : Nat) (member : x ∈ sums bs) :
    (if x.getLsbD k then x ^^^ b else x) ∈ sums (cancel k b bs) := by
  induction bs generalizing x with
  | nil =>
    rw [sums, List.mem_singleton] at member
    simp [member, cancel, sums]
  | cons c cs ih =>
    rw [cancel, forced_eq, mem_sums_cons]
    rcases mem_sums_cons.mp member with without | added
    · exact .inl (ih without)
    · right
      have rest := ih added
      have swap : x ^^^ b ^^^ c = x ^^^ c ^^^ b := by
        rw [BitVec.xor_assoc, BitVec.xor_comm b c, BitVec.xor_assoc]
      have twice : x ^^^ b ^^^ (c ^^^ b) = x ^^^ c := by
        rw [← BitVec.xor_assoc, swap, BitVec.xor_assoc, BitVec.xor_self, BitVec.xor_zero]
      rw [BitVec.getLsbD_xor] at rest
      cases bitX : x.getLsbD k <;> cases bitC : c.getLsbD k <;>
        simp only [bitX, bitC, Bool.xor_false, Bool.xor_true, Bool.not_true, Bool.not_false, Bool.false_eq_true,
          if_true, if_false, ← BitVec.xor_assoc] at rest ⊢
      · exact rest
      · exact rest
      · rwa [swap]
      · rwa [BitVec.xor_assoc, twice]

theorem mem_sums_clear {k : Nat} {x : BitVec w} {bs : List (BitVec w)} (member : x ∈ sums bs)
    (bit : x.getLsbD k = false) : x ∈ sums (clear k bs) := by
  induction bs generalizing x with
  | nil => exact member
  | cons b bs ih =>
    rw [clear]
    cases set : b.getLsbD k with
    | false =>
      rw [if_neg Bool.false_ne_true, mem_sums_cons]
      exact (mem_sums_cons.mp member).imp (ih · bit) (ih · (by rw [BitVec.getLsbD_xor, bit, set]; rfl))
    | true =>
      rw [if_pos rfl]
      rcases mem_sums_cons.mp member with without | added
      · have kept := mem_sums_cancel (b := b) k without
        rwa [bit, if_neg Bool.false_ne_true] at kept
      · have kept := mem_sums_cancel (b := b) k added
        rw [BitVec.getLsbD_xor, bit, set, Bool.false_xor, if_pos rfl] at kept
        rwa [BitVec.xor_assoc, BitVec.xor_self, BitVec.xor_zero] at kept

theorem mem_sums_foldl_clear {ks : List Nat} {x : BitVec w} {bs : List (BitVec w)} (member : x ∈ sums bs)
    (bits : ∀ k ∈ ks, x.getLsbD k = false) : x ∈ sums (ks.foldl (fun words k => clear k words) bs) := by
  induction ks generalizing bs with
  | nil => exact member
  | cons k ks ih =>
    exact ih (mem_sums_clear member (bits k List.mem_cons_self)) fun j later => bits j (List.mem_cons_of_mem k later)

/-- The images of the `n` lowest bits. -/
def images (f : BitVec w → BitVec v) : Nat → List (BitVec v)
  | 0 => []
  | n + 1 => forced (f (BitVec.twoPow w n)) (· :: images f n)

/-- A function that respects exclusive or has its values among the sums of the images of the bits. -/
theorem mem_sums_images {f : BitVec w → BitVec v} (linear : ∀ a b, f (a ^^^ b) = f a ^^^ f b) {n : Nat}
    {r : BitVec w} (high : ∀ i, n ≤ i → r.getLsbD i = false) : f r ∈ sums (images f n) := by
  induction n generalizing r with
  | zero =>
    have zero : r = 0#w := BitVec.eq_of_getLsbD_eq fun i _ => by rw [high i (Nat.zero_le i), BitVec.getLsbD_zero]
    have image : f 0#w = 0#v := by
      have double := linear 0#w 0#w
      rwa [BitVec.xor_self, BitVec.xor_self] at double
    rw [zero, image]
    exact List.mem_singleton_self _
  | succ n ih =>
    rw [images, forced_eq, mem_sums_cons]
    cases bit : r.getLsbD n with
    | false =>
      refine .inl (ih fun i above => ?_)
      rcases Nat.eq_or_lt_of_le above with same | higher
      · rw [← same, bit]
      · exact high i higher
    | true =>
      rw [← linear]
      refine .inr (ih fun i above => ?_)
      have inside : n < w := BitVec.lt_of_getLsbD bit
      rw [BitVec.getLsbD_xor, BitVec.getLsbD_twoPow]
      rcases Nat.eq_or_lt_of_le above with same | higher
      · rw [← same, bit]
        simp [inside]
      · rw [high i higher]
        simp [Nat.ne_of_lt higher]

end Crc
