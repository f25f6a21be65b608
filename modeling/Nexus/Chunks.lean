import Mathlib.Data.List.Basic

namespace Chunks
variable {α : Type}

/-- The number of pieces of `length` entries. -/
def total (length size : Nat) : Nat := (length + size - 1) / size

/-- The piece at position `i`. -/
def chunk (size : Nat) (l : List α) (i : Nat) : List α := (l.drop (i * size)).take size

variable {size : Nat}

theorem length_le_total_mul (positive : 0 < size) (length : Nat) : length ≤ total length size * size := by
  have divided := Nat.div_add_mod (length + size - 1) size
  have remainder := Nat.mod_lt (length + size - 1) positive
  have swap := Nat.mul_comm size (total length size)
  unfold total at swap ⊢
  omega

theorem total_pos (positive : 0 < size) {length : Nat} (nonempty : 0 < length) : 0 < total length size :=
  Nat.div_pos (by omega) positive

theorem flatMap_chunk (size : Nat) (l : List α) (k : Nat) :
    (List.range k).flatMap (chunk size l) = l.take (k * size) := by
  induction k with
  | zero => simp
  | succ k ih =>
    rw [List.range_succ, List.flatMap_append, ih, List.flatMap_singleton, Nat.succ_mul, List.take_add, chunk]

/-- The pieces make up the list again. -/
theorem flatten_chunks (positive : 0 < size) (l : List α) :
    ((List.range (total l.length size)).map (chunk size l)).flatten = l := by
  rw [← List.flatMap_def, flatMap_chunk, List.take_of_length_le (length_le_total_mul positive l.length)]

theorem length_chunk_le (size : Nat) (l : List α) (i : Nat) : (chunk size l i).length ≤ min size l.length := by
  rw [chunk, List.length_take, List.length_drop]
  omega

theorem length_chunk_zero (size : Nat) (l : List α) : (chunk size l 0).length = min size l.length := by
  rw [chunk, Nat.zero_mul, List.drop_zero, List.length_take]

/-- Pieces that are cut off at `n` entries make up the list only if none is longer. -/
theorem flatten_map_take_eq_iff {pieces : List (List α)} {n : Nat} :
    (pieces.map (List.take n)).flatten = pieces.flatten ↔ ∀ piece ∈ pieces, piece.length ≤ n := by
  have shorter : ∀ pieces : List (List α), (pieces.map (List.take n)).flatten.length ≤ pieces.flatten.length := by
    intro pieces
    induction pieces with
    | nil => exact Nat.le_refl _
    | cons piece rest ih =>
      simp only [List.map_cons, List.flatten_cons, List.length_append, List.length_take]
      omega
  induction pieces with
  | nil => simp
  | cons piece rest ih =>
    rw [List.map_cons, List.flatten_cons, List.flatten_cons, List.forall_mem_cons]
    constructor
    · intro same
      have lengths := congrArg List.length same
      have after := shorter rest
      simp only [List.length_append, List.length_take] at lengths
      have fits : piece.length ≤ n := by omega
      rw [List.take_of_length_le fits] at same
      exact ⟨fits, ih.mp (List.append_cancel_left same)⟩
    · rintro ⟨fits, others⟩
      rw [List.take_of_length_le fits, ih.mpr others]

end Chunks
