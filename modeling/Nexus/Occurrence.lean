import Mathlib.Data.List.Infix

namespace Occurrence
universe u
variable {α : Type u} [DecidableEq α] {pattern text : List α}

/-- The position of the first occurrence of a pattern. -/
def find (pattern : List α) : List α → Option Nat
  | [] => if pattern = [] then some 0 else none
  | c :: rest => if pattern <+: c :: rest then some 0 else (find pattern rest).map (· + 1)

theorem prefix_of_find {i : Nat} (found : find pattern text = some i) : pattern <+: text.drop i := by
  induction text generalizing i with
  | nil =>
    rw [find] at found
    split at found
    · rename_i empty
      rw [empty]
      exact List.nil_prefix
    · cases found
  | cons c rest ih =>
    rw [find] at found
    split at found
    · rename_i here
      rw [← Option.some.inj found]
      exact here
    · obtain ⟨j, later, rfl⟩ := Option.map_eq_some_iff.mp found
      exact ih later

theorem find_le {i : Nat} (occurs : pattern <+: text.drop i) : ∃ j ≤ i, find pattern text = some j := by
  induction text generalizing i with
  | nil =>
    rw [List.drop_nil, List.prefix_nil] at occurs
    exact ⟨0, Nat.zero_le i, by rw [find, if_pos occurs]⟩
  | cons c rest ih =>
    by_cases here : pattern <+: c :: rest
    · exact ⟨0, Nat.zero_le i, by rw [find, if_pos here]⟩
    · cases i with
      | zero => exact absurd occurs here
      | succ i =>
        obtain ⟨j, early, found⟩ := ih occurs
        exact ⟨j + 1, Nat.succ_le_succ early, by rw [find, if_neg here, found, Option.map_some]⟩

theorem find_of_prefix (here : pattern <+: text) : find pattern text = some 0 := by
  obtain ⟨j, first, found⟩ := find_le (show pattern <+: text.drop 0 from here)
  rw [found, Nat.le_zero.mp first]

/-- No occurrence starts in a word without the first letter of the pattern. -/
theorem find_append {c : α} {word : List α} (free : c ∉ word) (text : List α) :
    find (c :: pattern) (word ++ text) = (find (c :: pattern) text).map (· + word.length) := by
  induction word with
  | nil => simp
  | cons d word ih =>
    have apart : ¬c :: pattern <+: d :: (word ++ text) := fun start =>
      free ((List.cons_prefix_cons.mp start).1 ▸ List.mem_cons_self)
    rw [List.cons_append, find, if_neg apart, ih (fun inside => free (List.mem_cons_of_mem d inside)),
      Option.map_map]
    rfl

theorem find_le_of_part {part : List α} (start : part <+: text) {j : Nat} (early : find pattern part = some j) :
    ∃ i ≤ j, find pattern text = some i :=
  find_le ((prefix_of_find early).trans (start.drop j))

/-- A part of the text up to some place ends before the first occurrence does, or has the same first occurrence. -/
theorem find_part {part : List α} (start : part <+: text) {i : Nat} (found : find pattern text = some i)
    (proper : pattern ≠ []) :
    find pattern part = some i ∨ find pattern part = none ∧ part.length < i + pattern.length := by
  by_cases short : part.length < i + pattern.length
  · refine Or.inr ⟨?_, short⟩
    cases early : find pattern part with
    | none => rfl
    | some j =>
      obtain ⟨k, before, same⟩ := find_le_of_part start early
      have first : i = k := Option.some.inj (found.symm.trans same)
      have size := (prefix_of_find early).length_le
      have positive := List.length_pos_iff.mpr proper
      rw [List.length_drop] at size
      omega
  · refine Or.inl ?_
    have inside : pattern <+: part.drop i := by
      refine List.prefix_of_prefix_length_le (prefix_of_find found) (start.drop i) ?_
      rw [List.length_drop]
      omega
    obtain ⟨j, before, early⟩ := find_le inside
    obtain ⟨k, before', same⟩ := find_le_of_part start early
    have first : i = k := Option.some.inj (found.symm.trans same)
    have same : j = i := by omega
    rw [early, same]

end Occurrence
