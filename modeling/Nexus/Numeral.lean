import Mathlib.Data.List.Infix

namespace Numeral
universe u

section Words
variable {α : Type u} {sep : α} {a b : List α}

/-- A word without the separator that starts such a closed word starts the word itself. -/
theorem prefix_append_cons (free : sep ∉ a) (y : List α) : a <+: b ++ sep :: y ↔ a <+: b := by
  constructor
  · intro start
    rcases List.prefix_or_prefix_of_prefix start (List.prefix_append b (sep :: y)) with shorter | longer
    · exact shorter
    · obtain ⟨rest, rfl⟩ := longer
      rw [List.prefix_append_right_inj] at start
      cases rest with
      | nil => simp
      | cons c rest =>
        rw [List.cons_prefix_cons] at start
        exact (free (start.1 ▸ List.mem_append_right b List.mem_cons_self)).elim
  · exact fun start => List.prefix_append_of_prefix start

theorem closed_prefix_closed (freeA : sep ∉ a) (freeB : sep ∉ b) (x y : List α) :
    a ++ sep :: x <+: b ++ sep :: y ↔ a = b ∧ x <+: y := by
  constructor
  · intro start
    obtain ⟨rest, rfl⟩ := (prefix_append_cons freeA y).mp ((List.prefix_append a (sep :: x)).trans start)
    rw [List.append_assoc, List.prefix_append_right_inj] at start
    cases rest with
    | nil => exact ⟨(List.append_nil a).symm, (List.cons_prefix_cons.mp start).2⟩
    | cons c rest =>
      rw [List.cons_append, List.cons_prefix_cons] at start
      exact (freeB (start.1 ▸ List.mem_append_right a List.mem_cons_self)).elim
  · rintro ⟨rfl, start⟩
    rw [List.prefix_append_right_inj]
    exact List.cons_prefix_cons.mpr ⟨rfl, start⟩

theorem closed_inj (freeA : sep ∉ a) (freeB : sep ∉ b) (x y : List α) :
    a ++ sep :: x = b ++ sep :: y ↔ a = b ∧ x = y := by
  constructor
  · intro same
    obtain ⟨rfl, _⟩ := (closed_prefix_closed freeA freeB x y).mp (same ▸ List.prefix_refl _)
    exact ⟨rfl, (List.cons.inj (List.append_cancel_left same)).2⟩
  · rintro ⟨rfl, rfl⟩
    rfl

theorem mem_intercalate {words : List (List α)} {c : α} (member : c ∈ [sep].intercalate words) :
    c = sep ∨ ∃ word ∈ words, c ∈ word := by
  induction words with
  | nil => exact (List.not_mem_nil member).elim
  | cons word words ih =>
    by_cases last : words = []
    · subst words
      exact Or.inr ⟨word, List.mem_cons_self, by simpa using member⟩
    · rw [List.intercalate_cons_of_ne_nil last, List.append_assoc, List.mem_append, List.mem_append,
        List.mem_singleton] at member
      rcases member with inside | here | later
      · exact Or.inr ⟨word, List.mem_cons_self, inside⟩
      · exact Or.inl here
      · rcases ih later with here | ⟨other, among, inside⟩
        · exact Or.inl here
        · exact Or.inr ⟨other, List.mem_cons_of_mem word among, inside⟩

end Words

def decimal (n : Nat) : List Char := Nat.toDigits 10 n

theorem decimal_injective {m n : Nat} (same : decimal m = decimal n) : m = n := by
  have back := congrArg (fun digits => Nat.ofDigitChars 10 digits 0) same
  simpa only [decimal, Nat.ofDigitChars_ten_toDigits] using back

@[simp] theorem decimal_inj {m n : Nat} : decimal m = decimal n ↔ m = n :=
  ⟨decimal_injective, congrArg decimal⟩

theorem toList_toString (n : Nat) : (toString (n : Int)).toList = decimal n := by
  show (toString n).toList = _
  rw [Nat.toString_eq_repr, Nat.repr, String.toList_ofList, decimal]

theorem decimal_ne_nil (n : Nat) : decimal n ≠ [] := Nat.toDigits_ne_nil

theorem isDigit_of_mem {c : Char} {n : Nat} (member : c ∈ decimal n) : c.isDigit :=
  Nat.isDigit_of_mem_toDigits (by omega) (by omega) member

theorem notMem_decimal {c : Char} (notDigit : c.isDigit = false) (n : Nat) : c ∉ decimal n := by
  intro member
  rw [isDigit_of_mem member] at notDigit
  cases notDigit

end Numeral
