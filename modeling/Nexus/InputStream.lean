import Mathlib.Data.List.TakeWhile

/-- The characters to come, or that a read has met the end of the input. -/
inductive InputStream (α : Type)
  | good (rest : List α)
  | ended
  deriving DecidableEq

namespace InputStream
variable {α : Type}

/-- A word that ends with the input is read to that end. -/
def afterWord : List α → InputStream α
  | [] => ended
  | c :: rest => good (c :: rest)

section Words
variable (blank : α → Bool)

/-- The next word, as `>>` reads it into a string that holds `old`. -/
def word (old : List α) : InputStream α → List α × InputStream α
  | good rest =>
    match rest.dropWhile blank with
    | [] => (old, ended)
    | c :: rest => ((c :: rest).takeWhile fun d => !blank d, afterWord ((c :: rest).dropWhile fun d => !blank d))
  | ended => (old, ended)

/-- A text of blanks, a word, and then its end or a blank. -/
def Ahead (w text rest : List α) : Prop :=
  ∃ blanks, text = blanks ++ (w ++ rest) ∧ (∀ c ∈ blanks, blank c = true) ∧ w ≠ [] ∧
    (∀ c ∈ w, blank c = false) ∧ ∀ c ∈ rest.head?, blank c = true

end Words

section Lines
variable [DecidableEq α] (eol : α)

/-- `ignore` up to the end of the line. -/
def skipLine : InputStream α → InputStream α
  | good rest =>
    match rest.dropWhile fun c => c ≠ eol with
    | [] => ended
    | _ :: rest => good rest
  | ended => ended

/-- The rest of the line, as `getline` reads it into a string that holds `old`. -/
def line (old : List α) : InputStream α → List α × InputStream α
  | good rest =>
    match rest.dropWhile fun c => c ≠ eol with
    | [] => (rest, ended)
    | _ :: after => (rest.takeWhile fun c => c ≠ eol, good after)
  | ended => (old, ended)

end Lines

/-- A text that starts with a line. -/
def Line (eol : α) (l text rest : List α) : Prop := text = l ++ eol :: rest ∧ eol ∉ l

section Ended
variable {old : List α}

@[simp]
theorem word_ended (blank : α → Bool) : (ended : InputStream α).word blank old = (old, ended) := rfl

variable [DecidableEq α] {eol : α}

@[simp]
theorem skipLine_ended : (ended : InputStream α).skipLine eol = ended := rfl

@[simp]
theorem line_ended : (ended : InputStream α).line eol old = (old, ended) := rfl

end Ended

section Reading
variable {blank : α → Bool} {s : InputStream α} {old w text rest : List α}

theorem afterWord_eq_good : afterWord text = good rest ↔ text = rest ∧ rest ≠ [] := by
  cases text with
  | nil => simp [afterWord, eq_comm]
  | cons c text =>
    simp only [afterWord, good.injEq]
    exact ⟨fun same => ⟨same, same ▸ List.cons_ne_nil c text⟩, And.left⟩

theorem Ahead.length_lt (ahead : Ahead blank w text rest) : rest.length < text.length := by
  obtain ⟨blanks, rfl, -, nonempty, -⟩ := ahead
  have positive := List.length_pos_iff.mpr nonempty
  simp only [List.length_append]
  omega

theorem Ahead.suffix (ahead : Ahead blank w text rest) : rest <:+ text := by
  obtain ⟨blanks, rfl, -⟩ := ahead
  exact ⟨blanks ++ w, List.append_assoc blanks w rest⟩

theorem Ahead.word (ahead : Ahead blank w text rest) (old : List α) :
    (good text).word blank old = (w, afterWord rest) := by
  obtain ⟨blanks, rfl, lead, nonempty, solid, after⟩ := ahead
  obtain ⟨c, w, rfl⟩ := List.exists_cons_of_ne_nil nonempty
  have dropped : (blanks ++ (c :: w ++ rest)).dropWhile blank = c :: (w ++ rest) := by
    rw [List.dropWhile_append_of_pos lead, List.cons_append,
      List.dropWhile_cons_of_neg (by simp [solid c List.mem_cons_self])]
  have within : ∀ d ∈ c :: w, (!blank d) = true := fun d member => by simp [solid d member]
  have stop : (rest.takeWhile fun d => !blank d) = [] ∧ (rest.dropWhile fun d => !blank d) = rest := by
    cases rest with
    | nil => exact ⟨rfl, rfl⟩
    | cons d rest => simp [after d rfl]
  simp only [InputStream.word, dropped]
  rw [← List.cons_append, List.takeWhile_append_of_pos within, List.dropWhile_append_of_pos within, stop.1, stop.2,
    List.append_nil]

theorem Ahead.reads (ahead : Ahead blank w text rest) (more : rest ≠ []) (old : List α) :
    (good text).word blank old = (w, good rest) := by
  rw [ahead.word, afterWord_eq_good.mpr ⟨rfl, more⟩]

/-- A read finds a word, or it leaves the old one and has met the end. -/
theorem word_cases (blank : α → Bool) (old : List α) (s : InputStream α) :
    (∃ text w rest, s = good text ∧ Ahead blank w text rest ∧ s.word blank old = (w, afterWord rest)) ∨
      s.word blank old = (old, ended) := by
  cases s with
  | ended => exact .inr rfl
  | good text =>
    cases dropped : text.dropWhile blank with
    | nil => exact .inr (by simp only [word, dropped])
    | cons c rest =>
      have result : (good text).word blank old = ((c :: rest).takeWhile fun d => !blank d,
          afterWord ((c :: rest).dropWhile fun d => !blank d)) := by
        simp only [word, dropped]
      refine .inl ⟨text, _, _, rfl, ⟨text.takeWhile blank, ?_, fun c member => List.mem_takeWhile_imp member, ?_, ?_,
        ?_⟩, result⟩
      · rw [List.takeWhile_append_dropWhile, ← dropped, List.takeWhile_append_dropWhile]
      · have head := List.head?_dropWhile_not blank text
        rw [dropped] at head
        simp only [List.head?_cons] at head
        simp [head]
      · intro d member
        simpa using List.mem_takeWhile_imp member
      · intro d member
        have head := List.head?_dropWhile_not (fun d => !blank d) (c :: rest)
        rw [member] at head
        simpa using head

theorem word_eq_good : s.word blank old = (w, good rest) ↔
    ∃ text, s = good text ∧ Ahead blank w text rest ∧ rest ≠ [] := by
  constructor
  · intro read
    rcases word_cases blank old s with ⟨text, w', rest', rfl, ahead, result⟩ | result
    · obtain ⟨rfl, same⟩ := Prod.mk.inj (result.symm.trans read)
      obtain ⟨rfl, more⟩ := afterWord_eq_good.mp same
      exact ⟨text, rfl, ahead, more⟩
    · cases (Prod.mk.inj (result.symm.trans read)).2
  · rintro ⟨text, rfl, ahead, more⟩
    exact ahead.reads more old

variable {eol : α} {l : List α}

theorem Line.length_lt (ahead : Line eol l text rest) : rest.length < text.length := by
  rw [ahead.1, List.length_append, List.length_cons]
  omega

theorem Line.suffix (ahead : Line eol l text rest) : rest <:+ text :=
  ⟨l ++ [eol], by rw [ahead.1, List.append_assoc, List.singleton_append]⟩

variable [DecidableEq α]

theorem Line.split (ahead : Line eol l text rest) :
    (text.dropWhile fun c => c ≠ eol) = eol :: rest ∧ (text.takeWhile fun c => c ≠ eol) = l := by
  obtain ⟨rfl, absent⟩ := ahead
  have within : ∀ c ∈ l, decide (c ≠ eol) = true := by
    intro c member
    exact decide_eq_true (ne_of_mem_of_not_mem member absent)
  rw [List.dropWhile_append_of_pos within, List.takeWhile_append_of_pos within]
  simp

theorem line_of_dropWhile {c : α} (dropped : (text.dropWhile fun c => c ≠ eol) = c :: rest) :
    Line eol (text.takeWhile fun c => c ≠ eol) text rest := by
  have same : c = eol := by
    have head := List.head?_dropWhile_not (fun c => decide (c ≠ eol)) text
    rw [dropped] at head
    simpa using head
  refine ⟨?_, fun member => by simpa using List.mem_takeWhile_imp member⟩
  have split := List.takeWhile_append_dropWhile (p := fun c => decide (c ≠ eol)) (l := text)
  rw [dropped, same] at split
  exact split.symm

theorem Line.reads (ahead : Line eol l text rest) (old : List α) : (good text).line eol old = (l, good rest) := by
  simp only [line, ahead.split]

theorem line_eq_good : s.line eol old = (l, good rest) ↔ ∃ text, s = good text ∧ Line eol l text rest := by
  constructor
  · intro read
    cases s with
    | ended => cases read
    | good text =>
      refine ⟨text, rfl, ?_⟩
      cases dropped : text.dropWhile fun c => c ≠ eol with
      | nil =>
        simp only [line, dropped] at read
        cases read
      | cons c after =>
        simp only [line, dropped] at read
        cases read
        exact line_of_dropWhile dropped
  · rintro ⟨text, rfl, ahead⟩
    exact ahead.reads old

theorem skipLine_eq_good : s.skipLine eol = good rest ↔ ∃ text l, s = good text ∧ Line eol l text rest := by
  constructor
  · intro read
    cases s with
    | ended => cases read
    | good text =>
      cases dropped : text.dropWhile fun c => c ≠ eol with
      | nil =>
        simp only [skipLine, dropped] at read
        cases read
      | cons c after =>
        simp only [skipLine, dropped] at read
        cases read
        exact ⟨text, _, rfl, line_of_dropWhile dropped⟩
  · rintro ⟨text, l, rfl, ahead⟩
    simp only [skipLine, ahead.split]

end Reading
end InputStream
