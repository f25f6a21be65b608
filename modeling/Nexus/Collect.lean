import Mathlib.Data.Finmap
import Mathlib.Order.Interval.Finset.Nat

/-- A numbered piece, with the number of pieces that make up the whole. -/
structure Collect.Piece (β : Type) where
  number : Nat
  count : Nat
  content : β

namespace Collect
variable {β : Type}

/-- The pieces that are kept, by number. -/
abbrev Slots (β : Type) := Finmap fun _ : Nat => β

/-- The contents from 1 to `k`, up to the first that is missing, and whether none is. -/
def gather (s : Slots β) : Nat → List β × Bool
  | 0 => ([], true)
  | k + 1 =>
    if (gather s k).2 then
      match s.lookup (k + 1) with
      | some content => ((gather s k).1 ++ [content], true)
      | none => ((gather s k).1, false)
    else gather s k

/-- The pieces from 1 to `k` are given up. -/
def clear (s : Slots β) : Nat → Slots β
  | 0 => s
  | k + 1 => (clear s k).erase (k + 1)

def keep (s : Slots β) (piece : Piece β) : Slots β := s.insert piece.number piece.content

/-- Each piece is kept. Whenever as many are kept as the piece says there are, the whole is put
together. -/
def arrive (s : Slots β) (piece : Piece β) : Slots β × Option (List β) :=
  if (keep s piece).keys.card = piece.count then
    (clear (keep s piece) piece.count, some (gather (keep s piece) piece.count).1)
  else (keep s piece, none)

def arriveAll (s : Slots β) : List (Piece β) → Slots β × List (Option (List β))
  | [] => (s, [])
  | piece :: rest =>
    let first := arrive s piece
    let later := arriveAll first.1 rest
    (later.1, first.2 :: later.2)

/-- The piece is the one of its number in a whole. -/
structure Piece.Of (whole : List β) (piece : Piece β) : Prop where
  count : piece.count = whole.length
  content : ∃ i, piece.number = i + 1 ∧ whole[i]? = some piece.content

/-- All that is kept are pieces of one whole. -/
def Within (whole : List β) (s : Slots β) : Prop :=
  ∀ j content, s.lookup j = some content → ∃ i, j = i + 1 ∧ whole[i]? = some content

variable {whole : List β} {s : Slots β} {piece : Piece β}

theorem lookup_clear (s : Slots β) (k j : Nat) :
    (clear s k).lookup j = if 1 ≤ j ∧ j ≤ k then none else s.lookup j := by
  induction k with
  | zero => rw [clear, if_neg (by omega)]
  | succ k ih =>
    rw [clear]
    by_cases here : j = k + 1
    · subst here
      rw [Finmap.lookup_erase, if_pos (by omega)]
    · have same : (1 ≤ j ∧ j ≤ k + 1) ↔ 1 ≤ j ∧ j ≤ k := by omega
      rw [Finmap.lookup_erase_ne here, ih]
      simp only [same]

theorem lookup_keep (s : Slots β) (piece : Piece β) (j : Nat) :
    (keep s piece).lookup j = if j = piece.number then some piece.content else s.lookup j := by
  unfold keep
  by_cases here : j = piece.number
  · rw [if_pos here, here, Finmap.lookup_insert]
  · rw [if_neg here, Finmap.lookup_insert_of_ne _ here]

/-- A piece takes the place of the one that came before under its number. -/
theorem keep_keep {later : Piece β} (same : later.number = piece.number) :
    keep (keep s piece) later = keep s later := by
  unfold keep
  rw [same, Finmap.insert_insert]

theorem arriveAll_replaced {later : Piece β} (same : later.number = piece.number) (rest : List (Piece β)) :
    arriveAll (keep s piece) (later :: rest) = arriveAll s (later :: rest) := by
  have alike : arrive (keep s piece) later = arrive s later := by rw [arrive, arrive, keep_keep same]
  rw [arriveAll, arriveAll, alike]

theorem Within.empty : Within whole ∅ := by
  intro j content present
  rw [Finmap.lookup_empty] at present
  cases present

theorem Within.keep (within : Within whole s) (of : piece.Of whole) : Within whole (keep s piece) := by
  intro j content present
  rw [lookup_keep] at present
  split at present
  · rename_i here
    cases present
    exact here ▸ of.content
  · exact within j content present

theorem Within.keys_subset (within : Within whole s) : s.keys ⊆ Finset.Icc 1 whole.length := by
  intro j member
  obtain ⟨content, present⟩ := Finmap.mem_iff.mp (Finmap.mem_keys.mp member)
  obtain ⟨i, rfl, inside⟩ := within j content present
  obtain ⟨below, _⟩ := List.getElem?_eq_some_iff.mp inside
  exact Finset.mem_Icc.mpr ⟨by omega, below⟩

/-- As long as a piece is missing, fewer are kept than there are. -/
theorem Within.card_lt (within : Within whole s) {i : Nat} (inside : i < whole.length)
    (missing : s.lookup (i + 1) = none) : s.keys.card < whole.length := by
  have rest : s.keys ⊆ (Finset.Icc 1 whole.length).erase (i + 1) := by
    intro j member
    refine Finset.mem_erase.mpr ⟨?_, within.keys_subset member⟩
    rintro rfl
    exact Finmap.lookup_eq_none.mp missing (Finmap.mem_keys.mp member)
  have less := Finset.card_le_card rest
  rw [Finset.card_erase_of_mem (Finset.mem_Icc.mpr ⟨by omega, by omega⟩), Nat.card_Icc] at less
  omega

theorem Within.clear_eq (within : Within whole s) : clear s whole.length = ∅ := by
  refine Finmap.ext_lookup fun j => ?_
  rw [lookup_clear, Finmap.lookup_empty]
  split
  · rfl
  · rename_i outside
    rw [Finmap.lookup_eq_none]
    exact fun member => outside (Finset.mem_Icc.mp (within.keys_subset (Finmap.mem_keys.mpr member)))

section Full
variable (within : Within whole s) (full : s.keys.card = whole.length)
include within full

theorem Within.lookup_of_full {i : Nat} (inside : i < whole.length) : s.lookup (i + 1) = whole[i]? := by
  cases present : s.lookup (i + 1) with
  | none =>
    have less := within.card_lt inside present
    omega
  | some content =>
    obtain ⟨i', same, content'⟩ := within _ _ present
    obtain rfl : i = i' := by omega
    exact content'.symm

theorem Within.gather_of_full {k : Nat} (below : k ≤ whole.length) : gather s k = (whole.take k, true) := by
  induction k with
  | zero => rfl
  | succ k ih =>
    have present : s.lookup (k + 1) = some whole[k] := by
      rw [within.lookup_of_full full below, List.getElem?_eq_getElem]
    rw [gather, ih (by omega), if_pos rfl, present, List.take_add_one, List.getElem?_eq_getElem below]
    rfl

end Full

/-- Once all pieces of a whole are kept, and only these, the whole is put together and nothing is left. -/
theorem arrive_of_full (within : Within whole (keep s piece)) (count : piece.count = whole.length)
    (full : (keep s piece).keys.card = whole.length) : arrive s piece = (∅, some whole) := by
  rw [arrive, if_pos (full.trans count.symm), count, within.clear_eq,
    within.gather_of_full full (Nat.le_refl _), List.take_length]

theorem arrive_of_missing (within : Within whole (keep s piece)) (count : piece.count = whole.length) {i : Nat}
    (inside : i < whole.length) (missing : (keep s piece).lookup (i + 1) = none) :
    arrive s piece = (keep s piece, none) := by
  have less := within.card_lt inside missing
  rw [arrive, if_neg (by omega)]

theorem arriveAll_append (s : Slots β) (pieces rest : List (Piece β)) :
    arriveAll s (pieces ++ rest) =
      ((arriveAll (arriveAll s pieces).1 rest).1,
        (arriveAll s pieces).2 ++ (arriveAll (arriveAll s pieces).1 rest).2) := by
  induction pieces generalizing s with
  | nil => rfl
  | cons piece pieces ih => simp only [List.cons_append, arriveAll, ih]

/-- While a piece is missing, the others are kept, in whatever order and however often they come. -/
theorem arriveAll_of_missing {pieces : List (Piece β)} (within : Within whole s) {i : Nat}
    (inside : i < whole.length) (missing : s.lookup (i + 1) = none)
    (others : ∀ piece ∈ pieces, piece.Of whole ∧ piece.number ≠ i + 1) :
    ∃ s', arriveAll s pieces = (s', pieces.map fun _ => none) ∧ Within whole s' ∧
      s'.lookup (i + 1) = none ∧ ∀ j, j ∈ s' ↔ j ∈ s ∨ ∃ piece ∈ pieces, piece.number = j := by
  induction pieces generalizing s with
  | nil => exact ⟨s, rfl, within, missing, by simp⟩
  | cons piece pieces ih =>
    obtain ⟨of, different⟩ := others piece List.mem_cons_self
    have within' := within.keep of
    have missing' : (keep s piece).lookup (i + 1) = none := by
      rw [lookup_keep, if_neg (Ne.symm different), missing]
    have first := arrive_of_missing within' of.count inside missing'
    obtain ⟨s', rest, within'', missing'', members⟩ :=
      ih within' missing' fun other member => others other (List.mem_cons_of_mem piece member)
    refine ⟨s', ?_, within'', missing'', fun j => ?_⟩
    · simp only [arriveAll, first, rest, List.map_cons]
    · rw [members, keep, Finmap.mem_insert, List.exists_mem_cons_iff, eq_comm (a := j)]
      tauto

/-- The whole is put together once, when its last piece arrives, and nothing stays behind. -/
theorem arriveAll_complete {pieces : List (Piece β)} {last : Piece β}
    (all : ∀ piece ∈ pieces ++ [last], piece.Of whole)
    (every : ∀ i, i < whole.length → ∃ piece ∈ pieces ++ [last], piece.number = i + 1)
    (fresh : ∀ piece ∈ pieces, piece.number ≠ last.number) :
    arriveAll ∅ (pieces ++ [last]) = (∅, (pieces.map fun _ => none) ++ [some whole]) := by
  have ofLast := all last (List.mem_append_right pieces List.mem_cons_self)
  obtain ⟨i, number, atLast⟩ := ofLast.content
  obtain ⟨inside, _⟩ := List.getElem?_eq_some_iff.mp atLast
  obtain ⟨s, early, within, missing, members⟩ := arriveAll_of_missing Within.empty inside (Finmap.lookup_empty _)
    (fun piece member => ⟨all piece (List.mem_append_left _ member), number ▸ fresh piece member⟩)
  have within' := within.keep ofLast
  have covered : Finset.Icc 1 whole.length ⊆ (keep s last).keys := by
    intro j member
    obtain ⟨lower, upper⟩ := Finset.mem_Icc.mp member
    obtain ⟨piece, among, same⟩ := every (j - 1) (by omega)
    rw [Finmap.mem_keys, keep, Finmap.mem_insert]
    rcases List.mem_append.mp among with earlier | atEnd
    · exact Or.inr ((members j).mpr (Or.inr ⟨piece, earlier, by omega⟩))
    · rw [List.mem_singleton.mp atEnd] at same
      exact Or.inl (by omega)
  have full : (keep s last).keys.card = whole.length := by
    have upper := Finset.card_le_card within'.keys_subset
    have lower := Finset.card_le_card covered
    rw [Nat.card_Icc] at upper lower
    omega
  rw [arriveAll_append, early]
  simp only [arriveAll, arrive_of_full within' ofLast.count full]

section SeveralWholes
variable {ι : Type} {wholes : ι → List β} {before : List (ι × Piece β)} {x : ι × Piece β}

/-- The last piece of a number that has arrived, and the whole that it was for. -/
def latest (before : List (ι × Piece β)) (j : Nat) : Option (ι × Piece β) :=
  before.reverse.find? fun x => x.2.number = j

/-- What is kept is what has arrived last. -/
def Recent (s : Slots β) (before : List (ι × Piece β)) : Prop :=
  ∀ j content, s.lookup j = some content → ∃ y, latest before j = some y ∧ y.2.content = content

theorem Recent.empty : Recent ∅ ([] : List (ι × Piece β)) := by
  intro j content present
  rw [Finmap.lookup_empty] at present
  cases present

theorem latest_append (before : List (ι × Piece β)) (x : ι × Piece β) (j : Nat) :
    latest (before ++ [x]) j = if j = x.2.number then some x else latest before j := by
  unfold latest
  rw [List.reverse_append, List.reverse_singleton, List.singleton_append, List.find?_cons]
  by_cases here : j = x.2.number
  · simp [here]
  · simp [here, Ne.symm here]

theorem latest_singleton (x : ι × Piece β) (j : Nat) : latest [x] j = if j = x.2.number then some x else none :=
  latest_append [] x j

theorem Recent.keep (recent : Recent s before) (x : ι × Piece β) : Recent (keep s x.2) (before ++ [x]) := by
  intro j content present
  rw [lookup_keep] at present
  rw [latest_append]
  split at present
  · rename_i here
    exact ⟨x, if_pos here, Option.some.inj present⟩
  · rename_i elsewhere
    rw [if_neg elsewhere]
    exact recent j content present

theorem Recent.arrive (recent : Recent s before) (x : ι × Piece β) : Recent (arrive s x.2).1 (before ++ [x]) := by
  unfold Collect.arrive
  split
  · intro j content present
    rw [lookup_clear] at present
    split at present
    · cases present
    · exact recent.keep x j content present
  · exact recent.keep x

/-- What is put together is one whole, if all else that is kept then arrived last for this whole. -/
theorem Recent.output (recent : Recent s before) (all : ∀ y ∈ before ++ [x], y.2.Of (wholes y.1))
    (orderly : (Collect.keep s x.2).keys.card = x.2.count →
      ∀ j y, j ∈ s → j ≠ x.2.number → latest before j = some y → y.1 = x.1)
    {content : List β} (output : (Collect.arrive s x.2).2 = some content) : content = wholes x.1 := by
  have of := all x (List.mem_append_right before List.mem_cons_self)
  have complete : (Collect.keep s x.2).keys.card = x.2.count := by
    by_contra incomplete
    rw [Collect.arrive, if_neg incomplete] at output
    cases output
  have within : Within (wholes x.1) (Collect.keep s x.2) := by
    intro j kept present
    rw [lookup_keep] at present
    split at present
    · rename_i here
      cases present
      exact here ▸ of.content
    · rename_i elsewhere
      obtain ⟨y, last, rfl⟩ := recent j kept present
      have same := orderly complete j y (Finmap.mem_of_lookup_eq_some present) elsewhere last
      have arrived : y ∈ before := List.mem_reverse.mp (List.mem_of_find?_eq_some last)
      have number : y.2.number = j := by simpa using List.find?_some last
      rw [← same, ← number]
      exact (all y (List.mem_append_left _ arrived)).content
  rw [arrive_of_full within of.count (complete.trans of.count)] at output
  exact (Option.some.inj output).symm

end SeveralWholes
end Collect
