import Nexus.Registry.Arithmetic
import Nexus.NetworkManager

namespace Nexus
open Binary64

/-- The literals of `updatePosition`. -/
def stepX : Binary64 := ofRat (5 / 100)
def stepY : Binary64 := ofRat (75 / 1000)

/-- One coordinate after a move. -/
def moveCoord (step v : Binary64) : Binary64 := roundToTwoDecimalPlaces (v.add step)

namespace Node

/-- What `updatePosition` does to the node itself; only satellites then send an update to the registry. -/
def updatePosition (self : Node) : Node :=
  match self.type with
  | .satellite => { self with coords := (moveCoord stepX self.coords.1, moveCoord stepY self.coords.2) }
  | .ground => self
  | .unknown => self

/-- The assignment of `updatePosition` to `coords.first`. -/
def moveFirst (self : Node) : Node :=
  if self.type = .satellite then { self with coords := (moveCoord stepX self.coords.1, self.coords.2) } else self

/-- The assignment to `coords.second`. -/
def moveSecond (self : Node) : Node :=
  if self.type = .satellite then { self with coords := (self.coords.1, moveCoord stepY self.coords.2) } else self

/-- The node after a number of calls. -/
def updated (self : Node) (n : Nat) : Node := Node.updatePosition^[n] self

end Node

section Rounding
variable {p c : ℚ} {k : ℤ}

theorem roundHalfAway_le_half (q : ℚ) : |(roundHalfAway q : ℚ) - q| ≤ 1 / 2 := by
  unfold roundHalfAway
  split
  · have lower := Int.floor_le (q + 1 / 2)
    have upper := Int.lt_floor_add_one (q + 1 / 2)
    rw [abs_le]
    constructor <;> linarith
  · have lower := Int.le_ceil (q - 1 / 2)
    have upper := Int.ceil_lt_add_one (q - 1 / 2)
    rw [abs_le]
    constructor <;> linarith

/-- The sum of a moderate double and a step, times 100, is close to what it is without rounding. -/
theorem scaled_sum (small : |p| ≤ 2 ^ 38) (short : |c| ≤ 1) :
    ∃ s, ((finite p).add (ofRat c)).mul (finite 100) = finite s ∧ |s - (p + c) * 100| ≤ 1 / 50 := by
  have first := nearest_error_within (n := 0) (by simpa using short)
  have stepSize := abs_sub_abs_le_abs_sub (nearest c) c
  have literal : ofRat c = finite (nearest c) := ofRat_of_lt (by linarith)
  have sumSize := abs_add_le p (nearest c)
  have second := nearest_error_within (q := p + nearest c) (n := 39) (by linarith)
  have secondSize := abs_sub_abs_le_abs_sub (nearest (p + nearest c)) (p + nearest c)
  have sum : (finite p).add (finite (nearest c)) = finite (nearest (p + nearest c)) :=
    ofRat_of_lt (by linarith)
  have scale : |nearest (p + nearest c) * 100| = |nearest (p + nearest c)| * 100 := by
    rw [abs_mul, abs_of_pos (by norm_num : (0 : ℚ) < 100)]
  have third := nearest_error_within (q := nearest (p + nearest c) * 100) (n := 46) (by linarith)
  have thirdSize := abs_sub_abs_le_abs_sub (nearest (nearest (p + nearest c) * 100))
    (nearest (p + nearest c) * 100)
  refine ⟨nearest (nearest (p + nearest c) * 100), ?_, ?_⟩
  · rw [literal, sum]
    exact ofRat_of_lt (by linarith)
  · rw [abs_le] at first second third ⊢
    constructor <;> linarith

/-- A moved coordinate is the double nearest to a multiple of 0.01. -/
theorem moveCoord_finite (small : |p| ≤ 2 ^ 38) (short : |c| ≤ 1) :
    ∃ s, moveCoord (ofRat c) (finite p) = ofRat (roundHalfAway s / 100) ∧ |s - (p + c) * 100| ≤ 1 / 50 := by
  obtain ⟨s, scaled, close⟩ := scaled_sum small short
  refine ⟨s, ?_, close⟩
  rw [moveCoord, roundToTwoDecimalPlaces, scaled, round_finite, div, if_pos (by norm_num)]

theorem moveCoord_hundredths (small : |(k : ℚ)| ≤ 2 ^ 43) (short : |c| ≤ 1) :
    ∃ s, moveCoord (ofRat c) (ofRat (k / 100)) = ofRat (roundHalfAway s / 100) ∧
      |s - (k + c * 100)| ≤ 1 / 40 := by
  have size : |(k : ℚ) / 100| = |(k : ℚ)| / 100 := by rw [abs_div, abs_of_pos (by norm_num : (0 : ℚ) < 100)]
  have error := nearest_error_within (q := (k : ℚ) / 100) (n := 37) (by linarith)
  have near := abs_sub_abs_le_abs_sub (nearest (k / 100)) ((k : ℚ) / 100)
  have value : ofRat ((k : ℚ) / 100) = finite (nearest (k / 100)) := ofRat_of_lt (by linarith)
  obtain ⟨s, moved, close⟩ := moveCoord_finite (p := nearest (k / 100)) (by linarith) short
  refine ⟨s, by rw [value, moved], ?_⟩
  rw [abs_le] at error close ⊢
  constructor <;> linarith

theorem moveX_hundredths (small : |(k : ℚ)| ≤ 2 ^ 43) :
    moveCoord stepX (ofRat (k / 100)) = ofRat ((k + 5 : ℤ) / 100) := by
  obtain ⟨s, moved, close⟩ := moveCoord_hundredths small (c := 5 / 100) (by norm_num)
  have five : roundHalfAway s = k + 5 := by
    refine roundHalfAway_near ?_
    push_cast
    rw [abs_le] at close
    rw [abs_lt]
    constructor <;> linarith
  rw [stepX, moved, five]

/-- The exact middle between two multiples of 0.01 is missed by the rounding errors before it, on either side. -/
theorem moveY_hundredths (small : |(k : ℚ)| ≤ 2 ^ 43) :
    ∃ m : ℤ, (m = 7 ∨ m = 8) ∧ moveCoord stepY (ofRat (k / 100)) = ofRat ((k + m : ℤ) / 100) := by
  obtain ⟨s, moved, close⟩ := moveCoord_hundredths small (c := 75 / 1000) (by norm_num)
  have half := roundHalfAway_le_half s
  rw [abs_le] at close half
  have lower : k + 6 < roundHalfAway s := by
    have below : ((k + 6 : ℤ) : ℚ) < roundHalfAway s := by
      push_cast
      linarith
    exact_mod_cast below
  have upper : roundHalfAway s < k + 9 := by
    have above : (roundHalfAway s : ℚ) < (k + 9 : ℤ) := by
      push_cast
      linarith
    exact_mod_cast above
  refine ⟨roundHalfAway s - k, by omega, ?_⟩
  rw [stepY, moved, add_sub_cancel]

end Rounding

namespace Node

theorem updatePosition_satellite {self : Node} (satellite : self.type = .satellite) :
    self.updatePosition = { self with coords := (moveCoord stepX self.coords.1, moveCoord stepY self.coords.2) } := by
  simp only [updatePosition, satellite]

/-- Nothing but the coordinates ever changes. -/
theorem updated_eq (self : Node) (n : Nat) : self.updated n = { self with coords := (self.updated n).coords } := by
  induction n with
  | zero => rfl
  | succ n ih =>
    rw [updated, Function.iterate_succ_apply', ← updated, ih, updatePosition]
    cases self.type with
    | ground => rfl
    | satellite => rfl
    | unknown => rfl

theorem updated_succ (self : Node) (n : Nat) : self.updated (n + 1) = (self.updated n).updatePosition :=
  Function.iterate_succ_apply' _ _ _

/-- Only satellites move. -/
theorem updated_of_ne {self : Node} (other : self.type ≠ .satellite) (n : Nat) : self.updated n = self := by
  refine Function.iterate_fixed ?_ n
  unfold updatePosition
  split
  · rename_i satellite
    exact absurd satellite other
  · rfl
  · rfl

theorem updatePosition_eq (self : Node) : self.updatePosition = self.moveFirst.moveSecond := by
  by_cases satellite : self.type = .satellite
  · have first : self.moveFirst = { self with coords := (moveCoord stepX self.coords.1, self.coords.2) } :=
      if_pos satellite
    rw [updatePosition_satellite satellite, first]
    exact (if_pos satellite).symm
  · have first : self.moveFirst = self := if_neg satellite
    have second : self.moveSecond = self := if_neg satellite
    rw [first, second]
    exact updated_of_ne satellite 1

section Runs
variable {self : Node} {p q : ℚ}

/-- The coordinates after some moves, in hundredths: the first as it would be without rounding but for the first move,
the second by 7 or 8 hundredths further with every move. -/
structure Drifted (p q : ℚ) (n : Nat) (coords : Binary64 × Binary64) : Prop where
  x : ∃ k : ℤ, coords.1 = ofRat (k / 100) ∧ |k - (p * 100 + 5 * n)| ≤ 13 / 25
  y : ∃ k : ℤ, coords.2 = ofRat (k / 100) ∧ q * 100 + 7 * n - 1 / 50 ≤ k ∧ k ≤ q * 100 + 8 * n + 1 / 50

theorem Drifted.first (smallX : |p| ≤ 2 ^ 38) (smallY : |q| ≤ 2 ^ 38) :
    Drifted p q 1 (moveCoord stepX (finite p), moveCoord stepY (finite q)) := by
  obtain ⟨s, movedX, closeX⟩ := moveCoord_finite smallX (c := 5 / 100) (by norm_num)
  obtain ⟨t, movedY, closeY⟩ := moveCoord_finite smallY (c := 75 / 1000) (by norm_num)
  have halfX := roundHalfAway_le_half s
  have halfY := roundHalfAway_le_half t
  rw [abs_le] at closeX closeY halfX halfY
  constructor
  · refine ⟨_, movedX, ?_⟩
    push_cast
    rw [abs_le]
    constructor <;> linarith
  · refine ⟨_, movedY, ?_, ?_⟩
    · push_cast
      linarith
    · push_cast
      linarith

section Bounds
variable {n : Nat} {x y : Binary64} {b : ℚ}

theorem Drifted.small_x (drifted : Drifted p q n (x, y)) (small : |p| * 100 + 8 * n + 1 ≤ b) :
    ∃ k : ℤ, x = ofRat (k / 100) ∧ |k - (p * 100 + 5 * n)| ≤ 13 / 25 ∧ |(k : ℚ)| ≤ b := by
  obtain ⟨k, place, close⟩ := drifted.x
  have edges := abs_le.mp (le_refl |p|)
  have count : (0 : ℚ) ≤ n := Nat.cast_nonneg n
  have range := abs_le.mp close
  refine ⟨k, place, close, abs_le.mpr ⟨?_, ?_⟩⟩
  · linarith
  · linarith

theorem Drifted.small_y (drifted : Drifted p q n (x, y)) (small : |q| * 100 + 8 * n + 1 ≤ b) :
    ∃ k : ℤ, y = ofRat (k / 100) ∧ (q * 100 + 7 * n - 1 / 50 ≤ k ∧ k ≤ q * 100 + 8 * n + 1 / 50) ∧
      |(k : ℚ)| ≤ b := by
  obtain ⟨k, place, lower, upper⟩ := drifted.y
  have edges := abs_le.mp (le_refl |q|)
  have count : (0 : ℚ) ≤ n := Nat.cast_nonneg n
  refine ⟨k, place, ⟨lower, upper⟩, abs_le.mpr ⟨?_, ?_⟩⟩
  · linarith
  · linarith

end Bounds

theorem Drifted.next {n : Nat} {x y : Binary64} (drifted : Drifted p q n (x, y))
    (smallX : |p| * 100 + 8 * n + 1 ≤ 2 ^ 43) (smallY : |q| * 100 + 8 * n + 1 ≤ 2 ^ 43) :
    Drifted p q (n + 1) (moveCoord stepX x, moveCoord stepY y) := by
  obtain ⟨k, rfl, closeX, boundX⟩ := drifted.small_x smallX
  obtain ⟨l, rfl, ⟨lower, upper⟩, boundY⟩ := drifted.small_y smallY
  obtain ⟨m, seven_or_eight, movedY⟩ := moveY_hundredths boundY
  have range := abs_le.mp closeX
  have least : (7 : ℚ) ≤ m := by exact_mod_cast (by omega : 7 ≤ m)
  have most : (m : ℚ) ≤ 8 := by exact_mod_cast (by omega : m ≤ 8)
  constructor
  · refine ⟨k + 5, moveX_hundredths boundX, abs_le.mpr ⟨?_, ?_⟩⟩
    · push_cast
      linarith
    · push_cast
      linarith
  · refine ⟨l + m, movedY, ?_, ?_⟩
    · push_cast
      linarith
    · push_cast
      linarith

theorem Drifted.run {self : Node} (satellite : self.type = .satellite) (start : self.coords = (finite p, finite q))
    {n : Nat} (smallX : |p| * 100 + 8 * n + 1 ≤ 2 ^ 43) (smallY : |q| * 100 + 8 * n + 1 ≤ 2 ^ 43) :
    Drifted p q (n + 1) (self.updated (n + 1)).coords := by
  have step : ∀ m, (self.updated (m + 1)).coords =
      (moveCoord stepX (self.updated m).coords.1, moveCoord stepY (self.updated m).coords.2) := by
    intro m
    have kind : (self.updated m).type = .satellite := by
      rw [updated_eq]
      exact satellite
    rw [updated_succ, updatePosition_satellite kind]
  induction n with
  | zero =>
    have rest : (self.updated 0).coords = (finite p, finite q) := start
    rw [step, rest]
    exact Drifted.first (by push_cast at smallX; linarith) (by push_cast at smallY; linarith)
  | succ n ih =>
    push_cast at smallX smallY
    have before := ih (by linarith) (by linarith)
    rw [step]
    exact before.next (by push_cast; linarith) (by push_cast; linarith)

end Runs

/-- A satellite's coordinates are multiples of 0.01 after every move. The first never strays from an exact motion by
more than the rounding of its first move, the second keeps between 0.07 and 0.08 a move; the registry stores both as
they are. No other field changes, and no other node moves. -/
theorem updated_drifted (self : Node) (p q : ℚ) (start : self.coords = (finite p, finite q)) (n : Nat)
    (smallX : |p| * 100 + 8 * n + 9 ≤ 2 ^ 43) (smallY : |q| * 100 + 8 * n + 9 ≤ 2 ^ 43) :
    self.updated (n + 1) = { self with coords := (self.updated (n + 1)).coords } ∧
      (self.type ≠ .satellite → self.updated (n + 1) = self) ∧
      (self.type = .satellite → Drifted p q (n + 1) (self.updated (n + 1)).coords ∧
        roundToTwoDecimalPlaces (self.updated (n + 1)).coords.1 = (self.updated (n + 1)).coords.1 ∧
        roundToTwoDecimalPlaces (self.updated (n + 1)).coords.2 = (self.updated (n + 1)).coords.2) := by
  refine ⟨self.updated_eq (n + 1), fun other => updated_of_ne other (n + 1), fun satellite => ?_⟩
  have drifted := Drifted.run satellite start (n := n) (by linarith) (by linarith)
  obtain ⟨k, atX, _, boundX⟩ := drifted.small_x (b := 2 ^ 43) (by push_cast; linarith)
  obtain ⟨l, atY, _, boundY⟩ := drifted.small_y (b := 2 ^ 43) (by push_cast; linarith)
  have kept : ∀ {m : ℤ}, |(m : ℚ)| ≤ 2 ^ 43 → roundToTwoDecimalPlaces (ofRat (m / 100)) = ofRat (m / 100) := by
    intro m bound
    have whole : |m| ≤ 2 ^ 43 := by exact_mod_cast bound
    exact roundToTwoDecimalPlaces_hundredths (by omega)
  refine ⟨drifted, ?_, ?_⟩
  · rw [atX, kept boundX]
  · rw [atY, kept boundY]

namespace orbit

def sat1 : Node := ⟨.satellite, "1", "sat1", "127.0.0.1", 33001, (finite 0, finite 0)⟩

theorem updated_drifted_sat1 :
    sat1.updated (6 + 1) = { sat1 with coords := (sat1.updated (6 + 1)).coords } ∧
      (sat1.type ≠ .satellite → sat1.updated (6 + 1) = sat1) ∧
      (sat1.type = .satellite → Drifted 0 0 (6 + 1) (sat1.updated (6 + 1)).coords ∧
        roundToTwoDecimalPlaces (sat1.updated (6 + 1)).coords.1 = (sat1.updated (6 + 1)).coords.1 ∧
        roundToTwoDecimalPlaces (sat1.updated (6 + 1)).coords.2 = (sat1.updated (6 + 1)).coords.2) :=
  updated_drifted sat1 0 0 rfl 6 (by norm_num) (by norm_num)

end orbit
end Node
end Nexus
