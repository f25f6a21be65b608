import Nexus.Binary64
import Nexus.Numeral

namespace FloatText
open Binary64 Numeral

def isSpace (c : Char) : Bool := c = ' ' || (9 ≤ c.toNat && c.toNat ≤ 13)

def decimalDigit (c : Char) : Option Nat := if c.isDigit then some (c.toNat - '0'.toNat) else none

def hexDigit (c : Char) : Option Nat :=
  if c.isDigit then some (c.toNat - '0'.toNat)
  else if 'a' ≤ c.toLower ∧ c.toLower ≤ 'f' then some (c.toLower.toNat - 'a'.toNat + 10)
  else none

/-- The digits at the start of a text, and what follows them. -/
def spanDigits (digit : Char → Option Nat) : List Char → List Nat × List Char
  | [] => ([], [])
  | c :: rest =>
    match digit c with
    | some d => (d :: (spanDigits digit rest).1, (spanDigits digit rest).2)
    | none => ([], c :: rest)

def digitsValue (base : Nat) (digits : List Nat) : Nat := digits.foldl (fun value d => value * base + d) 0

def sign : List Char → Bool × List Char
  | '-' :: rest => (true, rest)
  | '+' :: rest => (false, rest)
  | rest => (false, rest)

def signed (negative : Bool) (q : ℚ) : ℚ := if negative then -q else q

/-- The exponent after its marker; a marker without digits does not count. -/
def exponent (marker : Char) : List Char → ℤ
  | [] => 0
  | c :: rest =>
    if c.toLower = marker then
      let value : ℤ := digitsValue 10 (spanDigits decimalDigit (sign rest).2).1
      if (sign rest).1 then -value else value
    else 0

/-- Digits with an optional point and an optional exponent. -/
def number (digit : Char → Option Nat) (base radix : Nat) (marker : Char) (text : List Char) : Option ℚ :=
  let (whole, rest) := spanDigits digit text
  let (fraction, rest) :=
    match rest with
    | '.' :: rest => spanDigits digit rest
    | rest => ([], rest)
  if whole ++ fraction = [] then none
  else some (digitsValue base (whole ++ fraction) / base ^ fraction.length * radix ^ exponent marker rest)

/-- The decimal number at the start of a text, after white space, unrounded. -/
def decimalValue (text : List Char) : Option ℚ :=
  let (negative, rest) := sign (text.dropWhile isSpace)
  (number decimalDigit 10 10 'e' rest).map (signed negative)

def startsWith (word : String) (text : List Char) : Bool := word.toList.isPrefixOf (text.map Char.toLower)

inductive Outcome
  | noConversion
  | outOfRange
  | value (v : Binary64)
  deriving DecidableEq

/-- A number below the normal range, where 53 bits of it do not round up to 2^-1022, is in range only if it is exact. -/
def inRange (q : ℚ) : Binary64 → Outcome
  | finite r => if |q| < 2 ^ (-1022 : ℤ) - 2 ^ (-1076 : ℤ) ∧ r ≠ q then .outOfRange else .value (finite r)
  | infinity _ => .outOfRange
  | nan => .value nan

def convert (q : ℚ) : Outcome := inRange q (ofRat q)

/-- What `strtod` reads at the start of a text, after white space. -/
def strtod (text : List Char) : Outcome :=
  let (negative, rest) := sign (text.dropWhile isSpace)
  if startsWith "inf" rest then .value (infinity negative)
  else if startsWith "nan" rest then .value nan
  else if startsWith "0x" rest then
    match number hexDigit 16 2 'p' (rest.drop 2) with
    | some q => convert (signed negative q)
    | none => .value (finite 0)
  else
    match number decimalDigit 10 10 'e' rest with
    | some q => convert (signed negative q)
    | none => .noConversion

section Decimal
variable {text : List Char}

theorem spanDigits_decimal (digits : ∀ c ∈ text, c.isDigit) :
    spanDigits decimalDigit text = (text.map fun c => c.toNat - '0'.toNat, []) := by
  induction text with
  | nil => rfl
  | cons c rest ih =>
    have first : decimalDigit c = some (c.toNat - '0'.toNat) := if_pos (digits c List.mem_cons_self)
    rw [spanDigits, first, ih fun d member => digits d (List.mem_cons_of_mem c member), List.map_cons]

theorem digitsValue_decimal (n : ℕ) : digitsValue 10 ((decimal n).map fun c => c.toNat - '0'.toNat) = n := by
  have back := Nat.ofDigitChars_ten_toDigits (n := n)
  rw [Nat.ofDigitChars_eq_foldl] at back
  rw [digitsValue, List.foldl_map]
  simpa only [decimal, Nat.mul_comm] using back

theorem toLower_of_isDigit {c : Char} (digit : c.isDigit) : c.toLower = c := by
  have small := (Char.isDigit_iff_toNat.mp digit).2
  unfold Char.toLower
  rw [dif_neg]
  intro ⟨upper, _⟩
  have large : 'A'.toNat ≤ c.toNat := upper
  have order : '9'.toNat < 'A'.toNat := by decide
  omega

/-- No word with a letter starts a text of digits. -/
theorem not_startsWith (digits : ∀ c ∈ text, c.isDigit) {word : String} {letter : Char}
    (member : letter ∈ word.toList) (notDigit : letter.isDigit = false) : startsWith word text = false := by
  rw [Bool.eq_false_iff]
  intro start
  have among := (List.isPrefixOf_iff_prefix.mp start).subset member
  obtain ⟨c, inText, lower⟩ := List.mem_map.mp among
  rw [toLower_of_isDigit (digits c inText)] at lower
  rw [← lower, digits c inText] at notDigit
  cases notDigit

theorem isSpace_of_isDigit {c : Char} (digit : c.isDigit) : isSpace c = false := by
  have large := (Char.isDigit_iff_toNat.mp digit).1
  have order : '0'.toNat = 48 := by decide
  have notSpace : c ≠ ' ' := by
    intro same
    rw [same] at digit
    revert digit
    decide
  have above : ¬c.toNat ≤ 13 := by omega
  simp [isSpace, notSpace, above]

theorem sign_of_isDigit {c : Char} (digit : c.isDigit) (rest : List Char) :
    sign (c :: rest) = (false, c :: rest) := by
  unfold sign
  split
  · rename_i same
    rw [(List.cons.inj same).1] at digit
    exact absurd digit (by decide)
  · rename_i same
    rw [(List.cons.inj same).1] at digit
    exact absurd digit (by decide)
  · rfl

theorem number_decimal (n : ℕ) : number decimalDigit 10 10 'e' (decimal n) = some (n : ℚ) := by
  have nonempty : (decimal n).map (fun c => c.toNat - '0'.toNat) ≠ [] := by
    rw [ne_eq, List.map_eq_nil_iff]
    exact decimal_ne_nil n
  rw [number, spanDigits_decimal fun c member => isDigit_of_mem member]
  simp only [List.append_nil, if_neg nonempty, digitsValue_decimal, exponent, List.length_nil, pow_zero, div_one,
    zpow_zero, mul_one]

/-- A number written in decimal digits is read as itself. -/
theorem strtod_decimal {n : ℕ} (small : n < 2 ^ 53) : strtod (decimal n) = .value (finite n) := by
  have digits : ∀ c ∈ decimal n, c.isDigit := fun c member => isDigit_of_mem member
  obtain ⟨first, rest, split⟩ := List.exists_cons_of_ne_nil (decimal_ne_nil n)
  have digit : first.isDigit := digits first (split ▸ List.mem_cons_self)
  have plain : sign ((decimal n).dropWhile isSpace) = (false, decimal n) := by
    rw [split, List.dropWhile_cons_of_neg (by simp [isSpace_of_isDigit digit]), sign_of_isDigit digit]
  have exact : convert (signed false n) = .value (finite n) := by
    have same : signed false (n : ℚ) = n := if_neg (by decide)
    rw [same, convert, ofRat_natCast small, inRange, if_neg fun both => both.2 rfl]
  have inf := not_startsWith digits (by decide : 'i' ∈ "inf".toList) (by decide)
  have nan := not_startsWith digits (by decide : 'n' ∈ "nan".toList) (by decide)
  have hex := not_startsWith digits (by decide : 'x' ∈ "0x".toList) (by decide)
  simp only [strtod, plain, inf, nan, hex, Bool.false_eq_true, if_false, number_decimal, exact]

end Decimal
end FloatText
