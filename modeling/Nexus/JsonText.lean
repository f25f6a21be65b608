import Mathlib.Data.List.Basic
import Mathlib.Data.Char

/-- What a JSON text denotes. A number is kept as it is written. -/
inductive JsonValue
  | null
  | boolean (b : Bool)
  | number (text : List Char)
  | string (s : List Char)
  | array (elements : List JsonValue)
  | object (members : List (List Char × JsonValue))

namespace JsonText

/-- A list of blanks. -/
def Blank (text : List Char) : Prop := ∀ c ∈ text, c ∈ [' ', '\t', '\n', '\r']

/-- A character that stands for itself in a string. -/
def Unescaped (c : Char) : Prop := 0x20 ≤ c.toNat ∧ c ≠ '"' ∧ c ≠ '\\'

instance (c : Char) : Decidable (Unescaped c) := inferInstanceAs (Decidable (_ ∧ _ ∧ _))

/-- The letters after a backslash, with what they stand for. -/
def escapes : List (Char × Char) :=
  [('"', '"'), ('\\', '\\'), ('/', '/'), ('b', '\x08'), ('f', '\x0c'), ('n', '\n'), ('r', '\r'), ('t', '\t')]

def hexDigit (c : Char) : Option Nat :=
  if '0' ≤ c ∧ c ≤ '9' then some (c.toNat - '0'.toNat)
  else if 'a' ≤ c ∧ c ≤ 'f' then some (c.toNat - 'a'.toNat + 10)
  else if 'A' ≤ c ∧ c ≤ 'F' then some (c.toNat - 'A'.toNat + 10)
  else none

/-- Four hexadecimal digits. -/
def codeUnit (a b c d : Char) : Option Nat := do
  let digits ← [a, b, c, d].mapM hexDigit
  pure (digits.foldl (fun u digit => u * 16 + digit) 0)

/-- What stands between the quotation marks of a string, and the string. -/
inductive Chars : List Char → List Char → Prop
  | nil : Chars [] []
  | unescaped {c : Char} {text s : List Char} (plain : Unescaped c) (rest : Chars text s) : Chars (c :: text) (c :: s)
  | escaped {e c : Char} {text s : List Char} (known : (e, c) ∈ escapes) (rest : Chars text s) :
      Chars ('\\' :: e :: text) (c :: s)
  | unicode {a b c d : Char} {u : Nat} {text s : List Char} (unit : codeUnit a b c d = some u)
      (scalar : u < 0xD800 ∨ 0xE000 ≤ u) (rest : Chars text s) :
      Chars ('\\' :: 'u' :: a :: b :: c :: d :: text) (Char.ofNat u :: s)
  | surrogates {a b c d a' b' c' d' : Char} {u v : Nat} {text s : List Char} (high : codeUnit a b c d = some u)
      (low : codeUnit a' b' c' d' = some v) (inHigh : 0xD800 ≤ u ∧ u < 0xDC00) (inLow : 0xDC00 ≤ v ∧ v < 0xE000)
      (rest : Chars text s) :
      Chars ('\\' :: 'u' :: a :: b :: c :: d :: '\\' :: 'u' :: a' :: b' :: c' :: d' :: text)
        (Char.ofNat (0x10000 + (u - 0xD800) * 0x400 + (v - 0xDC00)) :: s)

def Digits (text : List Char) : Prop := text ≠ [] ∧ ∀ c ∈ text, c.isDigit

/-- Sign, integer, fraction and exponent. -/
def Number (text : List Char) : Prop :=
  ∃ sign int frac exp, text = sign ++ int ++ frac ++ exp ∧ sign ∈ [[], ['-']] ∧
    (int = ['0'] ∨ Digits int ∧ int.head? ≠ some '0') ∧
    (frac = [] ∨ ∃ digits, Digits digits ∧ frac = '.' :: digits) ∧
    (exp = [] ∨ ∃ e sign digits, e ∈ ['e', 'E'] ∧ sign ∈ [[], ['+'], ['-']] ∧ Digits digits ∧
      exp = e :: (sign ++ digits))

mutual

/-- The grammar of values, with what each denotes. -/
inductive Denotes : List Char → JsonValue → Prop
  | null : Denotes "null".toList .null
  | true : Denotes "true".toList (.boolean Bool.true)
  | false : Denotes "false".toList (.boolean Bool.false)
  | number {text : List Char} (shape : Number text) : Denotes text (.number text)
  | string {text s : List Char} (chars : Chars text s) : Denotes ('"' :: (text ++ ['"'])) (.string s)
  | emptyArray {blank : List Char} (skip : Blank blank) : Denotes ('[' :: (blank ++ [']'])) (.array [])
  | array {text : List Char} {elements : List JsonValue} (inside : Elements text elements) :
      Denotes ('[' :: (text ++ [']'])) (.array elements)
  | emptyObject {blank : List Char} (skip : Blank blank) : Denotes ('\x7b' :: (blank ++ ['\x7d'])) (.object [])
  | object {text : List Char} {members : List (List Char × JsonValue)} (inside : Members text members) :
      Denotes ('\x7b' :: (text ++ ['\x7d'])) (.object members)

/-- The elements of an array with the commas between them. -/
inductive Elements : List Char → List JsonValue → Prop
  | last {before text after : List Char} {v : JsonValue} (skipBefore : Blank before) (value : Denotes text v)
      (skipAfter : Blank after) : Elements (before ++ (text ++ after)) [v]
  | more {before text after later : List Char} {v : JsonValue} {elements : List JsonValue} (skipBefore : Blank before)
      (value : Denotes text v) (skipAfter : Blank after) (rest : Elements later elements) :
      Elements (before ++ (text ++ (after ++ ',' :: later))) (v :: elements)

/-- The members of an object with the commas between them. -/
inductive Members : List Char → List (List Char × JsonValue) → Prop
  | last {before key between lead text after name : List Char} {v : JsonValue} (skipBefore : Blank before)
      (chars : Chars key name) (skipBetween : Blank between) (skipLead : Blank lead) (value : Denotes text v)
      (skipAfter : Blank after) :
      Members (before ++ '"' :: (key ++ '"' :: (between ++ ':' :: (lead ++ (text ++ after))))) [(name, v)]
  | more {before key between lead text after later name : List Char} {v : JsonValue}
      {members : List (List Char × JsonValue)} (skipBefore : Blank before) (chars : Chars key name)
      (skipBetween : Blank between) (skipLead : Blank lead) (value : Denotes text v) (skipAfter : Blank after)
      (rest : Members later members) :
      Members (before ++ '"' :: (key ++ '"' :: (between ++ ':' :: (lead ++ (text ++ (after ++ ',' :: later))))))
        ((name, v) :: members)

end

/-- A JSON text is a value with blanks around it. -/
def Document (text : List Char) (v : JsonValue) : Prop :=
  ∃ before inside after, text = before ++ (inside ++ after) ∧ Blank before ∧ Denotes inside v ∧ Blank after

section Strings
variable {text s : List Char}

theorem unescaped_of_all {word : List Char} (all : word.all fun c => Unescaped c) : ∀ c ∈ word, Unescaped c :=
  fun c member => of_decide_eq_true (List.all_eq_true.mp all c member)

theorem Chars.length_le (chars : Chars text s) : s.length ≤ text.length := by
  induction chars with
  | nil => exact Nat.le_refl 0
  | unescaped _ _ ih => simpa using ih
  | escaped _ _ ih =>
    simp only [List.length_cons]
    omega
  | unicode _ _ _ ih =>
    simp only [List.length_cons]
    omega
  | surrogates _ _ _ _ _ ih =>
    simp only [List.length_cons]
    omega

/-- Only a string without escapes is as long as its text. -/
theorem Chars.eq_of_length (chars : Chars text s) (short : text.length ≤ s.length) :
    text = s ∧ ∀ c ∈ s, Unescaped c := by
  induction chars with
  | nil => exact ⟨rfl, fun c impossible => absurd impossible List.not_mem_nil⟩
  | unescaped plain _ ih =>
    obtain ⟨same, all⟩ := ih (by simpa using short)
    exact ⟨by rw [same], List.forall_mem_cons.mpr ⟨plain, all⟩⟩
  | escaped _ rest _ =>
    have longer := rest.length_le
    simp only [List.length_cons] at short
    omega
  | unicode _ _ rest _ =>
    have longer := rest.length_le
    simp only [List.length_cons] at short
    omega
  | surrogates _ _ _ _ rest _ =>
    have longer := rest.length_le
    simp only [List.length_cons] at short
    omega

theorem Chars.of_unescaped (all : ∀ c ∈ s, Unescaped c) : Chars s s := by
  induction s with
  | nil => exact .nil
  | cons c s ih =>
    obtain ⟨plain, later⟩ := List.forall_mem_cons.mp all
    exact .unescaped plain (ih later)

theorem head_of_closed {c : Char} {word rest rest' : List Char} (plain : ∀ c ∈ word, Unescaped c)
    (same : c :: rest = word ++ '"' :: rest') : c = '"' ∨ Unescaped c := by
  cases word with
  | nil => exact Or.inl (List.cons.inj same).1
  | cons d word => exact Or.inr ((List.cons.inj same).1 ▸ plain d List.mem_cons_self)

theorem backslash_ne_closed {word rest rest' : List Char} (plain : ∀ c ∈ word, Unescaped c) :
    '\\' :: rest ≠ word ++ '"' :: rest' := by
  intro same
  rcases head_of_closed plain same with quote | unescaped
  · cases quote
  · exact unescaped.2.2 rfl

/-- A string ends at its first quotation mark if there is no backslash before it. -/
theorem Chars.closed (chars : Chars text s) {word rest rest' : List Char} (plain : ∀ c ∈ word, Unescaped c)
    (same : text ++ '"' :: rest = word ++ '"' :: rest') : text = word ∧ rest = rest' := by
  induction chars generalizing word with
  | nil =>
    cases word with
    | nil => exact ⟨rfl, (List.cons.inj same).2⟩
    | cons c word => exact absurd (List.cons.inj same).1.symm (plain c List.mem_cons_self).2.1
  | @unescaped c text s here _ ih =>
    cases word with
    | nil => exact absurd (List.cons.inj same).1 here.2.1
    | cons d word =>
      obtain ⟨first, later⟩ := List.cons.inj same
      obtain ⟨text_eq, rest_eq⟩ := ih (List.forall_mem_cons.mp plain).2 later
      exact ⟨by rw [first, text_eq], rest_eq⟩
  | escaped _ _ _ => exact absurd same (backslash_ne_closed plain)
  | unicode _ _ _ _ => exact absurd same (backslash_ne_closed plain)
  | surrogates _ _ _ _ _ _ => exact absurd same (backslash_ne_closed plain)

end Strings

section Inversion

/-- Blanks before a character that is none end at that character. -/
theorem Blank.closed {blank rest rest' : List Char} (skip : Blank blank) {c : Char}
    (visible : c ∉ [' ', '\t', '\n', '\r']) (same : blank ++ rest = c :: rest') : blank = [] := by
  cases blank with
  | nil => rfl
  | cons d blank =>
    rw [List.cons_append] at same
    exact absurd (skip d List.mem_cons_self) ((List.cons.inj same).1 ▸ visible)

theorem Denotes.of_string {text s : List Char} (denotes : Denotes text (.string s)) :
    ∃ inside, text = '"' :: (inside ++ ['"']) ∧ Chars inside s := by
  cases denotes with
  | string chars => exact ⟨_, rfl, chars⟩

theorem Members.ne_nil {text : List Char} {members : List (List Char × JsonValue)} (inside : Members text members) :
    members ≠ [] := by
  cases inside with
  | last => exact List.cons_ne_nil _ _
  | more => exact List.cons_ne_nil _ _

/-- The text of an object with a single member. -/
theorem Denotes.of_object_singleton {text name : List Char} {v : JsonValue}
    (denotes : Denotes text (.object [(name, v)])) :
    ∃ before key between lead value after,
      text = '\x7b' :: (before ++ '"' :: (key ++ '"' :: (between ++ ':' :: (lead ++ (value ++ after))))) ++
        ['\x7d'] ∧
      Blank before ∧ Chars key name ∧ Blank between ∧ Blank lead ∧ Denotes value v ∧ Blank after := by
  cases denotes with
  | object inside =>
    cases inside with
    | last skipBefore chars skipBetween skipLead value skipAfter =>
      exact ⟨_, _, _, _, _, _, rfl, skipBefore, chars, skipBetween, skipLead, value, skipAfter⟩
    | more _ _ _ _ _ _ rest => exact absurd rfl rest.ne_nil

end Inversion

end JsonText
