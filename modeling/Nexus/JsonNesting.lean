import Nexus.JsonText

namespace JsonText

/-- What can be checked of one element after another. -/
theorem forall_mem_of_all {α : Type} {p : α → Prop} [DecidablePred p] {l : List α} (all : l.all fun a => p a) :
    ∀ a ∈ l, p a :=
  fun a member => of_decide_eq_true (List.all_eq_true.mp all a member)

/-- Where a reader of a text is, with the number of brackets that are open: between tokens, in a string, or after a
backslash of a string. -/
inductive Place
  | outside (depth : Nat)
  | quoted (depth : Nat)
  | escaped (depth : Nat)
  deriving DecidableEq

namespace Place

def depth : Place → Nat
  | outside d => d
  | quoted d => d
  | escaped d => d

def read : Place → Char → Place
  | outside d, c =>
    if c = '"' then quoted d
    else if c = '\x7b' ∨ c = '[' then outside (d + 1)
    else if c = '\x7d' ∨ c = ']' then outside (d - 1)
    else outside d
  | quoted d, c => if c = '"' then outside d else if c = '\\' then escaped d else quoted d
  | escaped d, _ => quoted d

end Place

/-- Reading the text leads from one place to another, and never to less than `d` open brackets. -/
inductive Reads (d : Nat) : Place → List Char → Place → Prop
  | nil {p : Place} (high : d ≤ p.depth) : Reads d p [] p
  | cons {p q : Place} {c : Char} {text : List Char} (high : d ≤ p.depth) (rest : Reads d (p.read c) text q) :
      Reads d p (c :: text) q

namespace Reads
variable {d : Nat} {p q r : Place} {text later : List Char}

theorem append (first : Reads d p text q) (second : Reads d q later r) : Reads d p (text ++ later) r := by
  induction first with
  | nil _ => exact second
  | cons high _ ih => exact .cons high (ih second)

theorem mono (reads : Reads d p text q) {d' : Nat} (lower : d' ≤ d) : Reads d' p text q := by
  induction reads with
  | nil high => exact .nil (Nat.le_trans lower high)
  | cons high _ ih => exact .cons (Nat.le_trans lower high) ih

theorem foldl_eq (reads : Reads d p text q) : text.foldl Place.read p = q := by
  induction reads with
  | nil _ => rfl
  | cons _ _ ih => exact ih

theorem depth_le (reads : Reads d p text q) {start : List Char} (before : start <+: text) :
    d ≤ (start.foldl Place.read p).depth := by
  induction reads generalizing start with
  | nil high => rwa [List.prefix_nil.mp before]
  | @cons p q c text high _ ih =>
    cases start with
    | nil => exact high
    | cons e start =>
      obtain ⟨rfl, later⟩ := List.cons_prefix_cons.mp before
      exact ih later

/-- A text that opens and closes nothing. -/
theorem of_plain (plain : ∀ c ∈ text, c ∉ ['"', '\x7b', '\x7d', '[', ']']) :
    Reads d (.outside d) text (.outside d) := by
  induction text with
  | nil => exact .nil (Nat.le_refl d)
  | cons c text ih =>
    obtain ⟨here, later⟩ := List.forall_mem_cons.mp plain
    simp only [List.mem_cons, List.not_mem_nil, or_false, not_or] at here
    obtain ⟨quote, opensBrace, closesBrace, opensBracket, closesBracket⟩ := here
    have same : (Place.outside d).read c = .outside d := by
      rw [Place.read, if_neg quote, if_neg (not_or.mpr ⟨opensBrace, opensBracket⟩),
        if_neg (not_or.mpr ⟨closesBrace, closesBracket⟩)]
    exact .cons (Nat.le_refl d) (same.symm ▸ ih later)

theorem quoted_cons {c : Char} (plain : c ≠ '"' ∧ c ≠ '\\') (rest : Reads d (.quoted d) text q) :
    Reads d (.quoted d) (c :: text) q := by
  have same : (Place.quoted d).read c = .quoted d := by rw [Place.read, if_neg plain.1, if_neg plain.2]
  exact .cons (Nat.le_refl d) (same.symm ▸ rest)

theorem escape {c : Char} (rest : Reads d (.quoted d) text q) : Reads d (.quoted d) ('\\' :: c :: text) q :=
  .cons (Nat.le_refl d) (.cons (Nat.le_refl d) rest)

theorem of_blank (skip : Blank text) : Reads d (.outside d) text (.outside d) := by
  have blanks : ∀ c ∈ [' ', '\t', '\n', '\r'], c ∉ ['"', '\x7b', '\x7d', '[', ']'] := forall_mem_of_all (by decide)
  exact of_plain fun c member => blanks c (skip c member)

end Reads

section Words

theorem plain_of_hexDigit {c : Char} (digit : (hexDigit c).isSome) : c ≠ '"' ∧ c ≠ '\\' := by
  constructor
  · rintro rfl
    cases digit
  · rintro rfl
    cases digit

theorem hexDigits_of_codeUnit {a b c d : Char} {u : Nat} (unit : codeUnit a b c d = some u) :
    (hexDigit a).isSome ∧ (hexDigit b).isSome ∧ (hexDigit c).isSome ∧ (hexDigit d).isSome := by
  cases first : hexDigit a with
  | none => simp [codeUnit, first] at unit
  | some i =>
    cases second : hexDigit b with
    | none => simp [codeUnit, first, second] at unit
    | some j =>
      cases third : hexDigit c with
      | none => simp [codeUnit, first, second, third] at unit
      | some k =>
        cases fourth : hexDigit d with
        | none => simp [codeUnit, first, second, third, fourth] at unit
        | some l => exact ⟨rfl, rfl, rfl, rfl⟩

theorem Reads.of_codeUnit {n : Nat} {a b c d : Char} {u : Nat} {text : List Char} {q : Place}
    (unit : codeUnit a b c d = some u) (rest : Reads n (.quoted n) text q) :
    Reads n (.quoted n) ('\\' :: 'u' :: a :: b :: c :: d :: text) q := by
  obtain ⟨first, second, third, fourth⟩ := hexDigits_of_codeUnit unit
  exact .escape (.quoted_cons (plain_of_hexDigit first) (.quoted_cons (plain_of_hexDigit second)
    (.quoted_cons (plain_of_hexDigit third) (.quoted_cons (plain_of_hexDigit fourth) rest))))

variable {text s : List Char} {d : Nat}

/-- A string is left at its end only. -/
theorem Chars.reads (chars : Chars text s) : Reads d (.quoted d) text (.quoted d) := by
  induction chars with
  | nil => exact .nil (Nat.le_refl d)
  | unescaped plain _ ih => exact .quoted_cons plain.2 ih
  | escaped _ _ ih => exact .escape ih
  | unicode unit _ _ ih => exact .of_codeUnit unit ih
  | surrogates high low _ _ _ ih => exact .of_codeUnit high (.of_codeUnit low ih)

theorem Chars.reads_closed (chars : Chars text s) : Reads d (.outside d) ('"' :: (text ++ ['"'])) (.outside d) :=
  .cons (Nat.le_refl d) (chars.reads.append (.cons (Nat.le_refl d) (.nil (Nat.le_refl d))))

theorem notMem_of_isDigit {c : Char} (digit : c.isDigit) : c ∉ ['"', '\x7b', '\x7d', '[', ']'] := by
  intro member
  have none : ∀ c ∈ ['"', '\x7b', '\x7d', '[', ']'], ¬c.isDigit := forall_mem_of_all (by decide)
  exact none c member digit

theorem Digits.reads (digits : Digits text) : Reads d (.outside d) text (.outside d) :=
  .of_plain fun c member => notMem_of_isDigit (digits.2 c member)

theorem Number.reads (shape : Number text) : Reads d (.outside d) text (.outside d) := by
  obtain ⟨sign, int, frac, exp, rfl, signed, whole, fraction, exponent⟩ := shape
  have nothing : Reads d (.outside d) [] (.outside d) := .nil (Nat.le_refl d)
  have one {c : Char} (plain : c ∉ ['"', '\x7b', '\x7d', '[', ']']) : Reads d (.outside d) [c] (.outside d) :=
    .of_plain fun e member => List.mem_singleton.mp member ▸ plain
  have sign_reads : Reads d (.outside d) sign (.outside d) := by
    rcases List.mem_pair.mp signed with rfl | rfl
    · exact nothing
    · exact one (by decide)
  have int_reads : Reads d (.outside d) int (.outside d) := by
    rcases whole with rfl | ⟨digits, _⟩
    · exact one (by decide)
    · exact digits.reads
  have frac_reads : Reads d (.outside d) frac (.outside d) := by
    rcases fraction with rfl | ⟨digits, all, rfl⟩
    · exact nothing
    · exact (one (by decide)).append all.reads
  refine ((sign_reads.append int_reads).append frac_reads).append ?_
  rcases exponent with rfl | ⟨e, sign', digits, letter, signed', all, rfl⟩
  · exact nothing
  · have letter_reads : Reads d (.outside d) [e] (.outside d) := by
      rcases List.mem_pair.mp letter with rfl | rfl
      · exact one (by decide)
      · exact one (by decide)
    have sign_reads : Reads d (.outside d) sign' (.outside d) := by
      simp only [List.mem_cons, List.not_mem_nil, or_false] at signed'
      rcases signed' with rfl | rfl | rfl
      · exact nothing
      · exact one (by decide)
      · exact one (by decide)
    exact letter_reads.append (sign_reads.append all.reads)

end Words

section Values

/-- A text between two brackets. -/
theorem Reads.bracketed {d : Nat} {start final : Char} {text : List Char}
    (opens : (Place.outside d).read start = .outside (d + 1)) (closes : (Place.outside (d + 1)).read final = .outside d)
    (inside : ∀ {d}, Reads d (.outside d) text (.outside d)) :
    Reads d (.outside d) (start :: (text ++ [final])) (.outside d) := by
  have deep : Reads d (.outside (d + 1)) text (.outside (d + 1)) := inside.mono (Nat.le_succ d)
  have last : Reads d (.outside (d + 1)) [final] (.outside d) :=
    .cons (Nat.le_succ d) (closes.symm ▸ .nil (Nat.le_refl d))
  exact .cons (Nat.le_refl d) (opens.symm ▸ deep.append last)

mutual

/-- A value closes what it opens. -/
theorem Denotes.reads {text : List Char} {v : JsonValue} (value : Denotes text v) {d : Nat} :
    Reads d (.outside d) text (.outside d) := by
  cases value with
  | null => exact .of_plain (forall_mem_of_all (by decide))
  | true => exact .of_plain (forall_mem_of_all (by decide))
  | false => exact .of_plain (forall_mem_of_all (by decide))
  | number shape => exact shape.reads
  | string chars => exact chars.reads_closed
  | emptyArray skip => exact .bracketed rfl rfl (.of_blank skip)
  | array inside => exact .bracketed rfl rfl inside.reads
  | emptyObject skip => exact .bracketed rfl rfl (.of_blank skip)
  | object inside => exact .bracketed rfl rfl inside.reads

theorem Elements.reads {text : List Char} {elements : List JsonValue} (inside : Elements text elements) {d : Nat} :
    Reads d (.outside d) text (.outside d) := by
  cases inside with
  | last skipBefore value skipAfter =>
    exact (Reads.of_blank skipBefore).append (value.reads.append (.of_blank skipAfter))
  | more skipBefore value skipAfter rest =>
    exact (Reads.of_blank skipBefore).append (value.reads.append ((Reads.of_blank skipAfter).append
      (.cons (Nat.le_refl d) rest.reads)))

theorem Members.reads {text : List Char} {members : List (List Char × JsonValue)} (inside : Members text members)
    {d : Nat} : Reads d (.outside d) text (.outside d) := by
  cases inside with
  | @last before key between lead text after name v skipBefore chars skipBetween skipLead value skipAfter =>
    have tail : Reads d (.outside d) (between ++ ':' :: (lead ++ (text ++ after))) (.outside d) :=
      (Reads.of_blank skipBetween).append (.cons (Nat.le_refl d)
        ((Reads.of_blank skipLead).append (value.reads.append (.of_blank skipAfter))))
    have named := chars.reads_closed.append tail
    rw [List.cons_append, List.append_assoc] at named
    exact (Reads.of_blank skipBefore).append named
  | @more before key between lead text after later name v others skipBefore chars skipBetween skipLead value skipAfter
      rest =>
    have tail : Reads d (.outside d) (between ++ ':' :: (lead ++ (text ++ (after ++ ',' :: later)))) (.outside d) :=
      (Reads.of_blank skipBetween).append (.cons (Nat.le_refl d)
        ((Reads.of_blank skipLead).append (value.reads.append ((Reads.of_blank skipAfter).append
          (.cons (Nat.le_refl d) rest.reads)))))
    have named := chars.reads_closed.append tail
    rw [List.cons_append, List.append_assoc] at named
    exact (Reads.of_blank skipBefore).append named

end

/-- Nothing that starts a text of an object is one, unless it is all of the text. -/
theorem Denotes.eq_of_isPrefix {text text' : List Char} {members members' : List (List Char × JsonValue)}
    (object : Denotes text (.object members)) (object' : Denotes text' (.object members')) (start : text <+: text') :
    text = text' := by
  have opened : ∃ inside, text' = '\x7b' :: (inside ++ ['\x7d']) ∧ ∀ d, Reads d (.outside d) inside (.outside d) := by
    cases object' with
    | emptyObject skip => exact ⟨_, rfl, fun d => .of_blank skip⟩
    | object inside => exact ⟨_, rfl, fun d => inside.reads⟩
  obtain ⟨inside, rfl, reads⟩ := opened
  have first : ∃ rest, text = '\x7b' :: rest := by
    cases object with
    | emptyObject _ => exact ⟨_, rfl⟩
    | object _ => exact ⟨_, rfl⟩
  obtain ⟨rest, rfl⟩ := first
  have balanced : ('\x7b' :: rest).foldl Place.read (.outside 0) = .outside 0 := object.reads.foldl_eq
  rcases List.prefix_concat_iff.mp (List.cons_prefix_cons.mp start).2 with whole | cut
  · rw [whole]
  · have deep : 1 ≤ (rest.foldl Place.read (.outside 1)).depth := (reads 1).depth_le cut
    have same : rest.foldl Place.read (.outside 1) = .outside 0 := balanced
    rw [same] at deep
    exact absurd deep (by decide)

end Values
end JsonText
