import Mathlib.Tactic.Common

namespace ShortestPath
universe u
variable {V : Type u}

/-- Link lengths of a directed graph; `none` where there is no link. -/
abbrev Lengths (V : Type u) := V → V → Option Nat

/-- A walk of the given total length, every vertex it enters satisfying `P`. -/
inductive WalkWithin (g : Lengths V) (P : V → Prop) (a : V) : V → Nat → Prop
  | start : WalkWithin g P a a 0
  | next {b c : V} {d e : Nat} :
      WalkWithin g P a b d → g b c = some e → P c → WalkWithin g P a c (d + e)

abbrev Walk (g : Lengths V) (a b : V) (d : Nat) : Prop := WalkWithin g (fun _ => True) a b d

/-- `d` is the length of a shortest walk from `a` to `b`. -/
def Shortest (g : Lengths V) (a b : V) (d : Nat) : Prop :=
  Walk g a b d ∧ ∀ d', Walk g a b d' → d ≤ d'

variable {g : Lengths V} {P Q : V → Prop} {a b c : V} {d e : Nat}

theorem WalkWithin.mono (walk : WalkWithin g P a b d) (weaker : ∀ v, P v → Q v) :
    WalkWithin g Q a b d := by
  induction walk with
  | start => exact .start
  | next _ link enters ih => exact .next ih link (weaker _ enters)

theorem WalkWithin.forget (walk : WalkWithin g P a b d) : Walk g a b d :=
  walk.mono fun _ _ => trivial

theorem Walk.link (link : g a b = some e) : Walk g a b e := by
  simpa only [Nat.zero_add] using WalkWithin.next .start link trivial

theorem Walk.append (first : Walk g a b d) (second : Walk g b c e) : Walk g a c (d + e) := by
  induction second with
  | start => exact first
  | next _ link enters ih =>
    rw [← Nat.add_assoc]
    exact .next ih link enters

theorem Shortest.unique (left : Shortest g a b d) (right : Shortest g a b e) : d = e :=
  Nat.le_antisymm (left.2 e right.1) (right.2 d left.1)

theorem Shortest.self (a : V) : Shortest g a a 0 :=
  ⟨.start, fun _ _ => Nat.zero_le _⟩

/-- A labelling that no link decreases by more than its length bounds every walk from below. -/
theorem Walk.label_le (walk : Walk g a b d) (label : V → Nat) (zero : label a = 0)
    (feasible : ∀ u v e, g u v = some e → label v ≤ label u + e) : label b ≤ d := by
  induction walk with
  | start => exact Nat.le_of_eq zero
  | next _ link _ ih =>
    have bound := feasible _ _ _ link
    omega

/-- A link at the end of a shortest walk is itself a shortest walk. -/
theorem Shortest.last_link (whole : Shortest g a c (d + e)) (front : Walk g a b d)
    (link : g b c = some e) : Shortest g b c e := by
  refine ⟨Walk.link link, fun d' other => ?_⟩
  have bound := whole.2 _ (front.append other)
  omega

end ShortestPath
