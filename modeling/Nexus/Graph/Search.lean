import Nexus.Graph.Walk
import Mathlib.Order.Lattice
import Mathlib.Data.List.Nodup

namespace ShortestPath
universe u
variable {V : Type u}

/-- `x` stands before `y` in a list that has its latest entry first. -/
def Earlier : List V → V → V → Prop
  | [], _, _ => False
  | latest :: rest, x, y => y = latest ∧ x ∈ rest ∨ Earlier rest x y

theorem Earlier.mem {l : List V} {x y : V} (before : Earlier l x y) : x ∈ l ∧ y ∈ l := by
  induction l with
  | nil => exact before.elim
  | cons latest rest ih =>
    rcases before with ⟨rfl, member⟩ | before
    · exact ⟨List.mem_cons_of_mem _ member, List.mem_cons_self⟩
    · exact ⟨List.mem_cons_of_mem _ (ih before).1, List.mem_cons_of_mem _ (ih before).2⟩

theorem Earlier.asymm {l : List V} (nodup : l.Nodup) {x y : V} (before : Earlier l x y) :
    ¬Earlier l y x := by
  induction l with
  | nil => exact before.elim
  | cons latest rest ih =>
    obtain ⟨fresh, nodup⟩ := List.nodup_cons.mp nodup
    intro after
    rcases before with ⟨rfl, member⟩ | before
    · rcases after with ⟨rfl, _⟩ | after
      · exact fresh member
      · exact fresh after.mem.1
    · rcases after with ⟨rfl, _⟩ | after
      · exact fresh before.mem.1
      · exact ih nodup before after

theorem Earlier.trans {l : List V} (nodup : l.Nodup) {x y z : V} (left : Earlier l x y)
    (right : Earlier l y z) : Earlier l x z := by
  induction l with
  | nil => exact left.elim
  | cons latest rest ih =>
    obtain ⟨fresh, nodup⟩ := List.nodup_cons.mp nodup
    rcases left with ⟨rfl, _⟩ | left
    · rcases right with ⟨_, member⟩ | right
      · exact (fresh member).elim
      · exact (fresh right.mem.1).elim
    · rcases right with ⟨rfl, _⟩ | right
      · exact Or.inl ⟨rfl, left.mem.1⟩
      · exact Or.inr (ih nodup left right)

theorem earlier_total {l : List V} {x y : V} (hx : x ∈ l) (hy : y ∈ l) (different : x ≠ y) :
    Earlier l x y ∨ Earlier l y x := by
  induction l with
  | nil => cases hx
  | cons latest rest ih =>
    rcases List.mem_cons.mp hx with rfl | xInRest
    · rcases List.mem_cons.mp hy with rfl | yInRest
      · exact (different rfl).elim
      · exact Or.inr (Or.inl ⟨rfl, yInRest⟩)
    · rcases List.mem_cons.mp hy with rfl | yInRest
      · exact Or.inl (Or.inl ⟨rfl, xInRest⟩)
      · exact (ih xInRest yInRest).imp Or.inr Or.inr

theorem earlier_suffix_head {l rest : List V} (nodup : l.Nodup) {x y : V}
    (suffix : (y :: rest) <:+ l) : Earlier l x y ↔ x ∈ rest := by
  obtain ⟨front, rfl⟩ := suffix
  induction front with
  | nil =>
    have fresh := (List.nodup_cons.mp nodup).1
    constructor
    · rintro (⟨_, member⟩ | before)
      · exact member
      · exact (fresh before.mem.2).elim
    · exact fun member => Or.inl ⟨rfl, member⟩
  | cons head front ih =>
    obtain ⟨fresh, nodup⟩ := List.nodup_cons.mp nodup
    rw [← ih nodup]
    constructor
    · rintro (⟨rfl, _⟩ | before)
      · exact (fresh (by simp)).elim
      · exact before
    · exact Or.inr

variable [LinearOrder V]

/-- What a label-setting search knows: the settled vertices, latest first, the length of the
best walk found to each vertex (at most a cap) and the vertex before it on that walk. A vertex
that the search has not improved, or has improved from the source only, is its own `via`. -/
structure Search (V : Type u) where
  settled : List V
  reach : V → Nat
  via : V → V

def Search.initial (src : V) (cap : Nat) : Search V where
  settled := []
  reach v := if v = src then 0 else cap
  via := id

/-- `u` is the nearest vertex not settled yet, and the largest of the nearest ones. -/
structure Search.Next (s : Search V) (u : V) : Prop where
  fresh : u ∉ s.settled
  nearest : ∀ v, v ∉ s.settled → s.reach u ≤ s.reach v
  largest : ∀ v, v ∉ s.settled → s.reach v = s.reach u → v ≤ u

/-- The length of the walk to `v` through `u`, if it improves on the best one found. -/
def Search.improved (g : Lengths V) (s : Search V) (u v : V) : Option Nat :=
  match g u v with
  | none => none
  | some e => if v ∉ u :: s.settled ∧ s.reach u + e < s.reach v then some (s.reach u + e) else none

def Search.settle (g : Lengths V) (src u : V) (s : Search V) : Search V where
  settled := u :: s.settled
  reach v := (s.improved g u v).getD (s.reach v)
  via v := if (s.improved g u v).isSome ∧ u ≠ src then u else s.via v

/-- The states of a search from `src` that never follows a walk of length `cap` or more. -/
inductive Run (g : Lengths V) (src : V) (cap : Nat) : Search V → Prop
  | start : Run g src cap (Search.initial src cap)
  | settle {s : Search V} {u : V} : Run g src cap s → s.Next u → Run g src cap (s.settle g src u)

variable {g : Lengths V} {src : V} {cap : Nat} {s : Search V}

theorem Search.improved_eq_some {u v : V} {d : Nat} :
    s.improved g u v = some d ↔
      ∃ e, g u v = some e ∧ v ≠ u ∧ v ∉ s.settled ∧ s.reach u + e < s.reach v ∧ d = s.reach u + e := by
  unfold Search.improved
  cases link : g u v with
  | none => simp
  | some e =>
    simp only [List.mem_cons, not_or, Option.ite_none_right_eq_some, Option.some.injEq]
    constructor
    · rintro ⟨⟨⟨notSelf, fresh⟩, less⟩, rfl⟩
      exact ⟨e, rfl, notSelf, fresh, less, rfl⟩
    · rintro ⟨e', rfl, notSelf, fresh, less, rfl⟩
      exact ⟨⟨⟨notSelf, fresh⟩, less⟩, rfl⟩

/-- Settling `u` either leaves what is known about `v` as it was, or improves it through `u`. -/
theorem Search.settle_cases (s : Search V) (g : Lengths V) (src u v : V) :
    ((s.settle g src u).reach v = s.reach v ∧ (s.settle g src u).via v = s.via v ∧
      (v ≠ u → v ∉ s.settled → ∀ e, g u v = some e → s.reach v ≤ s.reach u + e)) ∨
    (∃ e, g u v = some e ∧ v ≠ u ∧ v ∉ s.settled ∧ s.reach u + e < s.reach v ∧
      (s.settle g src u).reach v = s.reach u + e ∧
      (s.settle g src u).via v = if u = src then s.via v else u) := by
  cases result : s.improved g u v with
  | none =>
    refine Or.inl ⟨by simp [Search.settle, result], by simp [Search.settle, result], ?_⟩
    intro notSelf fresh e link
    by_contra less
    have found := Search.improved_eq_some.mpr ⟨e, link, notSelf, fresh, by omega, rfl⟩
    rw [result] at found
    cases found
  | some d =>
    obtain ⟨e, link, notSelf, fresh, less, rfl⟩ := Search.improved_eq_some.mp result
    refine Or.inr ⟨e, link, notSelf, fresh, less, by simp [Search.settle, result], ?_⟩
    by_cases atSrc : u = src <;> simp [Search.settle, result, atSrc]

theorem Search.settle_reach_of_settled {u v : V} (done : v ∈ u :: s.settled) :
    (s.settle g src u).reach v = s.reach v := by
  rcases s.settle_cases g src u v with ⟨same, _⟩ | ⟨_, _, notSelf, fresh, _⟩
  · exact same
  · rcases List.mem_cons.mp done with rfl | done
    · exact (notSelf rfl).elim
    · exact (fresh done).elim

theorem Search.settle_reach_le (s : Search V) (g : Lengths V) (src u v : V) :
    (s.settle g src u).reach v ≤ s.reach v := by
  rcases s.settle_cases g src u v with ⟨same, _⟩ | ⟨_, _, _, _, less, new, _⟩ <;> omega

end ShortestPath
