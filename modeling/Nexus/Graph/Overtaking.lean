import Nexus.Graph.Relay

namespace ShortestPath
universe u
variable {V : Type u} [LinearOrder V] {g : Lengths V} {src : V} {cap : Nat} {s : Search V}

/-- A search that has settled every vertex. -/
structure Finished (g : Lengths V) (src : V) (cap : Nat) (s : Search V) : Prop where
  run : Run g src cap s
  all : ∀ v, v ∈ s.settled
  positive : 0 < cap

namespace Finished

theorem le_of_walk (done : Finished g src cap s) {v : V} {d : Nat} (walk : Walk g src v d) :
    s.reach v ≤ d :=
  walk.label_le s.reach done.run.reach_src fun u _ _ link => done.run.relaxed (done.all u) link

theorem reach_eq (done : Finished g src cap s) {v : V} {d : Nat} (shortest : Shortest g src v d)
    (below : d < cap) : s.reach v = d := by
  have upper := done.le_of_walk shortest.1
  have lower := shortest.2 _ (done.run.walk (by omega))
  omega

theorem shortest (done : Finished g src cap s) {v : V} (found : s.reach v < cap) :
    Shortest g src v (s.reach v) :=
  ⟨done.run.walk found, fun _ walk => done.le_of_walk walk⟩

/-- A vertex is found exactly when some walk to it is shorter than the cap. -/
theorem found_iff (done : Finished g src cap s) {v : V} :
    s.reach v < cap ↔ ∃ d, Shortest g src v d ∧ d < cap := by
  constructor
  · exact fun found => ⟨_, done.shortest found, found⟩
  · intro ⟨d, shortest, below⟩
    rw [done.reach_eq shortest below]
    exact below

theorem earlier_of_lt (done : Finished g src cap s) {u v : V} (less : s.reach u < s.reach v) :
    Earlier s.settled u v :=
  done.run.earlier_of_lt (done.all u) (done.all v) less

/-- On a walk of the best length every vertex has its best length. -/
theorem front_eq (done : Finished g src cap s) {P : V → Prop} {u v : V} {d e : Nat}
    (front : WalkWithin g P src u d) (link : g u v = some e) (best : d + e = s.reach v) :
    s.reach u = d := by
  have upper := done.le_of_walk front.forget
  have bound := done.run.relaxed (done.all u) link
  omega

theorem walk_within (done : Finished g src cap s) {P : V → Prop} {v : V} {d : Nat}
    (walk : Walk g src v d) (near : ∀ y, s.reach y ≤ d → P y) : WalkWithin g P src v d := by
  induction walk with
  | start => exact .start
  | @next b c d e front link _ ih =>
    have bound := done.le_of_walk (front.next link trivial)
    exact (ih fun y close => near y (by omega)).next link (near c bound)

end Finished

/-- Where a walk may go if it is to reach its end before `v` is settled: among the vertices
as near as `v`, only to larger ones. -/
def Search.Ahead (s : Search V) (src v y : V) : Prop :=
  y = src ∨ s.reach y ≠ s.reach v ∨ v < y

/-- `v` is in reach as soon as every nearer vertex is settled. -/
def Search.Entry (s : Search V) (g : Lengths V) (src v : V) : Prop :=
  ∃ x e, g x v = some e ∧ s.reach x + e = s.reach v ∧ (x = src ∨ s.reach x < s.reach v)

namespace Finished

theorem earlier_of_walk (done : Finished g src cap s) {v y : V} {d : Nat} (notSrc : v ≠ src)
    (walk : WalkWithin g (s.Ahead src v) src y d) (best : d = s.reach y)
    (level : s.reach y = s.reach v) (other : y ≠ src) : Earlier s.settled y v := by
  induction walk with
  | start => exact (other rfl).elim
  | @next b c d e front link ahead ih =>
    have larger : v < c := by
      rcases ahead with same | far | larger
      · exact (other same).elim
      · exact (far level).elim
      · exact larger
    have reachB := done.front_eq front link best
    have before : Earlier s.settled b v := by
      by_cases atSrc : b = src
      · rw [atSrc]
        exact done.run.src_earlier done.positive (done.all v) notSrc
      · by_cases same : s.reach b = s.reach v
        · exact ih reachB.symm same atSrc
        · exact done.earlier_of_lt (by omega)
    by_contra notBefore
    have smaller := done.run.chosen_over before notBefore (ne_of_gt larger) link (by omega)
    exact lt_asymm larger smaller

/-- Every vertex as near as `v` and settled before it was preferred to `v`. -/
theorem larger_of_earlier (done : Finished g src cap s) {v : V} (entry : s.Entry g src v) {y : V}
    (earlier : Earlier s.settled y v) (same : s.reach y = s.reach v) (notSrc : y ≠ src) : v < y := by
  have nodup := done.run.settled_nodup
  obtain ⟨x, e, link, sum, near⟩ := entry
  have different : v ≠ y := fun equal => (equal ▸ earlier).asymm nodup (equal ▸ earlier)
  have reached : Earlier s.settled x y := by
    rcases near with atSrc | less
    · rw [atSrc]
      exact done.run.src_earlier done.positive (done.all y) notSrc
    · exact done.earlier_of_lt (by omega)
  exact done.run.chosen_over reached (earlier.asymm nodup) different link (by omega)

theorem walk_of_earlier (done : Finished g src cap s) {v : V} (entry : s.Entry g src v)
    (found : s.reach v < cap) {u : V} (before : Earlier s.settled u v)
    (level : s.reach u = s.reach v) (other : u ≠ src) :
    WalkWithin g (s.Ahead src v) src u (s.reach u) := by
  have nodup := done.run.settled_nodup
  suffices along : ∀ l, l <:+ s.settled → ∀ y ∈ l, Earlier s.settled y v → s.reach y = s.reach v →
      y ≠ src → WalkWithin g (s.Ahead src v) src y (s.reach y) by
    exact along s.settled List.suffix_rfl u before.mem.1 before level other
  intro l
  induction l with
  | nil => intro _ y member; cases member
  | cons head rest ih =>
    intro suffix y member earlier same notSrc
    have shorter : rest <:+ s.settled := (List.suffix_cons head rest).trans suffix
    rcases List.mem_cons.mp member with atHead | inRest
    · subst atHead
      have ahead : s.Ahead src v y := Or.inr (Or.inr (done.larger_of_earlier entry earlier same notSrc))
      cases done.run.recorded done.positive notSrc (by omega : s.reach y < cap) with
      | direct _ fromSrc =>
        have one := WalkWithin.start.next fromSrc ahead
        rwa [Nat.zero_add] at one
      | relay notSelf viaNotSrc tight order _ =>
        obtain ⟨e', link', sum'⟩ := tight.length
        have viaEarlier : Earlier s.settled (s.via y) y :=
          (earlier_total tight.settled (done.all y) notSelf).resolve_right order
        rw [← sum']
        refine WalkWithin.next ?_ link' ahead
        by_cases viaLevel : s.reach (s.via y) = s.reach v
        · exact ih shorter _ ((earlier_suffix_head nodup suffix).mp viaEarlier)
            (viaEarlier.trans nodup earlier) viaLevel viaNotSrc
        · have front := done.run.walk (v := s.via y) (by omega)
          exact done.walk_within front fun z close => Or.inr (Or.inl (by omega))
    · exact ih shorter y inRest earlier same notSrc

/-- The order of settling, read off the graph: nearer vertices first, and a vertex as near as an
entry `v` before it exactly when a shortest walk leads there past larger vertices than `v`. -/
theorem earlier_iff (done : Finished g src cap s) {u v : V} (entry : s.Entry g src v)
    (found : s.reach v < cap) (uNotSrc : u ≠ src) (vNotSrc : v ≠ src) :
    Earlier s.settled u v ↔ s.reach u < s.reach v ∨
      s.reach u = s.reach v ∧ WalkWithin g (s.Ahead src v) src u (s.reach u) := by
  constructor
  · intro before
    have ordered := done.run.earlier_le before
    by_cases level : s.reach u = s.reach v
    · exact Or.inr ⟨level, done.walk_of_earlier entry found before level uNotSrc⟩
    · exact Or.inl (by omega)
  · intro closer
    rcases closer with less | ⟨level, walk⟩
    · exact done.earlier_of_lt less
    · exact done.earlier_of_walk vNotSrc walk rfl level uNotSrc

end Finished
end ShortestPath
