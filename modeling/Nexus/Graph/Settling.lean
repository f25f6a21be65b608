import Nexus.Graph.Search
import Mathlib.Data.List.Induction

namespace ShortestPath
universe u
variable {V : Type u} [LinearOrder V] {g : Lengths V} {src : V} {cap : Nat} {s : Search V}

theorem Run.settled_nodup (run : Run g src cap s) : s.settled.Nodup := by
  induction run with
  | start => exact List.nodup_nil
  | settle _ next ih => exact List.nodup_cons.mpr ⟨next.fresh, ih⟩

theorem Run.reach_le_cap (run : Run g src cap s) (v : V) : s.reach v ≤ cap := by
  induction run with
  | start => simp only [Search.initial]; split <;> omega
  | settle _ _ ih => exact Nat.le_trans (Search.settle_reach_le _ g src _ v) ih

theorem Run.reach_src (run : Run g src cap s) : s.reach src = 0 := by
  induction run with
  | start => simp [Search.initial]
  | @settle s u _ _ ih =>
    have bound := s.settle_reach_le g src u src
    omega

theorem Run.walk (run : Run g src cap s) {v : V} (found : s.reach v < cap) :
    Walk g src v (s.reach v) := by
  induction run generalizing v with
  | start =>
    by_cases atSrc : v = src
    · subst v
      simpa [Search.initial] using (WalkWithin.start : Walk g src src 0)
    · simp [Search.initial, atSrc] at found
  | @settle s u run next ih =>
    rcases s.settle_cases g src u v with ⟨same, _⟩ | ⟨e, link, _, _, less, new, _⟩
    · rw [same] at found ⊢
      exact ih found
    · have bound := run.reach_le_cap v
      rw [new]
      exact (ih (by omega)).next link trivial

theorem Run.settled_le_unsettled (run : Run g src cap s) {u v : V} (done : u ∈ s.settled)
    (fresh : v ∉ s.settled) : s.reach u ≤ s.reach v := by
  induction run generalizing v with
  | start => cases done
  | @settle s w run next ih =>
    have later : v ∉ s.settled := fun old => fresh (List.mem_cons_of_mem _ old)
    have lower : s.reach u ≤ s.reach w := by
      rcases List.mem_cons.mp done with rfl | old
      · exact le_rfl
      · exact ih old next.fresh
    rw [Search.settle_reach_of_settled done]
    rcases s.settle_cases g src w v with ⟨same, _⟩ | ⟨_, _, _, _, _, new, _⟩
    · rw [same]
      exact Nat.le_trans lower (next.nearest v later)
    · omega

/-- Every link out of a settled vertex is accounted for. -/
theorem Run.relaxed (run : Run g src cap s) {u v : V} {e : Nat} (done : u ∈ s.settled)
    (link : g u v = some e) : s.reach v ≤ s.reach u + e := by
  induction run with
  | start => cases done
  | @settle s w run next ih =>
    rw [Search.settle_reach_of_settled done]
    have less := s.settle_reach_le g src w v
    rcases List.mem_cons.mp done with rfl | old
    · by_cases settled : v ∈ u :: s.settled
      · rcases List.mem_cons.mp settled with rfl | before
        · omega
        · have ordered := run.settled_le_unsettled before next.fresh
          omega
      · obtain ⟨notSelf, fresh⟩ := not_or.mp (List.mem_cons.not.mp settled)
        rcases s.settle_cases g src u v with ⟨same, _, kept⟩ | ⟨e', link', _, _, _, new, _⟩
        · have bound := kept notSelf fresh e link
          omega
        · cases link.symm.trans link'
          omega
    · have bound := ih old
      omega

theorem Search.Next.unique {u v : V} (next : s.Next u) (other : s.Next v) : u = v := by
  have near := next.nearest v other.fresh
  have near' := other.nearest u next.fresh
  have equal : s.reach u = s.reach v := by omega
  exact le_antisymm (other.largest u next.fresh equal) (next.largest v other.fresh equal.symm)

/-- With a positive cap the source is settled before anything else. -/
theorem Run.src_first (run : Run g src cap s) (positive : 0 < cap) {u : V} (next : s.Next u) :
    (s = Search.initial src cap ∧ u = src) ∨ (src ∈ s.settled ∧ u ≠ src) := by
  induction run generalizing u with
  | start =>
    refine Or.inl ⟨rfl, ?_⟩
    by_contra other
    have near := next.nearest src (List.not_mem_nil)
    simp [Search.initial, other] at near
    omega
  | @settle s w run before ih =>
    have member : src ∈ w :: s.settled := by
      rcases ih before with ⟨_, rfl⟩ | ⟨old, _⟩
      · exact List.mem_cons_self
      · exact List.mem_cons_of_mem _ old
    refine Or.inr ⟨member, ?_⟩
    rintro rfl
    exact next.fresh member

/-- The search after it has settled the given vertices, in this order. -/
def Search.after (g : Lengths V) (src : V) (cap : Nat) (chosen : List V) : Search V :=
  chosen.foldl (fun s u => s.settle g src u) (Search.initial src cap)

theorem Search.after_snoc (chosen : List V) (u : V) :
    Search.after g src cap (chosen ++ [u]) = (Search.after g src cap chosen).settle g src u :=
  List.foldl_append

theorem Search.settled_after (chosen : List V) : (Search.after g src cap chosen).settled = chosen.reverse := by
  induction chosen using List.reverseRecOn with
  | nil => rfl
  | append_singleton chosen u ih =>
    rw [Search.after_snoc, List.reverse_append, ← ih]
    rfl

/-- A search is determined by the order in which it has settled its vertices, each of them the next one then. -/
theorem Run.replay (run : Run g src cap s) :
    s = Search.after g src cap s.settled.reverse ∧
      ∀ before u later, s.settled.reverse = before ++ u :: later →
        Run g src cap (Search.after g src cap before) ∧ (Search.after g src cap before).Next u := by
  induction run with
  | start =>
    refine ⟨rfl, fun before u later split => ?_⟩
    simp [Search.initial] at split
  | @settle s u run next ih =>
    obtain ⟨same, earlier⟩ := ih
    have order : (s.settle g src u).settled.reverse = s.settled.reverse ++ [u] := List.reverse_cons
    refine ⟨by rw [order, Search.after_snoc, ← same], fun before v later split => ?_⟩
    rw [order] at split
    rcases List.eq_nil_or_concat later with rfl | ⟨rest, last, rfl⟩
    · obtain ⟨rfl, ends⟩ := List.append_inj' split rfl
      cases ends
      rw [← same]
      exact ⟨run, next⟩
    · refine earlier before v rest ?_
      rw [List.concat_eq_append, ← List.cons_append, ← List.append_assoc] at split
      exact (List.append_inj' split rfl).1

theorem Run.src_earlier (run : Run g src cap s) (positive : 0 < cap) {u : V}
    (done : u ∈ s.settled) (other : u ≠ src) : Earlier s.settled src u := by
  induction run with
  | start => cases done
  | @settle s w run next ih =>
    rcases List.mem_cons.mp done with rfl | old
    · rcases run.src_first positive next with ⟨_, same⟩ | ⟨member, _⟩
      · exact (other same).elim
      · exact Or.inl ⟨rfl, member⟩
    · exact Or.inr (ih old)

theorem Run.earlier_le (run : Run g src cap s) {u v : V} (before : Earlier s.settled u v) :
    s.reach u ≤ s.reach v := by
  induction run with
  | start => exact before.elim
  | @settle s w run next ih =>
    rw [Search.settle_reach_of_settled before.mem.1, Search.settle_reach_of_settled before.mem.2]
    rcases before with ⟨rfl, member⟩ | before
    · exact run.settled_le_unsettled member next.fresh
    · exact ih before

theorem Run.earlier_of_lt (run : Run g src cap s) {u v : V} (hu : u ∈ s.settled) (hv : v ∈ s.settled)
    (less : s.reach u < s.reach v) : Earlier s.settled u v := by
  have different : u ≠ v := by rintro rfl; omega
  rcases earlier_total hu hv different with before | after
  · exact before
  · have bound := run.earlier_le after
    omega

/-- A vertex that was in reach of a settled vertex when `u` was chosen over it is smaller. -/
theorem Run.chosen_over (run : Run g src cap s) {x u y : V} {e : Nat} (before : Earlier s.settled x u)
    (notBefore : ¬Earlier s.settled y u) (different : y ≠ u) (link : g x y = some e)
    (close : s.reach x + e ≤ s.reach u) : y < u := by
  induction run with
  | start => exact before.elim
  | @settle s w run next ih =>
    rw [Search.settle_reach_of_settled before.mem.1, Search.settle_reach_of_settled before.mem.2] at close
    rcases before with ⟨rfl, member⟩ | before
    · have fresh : y ∉ s.settled := fun old => notBefore (Or.inl ⟨rfl, old⟩)
      have bound := run.relaxed member link
      have near := next.nearest y fresh
      exact lt_of_le_of_ne (next.largest y fresh (by omega)) different
    · exact ih before (fun old => notBefore (Or.inr old)) close

end ShortestPath
