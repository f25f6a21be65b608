import Nexus.Routing.TopologyFill
import Nexus.Graph.Overtaking
import Mathlib.Data.List.FinRange

namespace Nexus
open ShortestPath

/-- The lengths that no walk of `route` reaches: `INT_MAX` stands for "not reached". -/
def cap : Nat := 2 ^ 31 - 1

theorem cap_eq : (cap : Int) = INT_MAX := by decide

/-- The entries of a topology as link lengths. -/
def lengths {n : Nat} (f : Fin n → Fin n → Int) : Lengths (Fin n) :=
  fun i j => if f i j = LONG_LONG_MAX then none else some (f i j).toNat

/-- Entries that `route` can add to a distance without leaving `long long`. -/
def Proper {n : Nat} (f : Fin n → Fin n → Int) : Prop :=
  ∀ i j, f i j = LONG_LONG_MAX ∨ 0 ≤ f i j ∧ f i j < 2 ^ 62

variable {n : Nat} {f : Fin n → Fin n → Int} {src : Fin n} {s : Search (Fin n)}

/-- The tables of `route` in a state of the search. -/
def tables (s : Search (Fin n)) : RouteTables where
  visited := List.ofFn fun j => decide (j ∈ s.settled)
  minDist := List.ofFn fun j => (s.reach j : Int)
  nextHop := List.ofFn fun j => (s.via j).val

/-- What the scan has found among the first `k` nodes. -/
def Scanned (s : Search (Fin n)) (k : Nat) (best : Int × Option Nat) : Prop :=
  (best = (INT_MAX, none) ∧ ∀ j : Fin n, j.val < k → j ∈ s.settled) ∨
  ∃ u : Fin n, best = ((s.reach u : Int), some u.val) ∧ u.val < k ∧ u ∉ s.settled ∧
    ∀ j : Fin n, j.val < k → j ∉ s.settled → s.reach u ≤ s.reach j ∧ (s.reach j = s.reach u → j ≤ u)

theorem Scanned.pass (bounded : ∀ v, s.reach v ≤ cap) {k : Nat} {best : Int × Option Nat}
    (below : k < n) (found : Scanned s k best) :
    ∃ best', scanUnvisited (tables s) best k = .ok best' ∧ Scanned s (k + 1) best' := by
  have seen := readAt_ofFn (fun j => decide (j ∈ s.settled)) ⟨k, below⟩
  have near := readAt_ofFn (fun j => (s.reach j : Int)) ⟨k, below⟩
  unfold scanUnvisited tables
  rw [seen, near]
  by_cases old : (⟨k, below⟩ : Fin n) ∈ s.settled
  · refine ⟨best, by simp [old, bind, Except.bind, pure, Except.pure], ?_⟩
    rcases found with ⟨same, all⟩ | ⟨u, same, before, fresh, least⟩
    · refine Or.inl ⟨same, fun j less => ?_⟩
      rcases (lt_succ_iff_or below j).mp less with less | rfl
      · exact all j less
      · exact old
    · refine Or.inr ⟨u, same, by omega, fresh, fun j less unsettled => ?_⟩
      rcases (lt_succ_iff_or below j).mp less with less | rfl
      · exact least j less unsettled
      · exact (unsettled old).elim
  · by_cases closer : (s.reach ⟨k, below⟩ : Int) ≤ best.1
    · refine ⟨_, by simp [old, closer, bind, Except.bind, pure, Except.pure]; rfl, ?_⟩
      refine Or.inr ⟨⟨k, below⟩, rfl, Nat.lt_succ_self k, old, fun j less unsettled => ?_⟩
      rcases (lt_succ_iff_or below j).mp less with less | rfl
      · rcases found with ⟨_, all⟩ | ⟨u, rfl, before, fresh, least⟩
        · exact (unsettled (all j less)).elim
        · have bound := (least j less unsettled).1
          have order : (s.reach ⟨k, below⟩ : Int) ≤ s.reach u := closer
          exact ⟨by omega, fun _ => Fin.le_def.mpr (by simp only; omega)⟩
      · exact ⟨le_rfl, fun _ => le_rfl⟩
    · refine ⟨best, by simp [old, closer, bind, Except.bind, pure, Except.pure], ?_⟩
      rcases found with ⟨rfl, all⟩ | ⟨u, rfl, before, fresh, least⟩
      · have bound := bounded ⟨k, below⟩
        have limit := cap_eq
        simp only at closer
        omega
      · refine Or.inr ⟨u, rfl, by omega, fresh, fun j less unsettled => ?_⟩
        rcases (lt_succ_iff_or below j).mp less with less | rfl
        · exact least j less unsettled
        · simp only at closer
          exact ⟨by omega, fun same => by omega⟩

/-- The scan selects the node that the search settles next. -/
theorem scan_next (bounded : ∀ v, s.reach v ≤ cap) (left : ∃ v, v ∉ s.settled) :
    ∃ u : Fin n, forRange n (INT_MAX, none) (scanUnvisited (tables s)) =
      .ok ((s.reach u : Int), some u.val) ∧ s.Next u := by
  obtain ⟨best, run, found⟩ := forRange_invariant (scanUnvisited (tables s)) (Scanned s)
    (Or.inl ⟨rfl, fun j less => (Nat.not_lt_zero _ less).elim⟩)
    (fun k best below found => found.pass bounded below)
  rcases found with ⟨_, all⟩ | ⟨u, rfl, _, fresh, least⟩
  · obtain ⟨v, unsettled⟩ := left
    exact (unsettled (all v v.isLt)).elim
  · exact ⟨u, run, fresh, fun v unsettled => (least v v.isLt unsettled).1,
      fun v unsettled => (least v v.isLt unsettled).2⟩

/-- The tables after `k` passes of the loop that relaxes the links of `u`. -/
def relaxedTables (f : Fin n → Fin n → Int) (src u : Fin n) (s : Search (Fin n)) (k : Nat) : RouteTables where
  visited := List.ofFn fun j => decide (j ∈ u :: s.settled)
  minDist := List.ofFn (upTo k (fun j => ((s.settle (lengths f) src u).reach j : Int)) fun j => s.reach j)
  nextHop := List.ofFn (upTo k (fun j => ((s.settle (lengths f) src u).via j).val) fun j => (s.via j).val)

section Pass
variable {u : Fin n} {k : Nat}

theorem relaxedTables_succ (below : k < n)
    (reachKept : (s.settle (lengths f) src u).reach ⟨k, below⟩ = s.reach ⟨k, below⟩)
    (viaKept : (s.settle (lengths f) src u).via ⟨k, below⟩ = s.via ⟨k, below⟩) :
    relaxedTables f src u s (k + 1) = relaxedTables f src u s k := by
  unfold relaxedTables
  rw [upTo_succ_of_eq below (by rw [reachKept]), upTo_succ_of_eq below (by rw [viaKept])]

/-- The loop over the links of `u` leaves the distance of `u` alone. -/
theorem readAt_source : readAt (relaxedTables f src u s k).minDist u = .ok (s.reach u : Int) := by
  have unchanged : upTo k (fun j => ((s.settle (lengths f) src u).reach j : Int)) (fun j => s.reach j) u = s.reach u := by
    simp [upTo, Search.settle_reach_of_settled (List.mem_cons_self)]
  rw [← unchanged]
  exact readAt_ofFn _ u

theorem readAt_minDist (below : k < n) :
    readAt (relaxedTables f src u s k).minDist k = .ok (s.reach ⟨k, below⟩ : Int) := by
  have unchanged : upTo k (fun j => ((s.settle (lengths f) src u).reach j : Int)) (fun j => s.reach j) ⟨k, below⟩ =
      s.reach ⟨k, below⟩ := by simp [upTo]
  rw [← unchanged]
  exact readAt_ofFn _ ⟨k, below⟩

theorem writeAt_minDist (below : k < n) :
    writeAt (relaxedTables f src u s k).minDist k ((s.settle (lengths f) src u).reach ⟨k, below⟩ : Int) =
      .ok (relaxedTables f src u s (k + 1)).minDist := by
  have store := writeAt_ofFn
    (upTo k (fun j => ((s.settle (lengths f) src u).reach j : Int)) fun j => s.reach j) ⟨k, below⟩
    ((s.settle (lengths f) src u).reach ⟨k, below⟩ : Int)
  rw [upTo_update below (fun j => ((s.settle (lengths f) src u).reach j : Int))] at store
  exact store

theorem writeAt_nextHop (below : k < n) (via : (s.settle (lengths f) src u).via ⟨k, below⟩ = u) :
    writeAt (relaxedTables f src u s k).nextHop k u.val = .ok (relaxedTables f src u s (k + 1)).nextHop := by
  have hop := writeAt_ofFn
    (upTo k (fun j => ((s.settle (lengths f) src u).via j).val) fun j => (s.via j).val) ⟨k, below⟩
    ((s.settle (lengths f) src u).via ⟨k, below⟩).val
  rw [upTo_update below (fun j => ((s.settle (lengths f) src u).via j).val), via] at hop
  exact hop

theorem nextHop_kept (below : k < n) (via : (s.settle (lengths f) src u).via ⟨k, below⟩ = s.via ⟨k, below⟩) :
    (relaxedTables f src u s (k + 1)).nextHop = (relaxedTables f src u s k).nextHop :=
  congrArg List.ofFn (upTo_succ_of_eq below (congrArg Fin.val via))

/-- A node that is settled is passed over. -/
theorem relaxedTables_settled (below : k < n) (done : (⟨k, below⟩ : Fin n) ∈ u :: s.settled) :
    relaxedTables f src u s (k + 1) = relaxedTables f src u s k := by
  rcases s.settle_cases (lengths f) src u ⟨k, below⟩ with ⟨reachKept, viaKept, _⟩ | ⟨_, _, notSelf, fresh, _⟩
  · exact relaxedTables_succ below reachKept viaKept
  · exact (List.mem_cons.mp done).elim (fun same => (notSelf same).elim) (fun same => (fresh same).elim)

/-- So is one without a link. -/
theorem relaxedTables_unlinked (below : k < n) (noLink : lengths f u ⟨k, below⟩ = none) :
    relaxedTables f src u s (k + 1) = relaxedTables f src u s k := by
  rcases s.settle_cases (lengths f) src u ⟨k, below⟩ with ⟨reachKept, viaKept, _⟩ | ⟨_, link', _⟩
  · exact relaxedTables_succ below reachKept viaKept
  · cases noLink.symm.trans link'

/-- One pass of the loop does to the tables what the search does to its node. -/
theorem relax_pass (proper : Proper f) (bounded : ∀ v, s.reach v ≤ cap) (u : Fin n) (below : k < n) :
    relax (.grid f) src u (relaxedTables f src u s k) k = .ok (relaxedTables f src u s (k + 1)) := by
  have limit := cap_eq
  have seen := readAt_ofFn (fun j => decide (j ∈ u :: s.settled)) ⟨k, below⟩
  refine bind_eq_ok.mpr ⟨_, seen, ?_⟩
  by_cases done : (⟨k, below⟩ : Fin n) ∈ u :: s.settled
  · rw [if_pos (by simpa using done), relaxedTables_settled below done]
    rfl
  rw [if_neg (by simpa using done)]
  refine bind_eq_ok.mpr ⟨_, Topology.read_grid f u ⟨k, below⟩, ?_⟩
  obtain ⟨notSelf, fresh⟩ := not_or.mp (List.mem_cons.not.mp done)
  by_cases absent : f u ⟨k, below⟩ = LONG_LONG_MAX
  · rw [if_pos absent, relaxedTables_unlinked below (if_pos absent)]
    rfl
  rw [if_neg absent]
  have present : lengths f u ⟨k, below⟩ = some (f u ⟨k, below⟩).toNat := if_neg absent
  obtain ⟨nonneg, small⟩ := (proper u ⟨k, below⟩).resolve_left absent
  have boundU := bounded u
  have boundK := bounded ⟨k, below⟩
  refine bind_eq_ok.mpr ⟨_, readAt_source, bind_eq_ok.mpr ⟨_, checkLongLong_eq ?_ ?_,
    bind_eq_ok.mpr ⟨_, readAt_minDist below, ?_⟩⟩⟩
  · unfold LONG_LONG_MIN
    omega
  · unfold cap at boundU
    unfold LONG_LONG_MAX
    omega
  rcases s.settle_cases (lengths f) src u ⟨k, below⟩ with
    ⟨reachKept, viaKept, kept⟩ | ⟨e, link', _, _, less, new, via⟩
  · have notLess := kept notSelf fresh _ present
    rw [if_neg (by omega), relaxedTables_succ below reachKept viaKept]
    rfl
  · cases present.symm.trans link'
    have value : storeInt (s.reach u + f u ⟨k, below⟩) =
        ((s.settle (lengths f) src u).reach ⟨k, below⟩ : Int) := by
      rw [new, storeInt_eq (by unfold INT_MIN; omega) (by omega)]
      push_cast
      omega
    rw [if_pos (by omega), value]
    refine bind_eq_ok.mpr ⟨_, writeAt_minDist below, ?_⟩
    by_cases atSrc : u = src
    · rw [if_pos (congrArg Fin.val atSrc), ← nextHop_kept below (via.trans (if_pos atSrc))]
      rfl
    · rw [if_neg (fun same => atSrc (Fin.ext same))]
      exact bind_eq_ok.mpr ⟨_, writeAt_nextHop below (via.trans (if_neg atSrc)), rfl⟩

end Pass

theorem relaxedTables_zero (u : Fin n) : relaxedTables f src u s 0 =
    { tables s with visited := List.ofFn fun j => decide (j ∈ u :: s.settled) } := by
  simp only [relaxedTables, tables, upTo_zero]

theorem relaxedTables_full (u : Fin n) : relaxedTables f src u s n = tables (s.settle (lengths f) src u) := by
  simp only [relaxedTables, tables, upTo_full]
  rfl

theorem relax_loop (proper : Proper f) (bounded : ∀ v, s.reach v ≤ cap) (u : Fin n) :
    forRange n { tables s with visited := List.ofFn fun j => decide (j ∈ u :: s.settled) }
      (relax (.grid f) src u) = .ok (tables (s.settle (lengths f) src u)) := by
  have run := forRange_eq (relax (.grid f) src u) (relaxedTables f src u s)
    (fun k below => relax_pass proper bounded u below)
  rw [← relaxedTables_zero u, run, relaxedTables_full u]

theorem mark_visited (u : Fin n) : writeAt (tables s).visited u true =
    .ok (List.ofFn fun j => decide (j ∈ u :: s.settled)) := by
  have mark := writeAt_ofFn (fun j => decide (j ∈ s.settled)) u true
  have marked : Function.update (fun j => decide (j ∈ s.settled)) u true =
      fun j => decide (j ∈ u :: s.settled) := by
    funext j
    by_cases same : j = u <;> simp [same]
  rw [marked] at mark
  exact mark

/-- One pass of the outer loop is one step of the search. -/
theorem visitNearest_step (proper : Proper f) (run : Run (lengths f) src cap s) (left : ∃ v, v ∉ s.settled) :
    ∃ u, visitNearest (.grid f) n src (tables s) = .ok (tables (s.settle (lengths f) src u)) ∧ s.Next u := by
  obtain ⟨u, scan, next⟩ := scan_next run.reach_le_cap left
  exact ⟨u, bind_eq_ok.mpr ⟨_, scan, bind_eq_ok.mpr ⟨_, mark_visited u, relax_loop proper run.reach_le_cap u⟩⟩, next⟩

theorem resetNextHop_eq (n : Nat) (nextHop : List Nat) :
    resetNextHop n nextHop = .ok (List.ofFn fun i : Fin n => i.val) := by
  unfold resetNextHop
  generalize sized : (if nextHop.length ≠ n then
    nextHop.take n ++ List.replicate (n - nextHop.length) 0 else nextHop) = hops
  have length : hops.length = n := by
    rw [← sized]
    split
    · simp only [List.length_append, List.length_take, List.length_replicate]
      omega
    · omega
  subst n
  have run := forRange_eq (fun hops i => writeAt hops i i)
    (fun k => List.ofFn (upTo k (fun i : Fin hops.length => i.val) hops.get))
    (fun k below => by rw [writeAt_ofFn _ ⟨k, below⟩, upTo_update below (fun i => i.val)])
  simpa only [upTo_zero, upTo_full, List.ofFn_get] using run

/-- The tables with which `route` enters its outer loop. -/
def startTables (n src_idx : Nat) : RouteTables where
  visited := List.replicate n false
  minDist := (List.replicate n INT_MAX).set src_idx 0
  nextHop := List.ofFn fun i : Fin n => i.val

theorem tables_initial (src : Fin n) : tables (Search.initial src cap) = startTables n src := by
  have zeroed := writeAt_ofFn (fun _ : Fin n => INT_MAX) src 0
  rw [List.ofFn_const] at zeroed
  unfold tables startTables Search.initial
  rw [(writeAt_eq_ok.mp zeroed).2]
  congr 1
  · simp
  · congr 1
    funext j
    by_cases atSrc : j = src <;> simp [atSrc, cap_eq]

theorem routeTables_eq (topology : Topology) (nextHop : List Nat) {src_idx : Nat} (inside : src_idx < n) :
    routeTables topology nextHop n src_idx =
      forRange n (startTables n src_idx) fun t _ => visitNearest topology n src_idx t := by
  have zeroed : writeAt (List.replicate n INT_MAX) src_idx 0 = .ok ((List.replicate n INT_MAX).set src_idx 0) :=
    writeAt_eq_ok.mpr ⟨by rwa [List.length_replicate], rfl⟩
  rw [routeTables, resetNextHop_eq, ok_bind, zeroed, ok_bind]
  rfl

section Counting

theorem exists_unsettled (few : s.settled.length < n) : ∃ v, v ∉ s.settled := by
  by_contra none
  have all : ∀ v, v ∈ s.settled := fun v => by_contra fun absent => none ⟨v, absent⟩
  have full := (List.subperm_of_subset (List.nodup_finRange n) fun v _ => all v).length_le
  rw [List.length_finRange] at full
  omega

theorem settled_length_le (run : Run (lengths f) src cap s) : s.settled.length ≤ n := by
  have once := (List.subperm_of_subset run.settled_nodup fun v _ => List.mem_finRange v).length_le
  rwa [List.length_finRange] at once

theorem all_settled (run : Run (lengths f) src cap s) (count : s.settled.length = n) (v : Fin n) : v ∈ s.settled := by
  have perm := (List.subperm_of_subset run.settled_nodup fun v _ => List.mem_finRange v).perm_of_length_le
    (by rw [List.length_finRange, count])
  exact perm.mem_iff.mpr (List.mem_finRange v)

theorem settled_length (done : Finished (lengths f) src cap s) : s.settled.length = n := by
  have most := settled_length_le done.run
  by_contra fewer
  obtain ⟨v, fresh⟩ := exists_unsettled (by omega : s.settled.length < n)
  exact fresh (done.all v)

end Counting

/-- `route` runs the search to its end, whatever `nextHop` held before. -/
theorem routeTables_search (proper : Proper f) (src : Fin n) (nextHop : List Nat) :
    ∃ s, Finished (lengths f) src cap s ∧ routeTables (.grid f) nextHop n src = .ok (tables s) := by
  obtain ⟨t, loop, s, run, count, rfl⟩ := forRange_invariant
    (fun t _ => visitNearest (.grid f) n src t)
    (fun k t => ∃ s, Run (lengths f) src cap s ∧ s.settled.length = k ∧ t = tables s)
    ⟨_, Run.start, rfl, rfl⟩
    (fun k t (below : k < n) ⟨s, run, count, same⟩ => by
      obtain ⟨u, step, next⟩ := visitNearest_step proper run (exists_unsettled (by omega))
      exact ⟨_, by rw [same]; exact step, _, run.settle next, by simp [Search.settle, count], rfl⟩)
  refine ⟨s, ⟨run, all_settled run count, by decide⟩, ?_⟩
  rw [routeTables_eq _ _ src.isLt, ← tables_initial]
  exact loop

end Nexus
