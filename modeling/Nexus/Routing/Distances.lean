import Nexus.Routing.Simulation

namespace Nexus
open ShortestPath

/-- The length of a cheapest path, no more than `INT_MAX`, which also stands for a missing path. -/
structure IsDistance {n : Nat} (f : Fin n → Fin n → Int) (src j : Fin n) (dist : Int) : Prop where
  reached : ∀ d, Shortest (lengths f) src j d → dist = min INT_MAX d
  unreached : (¬∃ d, Walk (lengths f) src j d) → dist = INT_MAX

/-- How the table shows the way to `j`: the direct link, or another node before `j` on a way of the same length. -/
def Shown (t : Topology) (tables : RouteTables) (src j : Fin t.rows.length) (dist : Int) : Prop :=
  (tables.nextHop[j.val]? = some j.val ∧ t.entry src j = dist) ∨
    ∃ u : Fin t.rows.length, tables.nextHop[j.val]? = some u.val ∧ u ≠ j ∧ u ≠ src ∧
      ∃ before, tables.minDist[u.val]? = some before ∧ before + t.entry u j = dist

section Finished
variable {n : Nat} {f : Fin n → Fin n → Int} {src j : Fin n} {s : Search (Fin n)}

theorem Proper.entry_eq (proper : Proper f) {u : Fin n} {e : Nat} (link : lengths f u j = some e) : f u j = e := by
  unfold lengths at link
  split at link
  · cases link
  · rename_i present
    obtain ⟨nonneg, _⟩ := (proper u j).resolve_left present
    cases link
    exact (Int.toNat_of_nonneg nonneg).symm

theorem isDistance_reach (done : Finished (lengths f) src cap s) (j : Fin n) : IsDistance f src j (s.reach j) := by
  have limit := cap_eq
  have bound := done.run.reach_le_cap j
  refine ⟨fun d shortest => ?_, fun none => ?_⟩
  · by_cases below : d < cap
    · have reached := done.reach_eq shortest below
      omega
    · have far : ¬s.reach j < cap := fun found => below ((done.shortest found).unique shortest ▸ found)
      omega
  · have far : ¬s.reach j < cap := fun found => none ⟨_, done.run.walk found⟩
    omega

theorem minDist_tables (j : Fin n) : (tables s).minDist[j.val]? = some (s.reach j : Int) := by
  simp [tables]

theorem nextHop_tables (j : Fin n) : (tables s).nextHop[j.val]? = some (s.via j).val := by
  simp [tables]

end Finished

theorem shown_tables {t : Topology} {src j : Fin t.rows.length} {s : Search (Fin t.rows.length)}
    (proper : Proper t.entry) (done : Finished (lengths t.entry) src cap s) (other : j ≠ src)
    (found : (s.reach j : Int) < INT_MAX) : Shown t (tables s) src j (s.reach j) := by
  have limit := cap_eq
  cases done.run.recorded done.positive other (by omega) with
  | direct self link =>
    refine Or.inl ⟨?_, proper.entry_eq link⟩
    rw [nextHop_tables, self]
  | relay notSelf notSrc tight _ _ =>
    obtain ⟨e, link, sum⟩ := tight.length
    refine Or.inr ⟨s.via j, nextHop_tables j, notSelf, notSrc, _, minDist_tables _, ?_⟩
    rw [proper.entry_eq link]
    omega

/-- `route` ends with the lengths of the cheapest paths, saturated at `INT_MAX`, and with a table that shows the last
step of one of them for every node it reaches. -/
theorem route_distances (nm : NetworkManager) (size : nm.nodes.length = nm.topology.rows.length)
    (proper : Proper nm.topology.entry) (src_idx : Fin nm.topology.rows.length) :
    ∃ tables, routeTables nm.topology nm.nextHop nm.nodes.length src_idx = .ok tables ∧
      nm.route src_idx = .ok { nm with nextHop := tables.nextHop } ∧
      ∀ j : Fin nm.topology.rows.length, ∃ dist, tables.minDist[j.val]? = some dist ∧
        IsDistance nm.topology.entry src_idx j dist ∧
        (j ≠ src_idx → dist < INT_MAX → Shown nm.topology tables src_idx j dist) := by
  obtain ⟨s, done, run⟩ := routeTables_search proper src_idx nm.nextHop
  rw [Topology.grid_entry] at run
  have run : routeTables nm.topology nm.nextHop nm.nodes.length src_idx = .ok (tables s) := by
    rw [size]
    exact run
  refine ⟨tables s, run, bind_eq_ok.mpr ⟨_, run, rfl⟩, fun j => ?_⟩
  exact ⟨_, minDist_tables j, isDistance_reach done j, shown_tables proper done⟩

/-- Two satellites five apart. -/
def nearPair : NetworkManager where
  topology := ⟨[[0, 5], [5, 0]], by decide⟩
  nextHop := []
  nodes := [⟨.satellite, "1", "sat1", "127.0.0.1", 33001, (.finite 0, .finite 0)⟩,
    ⟨.satellite, "2", "sat2", "127.0.0.1", 33002, (.finite 5, .finite 0)⟩]

theorem route_distances_nearPair :
    ∃ tables, routeTables nearPair.topology nearPair.nextHop nearPair.nodes.length (0 : Fin 2) = .ok tables ∧
      nearPair.route (0 : Fin 2) = .ok { nearPair with nextHop := tables.nextHop } ∧
      ∀ j : Fin 2, ∃ dist, tables.minDist[j.val]? = some dist ∧
        IsDistance nearPair.topology.entry (0 : Fin 2) j dist ∧
        (j ≠ (0 : Fin 2) → dist < INT_MAX → Shown nearPair.topology tables (0 : Fin 2) j dist) := by
  have proper : Proper nearPair.topology.entry := by
    unfold Proper
    decide
  exact route_distances nearPair rfl proper (0 : Fin 2)

end Nexus
