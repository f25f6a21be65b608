import Nexus.Client
import Nexus.Routing.Simulation

namespace Nexus

/-- No access of the run is outside its vector, and no index is read before it is set. -/
def InBounds {α : Type} (x : Except Fault α) : Prop := x ≠ .error .outOfRange ∧ x ≠ .error .uninitialised

theorem EndsIn.inBounds {α : Type} {Post : α → Prop} {x : Except Fault α} (ends : EndsIn (· = .overflow) Post x) :
    InBounds x := by
  constructor
  · rintro rfl
    cases ends
  · rintro rfl
    cases ends

section Weights

theorem squaredDiff_endsIn (a b : Binary64) : EndsIn (· = .overflow) (fun _ => True) (squaredDiff a b) := by
  unfold squaredDiff
  split
  · exact checkInt_endsIn _
  · rfl

theorem distance_endsIn (a b : Node) : EndsIn (· = .overflow) (fun _ => True) (distance a b) := by
  refine (squaredDiff_endsIn _ _).bind fun x_diff _ => (squaredDiff_endsIn _ _).bind fun y_diff _ => ?_
  refine (checkInt_endsIn _).bind fun sum _ => ?_
  unfold sqrtInt
  split
  · rfl
  · trivial

theorem penalised_endsIn (weight : Int) : EndsIn (· = .overflow) (fun _ => True) (penalised weight) := by
  unfold penalised
  split
  · exact (checkLongLong_endsIn _).bind fun excess _ =>
      (checkLongLong_endsIn _).bind fun square _ => checkLongLong_endsIn _
  · trivial

/-- Where a weight is not computed, the arithmetic has left its types. -/
theorem linkWeight_endsIn (a b : Node) : EndsIn (· = .overflow) (fun _ => True) (linkWeight a b) := by
  refine (distance_endsIn a b).bind fun weight _ => ?_
  have raised : EndsIn (· = .overflow) (fun _ => True) (checkLongLong (weight + 1000) >>= penalised) :=
    (checkLongLong_endsIn _).bind fun more _ => penalised_endsIn more
  split
  · trivial
  split
  · exact raised
  split
  · exact raised
  · exact penalised_endsIn weight

end Weights

namespace Topology
variable {Allowed : Fault → Prop} {t : Topology} {i j : Nat}

theorem read_endsIn (rowInside : i < t.rows.length) (inside : j < t.rows.length) :
    EndsIn Allowed (fun _ => True) (t.read i j) := by
  refine (readAt_endsIn rowInside).bind fun row found => ?_
  have width := t.square row (List.mem_of_getElem? found)
  exact (readAt_endsIn (by omega)).mono fun _ _ => trivial

theorem write_endsIn (rowInside : i < t.rows.length) (inside : j < t.rows.length) (w : Int) :
    EndsIn Allowed (fun t' => t'.rows.length = t.rows.length) (t.write i j w) := by
  unfold write
  split
  · rename_i missing
    exact absurd rowInside (Nat.not_lt.mpr (List.getElem?_eq_none_iff.mp missing))
  · rename_i row found
    have width := t.square row (List.mem_of_getElem? found)
    rw [if_pos (by omega)]
    exact List.length_set

end Topology

theorem storeLink_endsIn {nodes : List Node} {t : Topology} {i j : Nat} (sized : t.rows.length = nodes.length)
    (left : i < nodes.length) (right : j < nodes.length) :
    EndsIn (· = .overflow) (fun t' => t'.rows.length = nodes.length) (storeLink nodes t i j) := by
  refine (readAt_endsIn left).bind fun a _ => (readAt_endsIn right).bind fun b _ => ?_
  refine (linkWeight_endsIn a b).bind fun weight _ => ?_
  refine (Topology.write_endsIn (by omega) (by omega) weight).bind fun t' same => ?_
  exact (Topology.write_endsIn (by omega) (by omega) weight).mono fun t'' same' => by omega

theorem fill_endsIn {nodes : List Node} {t : Topology} (sized : t.rows.length = nodes.length) :
    EndsIn (· = .overflow) (fun t' => t'.rows.length = nodes.length)
      (forRange nodes.length t fun t i => forRange nodes.length t fun t j => storeLink nodes t i j) :=
  EndsIn.forRange _ (fun _ (t : Topology) => t.rows.length = nodes.length) sized fun _ _ left sized =>
    EndsIn.forRange _ (fun _ (t : Topology) => t.rows.length = nodes.length) sized fun _ _ right sized =>
      storeLink_endsIn sized left right

/-- The tables of a search among `n` nodes; `minDist` holds values of `int`. -/
structure RouteTables.Sized (n : Nat) (t : RouteTables) : Prop where
  visited : t.visited.length = n
  minDist : t.minDist.length = n
  nextHop : t.nextHop.length = n
  near : ∀ d ∈ t.minDist, d ≤ INT_MAX

section Search
variable {topology : Topology} {n src_idx : Nat} {t : RouteTables}

/-- What the scan holds after `k` nodes: an unvisited node, or nothing if all of them are visited. -/
def RouteTables.Picked (n : Nat) (t : RouteTables) (k : Nat) (best : Int × Option Nat) : Prop :=
  (best = (INT_MAX, none) ∧ ∀ i < k, t.visited[i]? = some true) ∨
    ∃ u, best.2 = some u ∧ u < n ∧ t.visited[u]? = some false

theorem RouteTables.Picked.pass {k : Nat} {best : Int × Option Nat} (sized : t.Sized n) (below : k < n)
    (picked : t.Picked n k best) : EndsIn (· = .overflow) (t.Picked n (k + 1)) (scanUnvisited t best k) := by
  refine (readAt_endsIn (sized.visited.symm ▸ below)).bind fun seen here => ?_
  cases seen with
  | true =>
    rcases picked with ⟨same, all⟩ | other
    · refine Or.inl ⟨same, fun i less => ?_⟩
      rcases Nat.lt_succ_iff_lt_or_eq.mp less with before | rfl
      · exact all i before
      · exact here
    · exact Or.inr other
  | false =>
    refine (readAt_endsIn (sized.minDist.symm ▸ below)).bind fun d found => ?_
    have bound := sized.near d (List.mem_of_getElem? found)
    by_cases closer : d ≤ best.1
    · rw [if_pos closer]
      exact Or.inr ⟨k, rfl, below, here⟩
    · rw [if_neg closer]
      rcases picked with ⟨rfl, _⟩ | other
      · exact absurd bound closer
      · exact Or.inr other

theorem scan_endsIn (sized : t.Sized n) (left : t.visited.count true < n) :
    EndsIn (· = .overflow) (fun best => ∃ u, best.2 = some u ∧ u < n ∧ t.visited[u]? = some false)
      (forRange n (INT_MAX, none) (scanUnvisited t)) := by
  have start : t.Picked n 0 (INT_MAX, none) := Or.inl ⟨rfl, fun i less => absurd less (Nat.not_lt_zero i)⟩
  refine (EndsIn.forRange _ (t.Picked n) start fun k best below picked => picked.pass sized below).mono ?_
  rintro best (⟨_, all⟩ | other)
  · have full : t.visited.count true = t.visited.length := by
      refine List.count_eq_length.mpr fun seen member => ?_
      obtain ⟨i, inside, here⟩ := List.mem_iff_getElem.mp member
      have visited := all i (sized.visited ▸ inside)
      rw [List.getElem?_eq_getElem inside, here] at visited
      exact (Option.some.inj visited).symm
    have length := sized.visited
    omega
  · exact other

theorem relax_endsIn {minUnvIdx j : Nat} (shape : topology.rows.length = n) (chosen : minUnvIdx < n) (inside : j < n)
    (sized : t.Sized n) :
    EndsIn (· = .overflow) (fun t' => t'.Sized n ∧ t'.visited = t.visited)
      (relax topology src_idx minUnvIdx t j) := by
  refine (readAt_endsIn (sized.visited.symm ▸ inside)).bind fun seen _ => ?_
  split
  · exact ⟨sized, rfl⟩
  refine (Topology.read_endsIn (shape.symm ▸ chosen) (shape.symm ▸ inside)).bind fun link _ => ?_
  split
  · exact ⟨sized, rfl⟩
  refine (readAt_endsIn (sized.minDist.symm ▸ chosen)).bind fun base _ => ?_
  refine (checkLongLong_endsIn _).bind fun sum _ => ?_
  refine (readAt_endsIn (sized.minDist.symm ▸ inside)).bind fun old _ => ?_
  split
  · refine (writeAt_endsIn (sized.minDist.symm ▸ inside) _).bind ?_
    rintro minDist rfl
    have near : ∀ d ∈ t.minDist.set j (storeInt sum), d ≤ INT_MAX := by
      intro d member
      rcases List.mem_or_eq_of_mem_set member with before | rfl
      · exact sized.near d before
      · exact storeInt_le sum
    have length : (t.minDist.set j (storeInt sum)).length = n := List.length_set.trans sized.minDist
    split
    · exact ⟨⟨sized.visited, length, sized.nextHop, near⟩, rfl⟩
    · refine (writeAt_endsIn (sized.nextHop.symm ▸ inside) _).bind ?_
      rintro nextHop rfl
      exact ⟨⟨sized.visited, length, List.length_set.trans sized.nextHop, near⟩, rfl⟩
  · exact ⟨sized, rfl⟩

/-- Each pass of the outer loop finds an unvisited node and visits it. -/
theorem visitNearest_endsIn {k : Nat} (shape : topology.rows.length = n) (below : k < n)
    (kept : t.Sized n ∧ t.visited.count true = k) :
    EndsIn (· = .overflow) (fun t' => t'.Sized n ∧ t'.visited.count true = k + 1)
      (visitNearest topology n src_idx t) := by
  obtain ⟨sized, count⟩ := kept
  refine (scan_endsIn sized (by omega)).bind ?_
  rintro ⟨d, _⟩ ⟨u, rfl, inside, fresh⟩
  refine (writeAt_endsIn (sized.visited.symm ▸ inside) true).bind ?_
  rintro visited rfl
  have start : (⟨t.visited.set u true, t.minDist, t.nextHop⟩ : RouteTables).Sized n :=
    ⟨List.length_set.trans sized.visited, sized.minDist, sized.nextHop, sized.near⟩
  have more : (t.visited.set u true).count true = k + 1 := by
    obtain ⟨_, value⟩ := List.getElem?_eq_some_iff.mp fresh
    rw [List.count_set (sized.visited.symm ▸ inside), value, count]
    rfl
  refine (EndsIn.forRange _ (fun _ t' => t'.Sized n ∧ t'.visited = t.visited.set u true) ⟨start, rfl⟩
    fun j t' below ⟨sized, same⟩ => ?_).mono fun t' ⟨sized, same⟩ => ⟨sized, same ▸ more⟩
  exact (relax_endsIn shape inside below sized).mono fun t'' ⟨sized, same'⟩ => ⟨sized, same'.trans same⟩

/-- `route` stays inside its vectors on a topology of the current size, whatever its entries are and whatever `nextHop`
held before. -/
theorem routeTables_endsIn (shape : topology.rows.length = n) (inside : src_idx < n) (nextHop : List Nat) :
    EndsIn (· = .overflow) (fun t => t.Sized n) (routeTables topology nextHop n src_idx) := by
  unfold routeTables
  rw [resetNextHop_eq]
  have length : (List.replicate n INT_MAX).length = n := List.length_replicate
  have reset : EndsIn (· = Fault.overflow) (fun hops => hops.length = n)
      (.ok (List.ofFn fun i : Fin n => i.val)) := List.length_ofFn
  refine reset.bind fun hops sized => ?_
  refine (writeAt_endsIn (length.symm ▸ inside) 0).bind ?_
  rintro minDist rfl
  have near : ∀ d ∈ (List.replicate n INT_MAX).set src_idx 0, d ≤ INT_MAX := by
    intro d member
    rcases List.mem_or_eq_of_mem_set member with before | rfl
    · exact (List.eq_of_mem_replicate before).le
    · decide
  refine (EndsIn.forRange _ (fun k t => t.Sized n ∧ t.visited.count true = k)
    ⟨⟨List.length_replicate, List.length_set.trans length, sized, near⟩, ?_⟩
    fun k t below kept => visitNearest_endsIn shape below kept).mono fun t kept => kept.1
  exact List.count_eq_zero.mpr fun member => Bool.noConfusion (List.eq_of_mem_replicate member)

end Search

namespace NetworkManager

theorem route_empty (topology : Topology) (nextHop : List Nat) (src_idx : Nat) :
    (⟨topology, nextHop, []⟩ : NetworkManager).route src_idx = .error .outOfRange := by
  unfold route routeTables
  rw [List.length_nil, resetNextHop_eq]
  rfl

theorem updateRoutingTable_endsIn {nm : NetworkManager} (listed : nm.nodes ≠ []) (src : Node) :
    EndsIn (· = .overflow) (fun _ => True) (nm.updateRoutingTable src) := by
  obtain ⟨t, sized, run⟩ := nm.updateRoutingTable_sized src
  rw [run]
  refine (fill_endsIn sized).bind fun topology shape => ?_
  refine (routeTables_endsIn shape (srcIdx_lt listed src) nm.nextHop).bind fun t _ => ?_
  trivial

/-- A recomputation stays inside its vectors exactly if there is a node: otherwise the distance of the source is
written to an empty vector. -/
theorem updateRoutingTable_inBounds_iff (nm : NetworkManager) (src : Node) :
    InBounds (nm.updateRoutingTable src) ↔ nm.nodes ≠ [] := by
  constructor
  · rintro ⟨inside, _⟩ empty
    obtain ⟨t, _, run⟩ := nm.updateRoutingTable_sized src
    rw [run, empty] at inside
    refine inside ?_
    exact route_empty t nm.nextHop (srcIdx [] src)
  · exact fun listed => (updateRoutingTable_endsIn listed src).inBounds

namespace unanswered

/-- The node that was made on the command line. -/
def src : Node := ⟨.satellite, "1", "sat1", "127.0.0.1", 33001, (.finite 0, .finite 0)⟩

/-- The first fetch has failed and left the list empty; the recomputation that follows writes past the end. -/
theorem updateRoutingTable_outOfRange :
    fresh.fetchNodesFromRegistry ⟨fun _ => none, fun _ => "null\n", fun _ => "0.0"⟩ (fun _ => "1") "" = .ok fresh ∧
      fresh.updateRoutingTable src = .error .outOfRange :=
  ⟨rfl, rfl⟩

end unanswered
end NetworkManager
end Nexus
