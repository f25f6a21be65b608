import Nexus.Routing.Distances

namespace Nexus
open ShortestPath

/-- A run of the outer loop of `route`: the tables before each pass, the index that its scan assigns to `minUnvIdx`,
and the tables before each of its relaxations. -/
structure Passes (topology : Topology) (n src_idx : Nat) where
  before : Nat → RouteTables
  minUnvIdx : Nat → Nat
  relaxing : Nat → Nat → RouteTables
  start : before 0 = startTables n src_idx
  scan : ∀ i < n, ∃ minUnvisited, forRange n (INT_MAX, none) (scanUnvisited (before i)) =
    .ok (minUnvisited, some (minUnvIdx i))
  visit : ∀ i < n, relaxing i 0 = { before i with visited := (before i).visited.set (minUnvIdx i) true }
  pass : ∀ i < n, ∀ j < n, relax topology src_idx (minUnvIdx i) (relaxing i j) j = .ok (relaxing i (j + 1))
  next : ∀ i < n, before (i + 1) = relaxing i n

/-- In every pass the scan has found an unvisited node, the source in the first one only, every node once; no sum leaves
`long long`, and what is stored into the table of `int` is an `int`. -/
structure Passes.WellDefined {topology : Topology} {n src_idx : Nat} (passes : Passes topology n src_idx) : Prop where
  unvisited : ∀ i < n, passes.minUnvIdx i < n ∧ (passes.before i).visited[passes.minUnvIdx i]? = some false
  source : ∀ i < n, passes.minUnvIdx i = src_idx ↔ i = 0
  once : ∀ v < n, ∃ i < n, passes.minUnvIdx i = v ∧ ∀ k < n, passes.minUnvIdx k = v → k = i
  fits : ∀ i < n, ∀ j < n, ∀ base link old, (passes.relaxing i j).visited[j]? = some false →
    (passes.relaxing i j).minDist[passes.minUnvIdx i]? = some base → topology.read (passes.minUnvIdx i) j = .ok link →
    link ≠ LONG_LONG_MAX → (passes.relaxing i j).minDist[j]? = some old →
    (LONG_LONG_MIN ≤ base + link ∧ base + link ≤ LONG_LONG_MAX) ∧
      (base + link < old → INT_MIN ≤ base + link ∧ base + link ≤ INT_MAX)

/-- The passes of a run are determined by the tables before the first one. -/
theorem Passes.run {topology : Topology} {n src_idx : Nat} (passes : Passes topology n src_idx)
    (inside : ∀ i < n, passes.minUnvIdx i < (passes.before i).visited.length) :
    forRange n (startTables n src_idx) (fun t _ => visitNearest topology n src_idx t) = .ok (passes.before n) := by
  rw [← passes.start]
  refine forRange_eq _ passes.before fun i below => ?_
  obtain ⟨minUnvisited, scan⟩ := passes.scan i below
  refine bind_eq_ok.mpr ⟨_, scan, bind_eq_ok.mpr ⟨_, writeAt_eq_ok.mpr ⟨inside i below, rfl⟩, ?_⟩⟩
  rw [← passes.visit i below, passes.next i below]
  exact forRange_eq _ (passes.relaxing i) (passes.pass i below)

section Search
variable {n : Nat} {f : Fin n → Fin n → Int} {src : Fin n} {s : Search (Fin n)}

/-- The node of choice number `i`. -/
def chosen (src : Fin n) (s : Search (Fin n)) (i : Nat) : Fin n := s.settled.reverse.getD i src

/-- The search after its first `i` choices. -/
def chosenState (f : Fin n → Fin n → Int) (src : Fin n) (s : Search (Fin n)) (i : Nat) : Search (Fin n) :=
  Search.after (lengths f) src cap (s.settled.reverse.take i)

theorem chosen_eq (done : Finished (lengths f) src cap s) {i : Nat} (below : i < n) :
    s.settled.reverse[i]? = some (chosen src s i) := by
  have inside : i < s.settled.reverse.length := by rwa [List.length_reverse, settled_length done]
  rw [chosen, List.getD_eq_getElem?_getD, List.getElem?_eq_getElem inside, Option.getD_some]

theorem chosen_next (done : Finished (lengths f) src cap s) {i : Nat} (below : i < n) :
    Run (lengths f) src cap (chosenState f src s i) ∧ (chosenState f src s i).Next (chosen src s i) ∧
      chosenState f src s (i + 1) = (chosenState f src s i).settle (lengths f) src (chosen src s i) := by
  obtain ⟨inside, here⟩ := List.getElem?_eq_some_iff.mp (chosen_eq done below)
  have split : s.settled.reverse =
      s.settled.reverse.take i ++ chosen src s i :: s.settled.reverse.drop (i + 1) := by
    conv_lhs => rw [← List.take_append_drop i s.settled.reverse, List.drop_eq_getElem_cons inside, here]
  obtain ⟨earlier, next⟩ := done.run.replay.2 _ _ _ split
  refine ⟨earlier, next, ?_⟩
  rw [chosenState, chosenState, List.take_succ_eq_append_getElem inside, here, Search.after_snoc]

/-- The passes of `route` make the choices of the search. -/
def chosenPasses (proper : Proper f) (done : Finished (lengths f) src cap s) : Passes (.grid f) n src where
  before i := tables (chosenState f src s i)
  minUnvIdx i := chosen src s i
  relaxing i := relaxedTables f src (chosen src s i) (chosenState f src s i)
  start := tables_initial src
  scan i below := by
    obtain ⟨run, next, _⟩ := chosen_next done below
    obtain ⟨u, scan, other⟩ := scan_next run.reach_le_cap ⟨_, next.fresh⟩
    rw [scan, other.unique next]
    exact ⟨_, rfl⟩
  visit i _ := by
    rw [relaxedTables_zero, (writeAt_eq_ok.mp (mark_visited (chosen src s i))).2]
  pass i below j inside := relax_pass proper (chosen_next done below).1.reach_le_cap (chosen src s i) inside
  next i below := by rw [(chosen_next done below).2.2, relaxedTables_full]

theorem relaxedTables_fits (proper : Proper f) (bounded : ∀ v, s.reach v ≤ cap) {u : Fin n} {j : Nat} (inside : j < n)
    {base link old : Int} (source : (relaxedTables f src u s j).minDist[u.val]? = some base)
    (read : (Topology.grid f).read u j = .ok link) (present : link ≠ LONG_LONG_MAX)
    (target : (relaxedTables f src u s j).minDist[j]? = some old) :
    (LONG_LONG_MIN ≤ base + link ∧ base + link ≤ LONG_LONG_MAX) ∧
      (base + link < old → INT_MIN ≤ base + link ∧ base + link ≤ INT_MAX) := by
  cases (readAt_eq_ok.mpr source).symm.trans readAt_source
  cases (readAt_eq_ok.mpr target).symm.trans (readAt_minDist inside)
  cases read.symm.trans (Topology.read_grid f u ⟨j, inside⟩)
  obtain ⟨nonneg, small⟩ := (proper u ⟨j, inside⟩).resolve_left present
  have near := bounded u
  have far := bounded ⟨j, inside⟩
  have limit := cap_eq
  refine ⟨?_, fun less => ?_⟩
  · unfold LONG_LONG_MIN LONG_LONG_MAX
    unfold cap at near
    omega
  · unfold INT_MIN
    omega

/-- The first choice is the source, and it is no later one. -/
theorem chosen_source (done : Finished (lengths f) src cap s) {i : Nat} (below : i < n) :
    chosen src s i = src ↔ i = 0 := by
  obtain ⟨run, next, _⟩ := chosen_next done below
  have count : (chosenState f src s i).settled.length = i := by
    rw [chosenState, Search.settled_after, List.length_reverse, List.length_take, List.length_reverse,
      settled_length done]
    omega
  rcases run.src_first done.positive next with ⟨initial, same⟩ | ⟨member, other⟩
  · rw [initial] at count
    exact iff_of_true same count.symm
  · have nonempty := List.length_pos_of_mem member
    exact iff_of_false other (by omega)

theorem chosen_once (done : Finished (lengths f) src cap s) (v : Fin n) :
    ∃ i < n, chosen src s i = v ∧ ∀ k < n, chosen src s k = v → k = i := by
  obtain ⟨i, inside, here⟩ := List.getElem_of_mem (List.mem_reverse.mpr (done.all v))
  have below : i < n := by rwa [List.length_reverse, settled_length done] at inside
  have found := chosen_eq done below
  rw [List.getElem?_eq_getElem inside, here, Option.some.injEq] at found
  refine ⟨i, below, found.symm, fun k small same => ?_⟩
  obtain ⟨within, there⟩ := List.getElem?_eq_some_iff.mp (chosen_eq done small)
  have nodup := List.nodup_reverse.mpr done.run.settled_nodup
  exact nodup.getElem_inj_iff.mp (there.trans (same.trans here.symm))

theorem chosenPasses_wellDefined (proper : Proper f) (done : Finished (lengths f) src cap s) :
    (chosenPasses proper done).WellDefined where
  unvisited i below := by
    have read := readAt_ofFn (fun j => decide (j ∈ (chosenState f src s i).settled)) (chosen src s i)
    rw [decide_eq_false (chosen_next done below).2.1.fresh] at read
    exact ⟨(chosen src s i).isLt, readAt_eq_ok.mp read⟩
  source i below := Fin.ext_iff.symm.trans (chosen_source done below)
  once v below := by
    obtain ⟨i, inside, here, only⟩ := chosen_once done ⟨v, below⟩
    exact ⟨i, inside, congrArg Fin.val here, fun k small same => only k small (Fin.ext same)⟩
  fits i below j inside base link old _ source read present target :=
    relaxedTables_fits proper (chosen_next done below).1.reach_le_cap inside source read present target

end Search

/-- Over `n` nodes and entries that are `LLONG_MAX` or below 2^62, `route` runs in passes that are well defined. -/
theorem NetworkManager.route_wellDefined (nm : NetworkManager) (src_idx : Nat) (inside : src_idx < nm.nodes.length)
    (size : nm.topology.rows.length = nm.nodes.length)
    (entries : ∀ row ∈ nm.topology.rows, ∀ w ∈ row, w = LONG_LONG_MAX ∨ 0 ≤ w ∧ w < 2 ^ 62) :
    ∃ passes : Passes nm.topology nm.nodes.length src_idx, passes.WellDefined ∧
      nm.route src_idx = .ok { nm with nextHop := (passes.before nm.nodes.length).nextHop } := by
  obtain ⟨f, grid⟩ := Topology.exists_grid nm.topology size
  have proper : Proper f := fun i j => by
    have row : List.ofFn (f i) ∈ nm.topology.rows := by
      rw [grid]
      exact List.mem_ofFn.mpr ⟨i, rfl⟩
    exact entries _ row _ (List.mem_ofFn.mpr ⟨j, rfl⟩)
  obtain ⟨s, done, _⟩ := routeTables_search proper ⟨src_idx, inside⟩ nm.nextHop
  rw [NetworkManager.route, grid]
  have defined := chosenPasses_wellDefined proper done
  refine ⟨chosenPasses proper done, defined, ?_⟩
  have loop := (chosenPasses proper done).run fun i below => by
    have visited := (defined.unvisited i below).2
    exact (List.getElem?_eq_some_iff.mp visited).1
  rw [routeTables_eq _ _ inside, loop]
  rfl

theorem NetworkManager.route_wellDefined_nearPair :
    ∃ passes : Passes nearPair.topology nearPair.nodes.length 1, passes.WellDefined ∧
      nearPair.route 1 = .ok { nearPair with nextHop := (passes.before nearPair.nodes.length).nextHop } :=
  nearPair.route_wellDefined 1 (by decide) rfl (by decide)

end Nexus
