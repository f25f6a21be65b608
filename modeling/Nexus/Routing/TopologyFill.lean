import Nexus.Routing.Weights

namespace Nexus
namespace Topology

/-- The topology with the given entries. -/
def grid {n : Nat} (f : Fin n → Fin n → Int) : Topology where
  rows := List.ofFn fun i => List.ofFn (f i)
  square := by
    intro row member
    obtain ⟨i, rfl⟩ := List.mem_ofFn.mp member
    rw [List.length_ofFn, List.length_ofFn]

theorem ext_rows {t t' : Topology} (same : t.rows = t'.rows) : t = t' := by
  cases t
  cases t'
  cases same
  rfl

/-- The entries of a topology by position. -/
def entry (t : Topology) (i j : Fin t.rows.length) : Int :=
  (t.rows.get i).get (j.cast (t.square _ (List.get_mem _ i)).symm)

theorem grid_entry (t : Topology) : grid t.entry = t := by
  apply ext_rows
  apply List.ext_get
  · simp [grid]
  intro i hi hi'
  apply List.ext_get
  · simpa [grid] using (t.square _ (List.get_mem _ ⟨i, hi'⟩)).symm
  intro j hj hj'
  simp [grid, entry]

theorem exists_grid {n : Nat} (t : Topology) (size : t.rows.length = n) :
    ∃ f : Fin n → Fin n → Int, t = grid f := by
  subst size
  exact ⟨t.entry, t.grid_entry.symm⟩

variable {n : Nat} (f : Fin n → Fin n → Int)

theorem read_grid (i j : Fin n) : (grid f).read i j = .ok (f i j) :=
  bind_eq_ok.mpr ⟨_, readAt_ofFn _ i, readAt_ofFn _ j⟩

theorem write_grid (i j : Fin n) (w : Int) :
    (grid f).write i j w = .ok (grid fun a b => if a = i ∧ b = j then w else f a b) := by
  have atRow : (grid f).rows[i.val]? = some (List.ofFn (f i)) := by simp [grid]
  have inside : j.val < (List.ofFn (f i)).length := by simp
  have entry := writeAt_ofFn (f i) j w
  rw [writeAt, if_pos inside] at entry
  have row := writeAt_ofFn (fun a => List.ofFn (f a)) i ((List.ofFn (f i)).set j w)
  rw [writeAt, if_pos (by simp)] at row
  unfold write
  split
  · rename_i missing
    cases missing.symm.trans atRow
  · rename_i found present
    cases present.symm.trans atRow
    rw [if_pos inside]
    congr 1
    apply ext_rows
    show (grid f).rows.set i ((List.ofFn (f i)).set j w) = _
    rw [show (grid f).rows = List.ofFn fun a => List.ofFn (f a) from rfl, Except.ok.inj row]
    unfold grid
    congr 1
    funext a
    by_cases same : a = i
    · subst a
      rw [Function.update_self, Except.ok.inj entry]
      congr 1
      funext b
      simp [Function.update_apply]
    · rw [Function.update_of_ne same]
      simp [same]

end Topology

/-- The computed weights of a node list, none of which overflowed. -/
structure Weighted (nodes : List Node) where
  weight : Fin nodes.length → Fin nodes.length → Int
  computed : ∀ i j, linkWeight (nodes.get i) (nodes.get j) = .ok (weight i j)

namespace Weighted
variable {nodes : List Node} (W : Weighted nodes)

theorem symm (i j : Fin nodes.length) : W.weight j i = W.weight i j := by
  have run := W.computed j i
  rw [linkWeight_comm, W.computed i j] at run
  exact (Except.ok.inj run).symm

/-- The topology part way through the loop: the entries in `done` are computed already. -/
def overlay (done : Fin nodes.length → Fin nodes.length → Prop) [∀ i j, Decidable (done i j)]
    (f : Fin nodes.length → Fin nodes.length → Int) : Topology :=
  .grid fun i j => if done i j then W.weight i j else f i j

theorem overlay_congr {done done' : Fin nodes.length → Fin nodes.length → Prop}
    [∀ i j, Decidable (done i j)] [∀ i j, Decidable (done' i j)]
    (f : Fin nodes.length → Fin nodes.length → Int) (same : ∀ a b, done a b ↔ done' a b) :
    W.overlay done f = W.overlay done' f := by
  unfold overlay
  congr 1
  funext a b
  simp only [same a b]

/-- One store of the loop adds an entry and its mirror image. -/
theorem storeLink_overlay (done : Fin nodes.length → Fin nodes.length → Prop)
    [∀ i j, Decidable (done i j)] (f : Fin nodes.length → Fin nodes.length → Int)
    (i j : Fin nodes.length) :
    storeLink nodes (W.overlay done f) i j =
      .ok (W.overlay (fun a b => done a b ∨ a = i ∧ b = j ∨ a = j ∧ b = i) f) := by
  refine bind_eq_ok.mpr ⟨_, readAt_get nodes i, bind_eq_ok.mpr ⟨_, readAt_get nodes j, ?_⟩⟩
  refine bind_eq_ok.mpr ⟨_, W.computed i j, bind_eq_ok.mpr ⟨_, Topology.write_grid _ i j _, ?_⟩⟩
  rw [Topology.write_grid]
  unfold overlay
  congr 2
  funext a b
  by_cases mirror : a = j ∧ b = i
  · obtain ⟨rfl, rfl⟩ := mirror
    simp [W.symm]
  · by_cases entry : a = i ∧ b = j
    · obtain ⟨rfl, rfl⟩ := entry
      simp
    · simp [mirror, entry]

theorem fill_row (done : Fin nodes.length → Fin nodes.length → Prop) [∀ i j, Decidable (done i j)]
    (f : Fin nodes.length → Fin nodes.length → Int) (i : Fin nodes.length) :
    forRange nodes.length (W.overlay done f) (fun t j => storeLink nodes t i j) =
      .ok (W.overlay (fun a b => done a b ∨ a = i ∨ b = i) f) := by
  have run := forRange_eq (fun t j => storeLink nodes t i j)
    (fun k => W.overlay (fun a b => done a b ∨ a = i ∧ b.val < k ∨ a.val < k ∧ b = i) f)
    (fun k below => (W.storeLink_overlay _ f i ⟨k, below⟩).trans (congrArg Except.ok
      (W.overlay_congr f fun a b => by simp only [lt_succ_iff_or below]; tauto)))
  simpa using run

/-- After the double loop every entry is the weight of its pair, whatever was there before. -/
theorem fill (f : Fin nodes.length → Fin nodes.length → Int) :
    (forRange nodes.length (Topology.grid f) fun t i =>
      forRange nodes.length t fun t j => storeLink nodes t i j) = .ok (.grid W.weight) := by
  have run := forRange_eq (fun t i => forRange nodes.length t fun t j => storeLink nodes t i j)
    (fun k => W.overlay (fun a b => a.val < k ∨ b.val < k) f)
    (fun k below => (W.fill_row _ f ⟨k, below⟩).trans (congrArg Except.ok
      (W.overlay_congr f fun a b => by simp only [lt_succ_iff_or below]; tauto)))
  simpa [overlay] using run

end Weighted

namespace NetworkManager

theorem srcIdx_lt {nodes : List Node} (listed : nodes ≠ []) (src : Node) : srcIdx nodes src < nodes.length := by
  unfold srcIdx
  cases position : nodes.findIdx? fun node => node.name = src.name with
  | none => exact List.length_pos_iff.mpr listed
  | some i =>
    obtain ⟨inside, _⟩ := List.findIdx?_eq_some_iff_getElem.mp position
    exact inside

/-- The loop starts from a topology of the current size: the one at hand, or a new one. -/
theorem updateRoutingTable_sized (nm : NetworkManager) (src : Node) :
    ∃ t : Topology, t.rows.length = nm.nodes.length ∧ nm.updateRoutingTable src =
      (forRange nm.nodes.length t fun t i => forRange nm.nodes.length t fun t j => storeLink nm.nodes t i j) >>=
        fun topology => { nm with topology }.route (srcIdx nm.nodes src) := by
  by_cases stale : nm.nodes.length ≠ nm.topology.rows.length
  · refine ⟨nm.createRoutingTable.topology, List.length_replicate, ?_⟩
    unfold updateRoutingTable
    simp only [if_pos stale]
    rfl
  · refine ⟨nm.topology, by omega, ?_⟩
    unfold updateRoutingTable
    simp only [if_neg stale]

end NetworkManager
end Nexus
