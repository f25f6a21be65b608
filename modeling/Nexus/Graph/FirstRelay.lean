import Nexus.Graph.Overtaking

namespace ShortestPath
universe u
variable {V : Type u} [LinearOrder V]

/-- `u` is the last vertex before `d` on some shortest walk from `src`. -/
def LastRelay (g : Lengths V) (src u d : V) : Prop :=
  ∃ a e, Shortest g src u a ∧ g u d = some e ∧ Shortest g src d (a + e)

/-- The link from `src` to `u` is a shortest walk. -/
def Direct (g : Lengths V) (src u : V) : Prop :=
  ∃ a, g src u = some a ∧ Shortest g src u a

/-- `u` is nearer to `src` than `v`, or as near and reached by a shortest walk that, among the
vertices at that distance, enters only larger ones than `v`. -/
def Overtakes (g : Lengths V) (src u v : V) : Prop :=
  ∃ a b, Shortest g src u a ∧ Shortest g src v b ∧
    (a < b ∨ a = b ∧ WalkWithin g (fun y => y = src ∨ ¬Shortest g src y b ∨ v < y) src u a)

/-- Of the last relays before `d`, the one that overtakes the others satisfies `K`. -/
def FirstRelay (g : Lengths V) (src d : V) (K : V → Prop) : Prop :=
  ∃ u, K u ∧ LastRelay g src u d ∧ ∀ u', LastRelay g src u' d → ¬K u' → ¬Overtakes g src u' u

namespace Finished
variable {g : Lengths V} {src : V} {cap : Nat} {s : Search V}

theorem shortest_iff (done : Finished g src cap s) {v : V} (found : s.reach v < cap) {d : Nat} :
    Shortest g src v d ↔ s.reach v = d := by
  constructor
  · exact fun shortest => (done.shortest found).unique shortest
  · rintro rfl
    exact done.shortest found

theorem overtakes_iff (done : Finished g src cap s) {u v : V} (entry : s.Entry g src v)
    (foundU : s.reach u < cap) (foundV : s.reach v < cap) (uNotSrc : u ≠ src) (vNotSrc : v ≠ src) :
    Overtakes g src u v ↔ Earlier s.settled u v := by
  have level : ∀ y, Shortest g src y (s.reach v) ↔ s.reach y = s.reach v := by
    intro y
    constructor
    · exact fun shortest => done.reach_eq shortest foundV
    · exact fun same => same ▸ done.shortest (by omega)
  rw [done.earlier_iff entry foundV uNotSrc vNotSrc]
  unfold Search.Ahead
  constructor
  · intro ⟨a, b, shortestU, shortestV, order⟩
    rw [done.shortest_iff foundU] at shortestU
    rw [done.shortest_iff foundV] at shortestV
    subst a b
    simpa only [level] using order
  · intro order
    exact ⟨_, _, done.shortest foundU, done.shortest foundV, by simpa only [level] using order⟩

theorem lastRelay_iff (done : Finished g src cap s) {u d : V} (found : s.reach d < cap) :
    LastRelay g src u d ↔ ∃ e, g u d = some e ∧ s.reach u + e = s.reach d := by
  constructor
  · intro ⟨a, e, shortest, link, whole⟩
    rw [done.shortest_iff found] at whole
    have near := done.reach_eq shortest (by omega)
    exact ⟨e, link, by omega⟩
  · intro ⟨e, link, sum⟩
    exact ⟨s.reach u, e, done.shortest (by omega), link, sum ▸ done.shortest found⟩

theorem direct_iff (done : Finished g src cap s) {u : V} (found : s.reach u < cap) :
    Direct g src u ↔ g src u = some (s.reach u) := by
  constructor
  · intro ⟨a, link, shortest⟩
    rw [done.shortest_iff found] at shortest
    rw [shortest, link]
  · exact fun link => ⟨_, link, done.shortest found⟩

/-- The recorded relay is the last relay settled first, so that a property of it is a property of
the graph, provided that the vertices with the property are entries. -/
theorem firstRelay_iff (done : Finished g src cap s) {d : V} {K : V → Prop} (other : d ≠ src)
    (found : s.reach d < cap) (relayed : s.via d ≠ d)
    (entry : ∀ u, K u → u ≠ src → LastRelay g src u d → s.Entry g src u) :
    FirstRelay g src d K ↔ K (s.via d) := by
  have near : ∀ {u}, LastRelay g src u d → s.reach u < cap := by
    intro u last
    obtain ⟨e, _, sum⟩ := (done.lastRelay_iff found).mp last
    omega
  cases done.run.recorded done.positive other found with
  | direct self _ => exact (relayed self).elim
  | relay _ notSrc tight _ first =>
    have recorded : LastRelay g src (s.via d) d := (done.lastRelay_iff found).mpr tight.length
    have notEarlier : ∀ {u}, LastRelay g src u d → ¬Earlier s.settled u (s.via d) := by
      intro u last before
      obtain ⟨e, link, sum⟩ := (done.lastRelay_iff found).mp last
      have longer := first u e before link
      omega
    have notFromSrc : ∀ {u}, LastRelay g src u d → u ≠ src := by
      intro u last atSrc
      exact notEarlier last (atSrc ▸ done.run.src_earlier done.positive tight.settled notSrc)
    constructor
    · intro ⟨u, holds, last, leads⟩
      by_contra fails
      have different : s.via d ≠ u := fun same => fails (same ▸ holds)
      have before := (earlier_total tight.settled (done.all u) different).resolve_right (notEarlier last)
      exact leads _ recorded fails ((done.overtakes_iff (entry u holds (notFromSrc last) last) (near recorded)
        (near last) notSrc (notFromSrc last)).mpr before)
    · intro holds
      refine ⟨s.via d, holds, recorded, fun u last _ overtakes => notEarlier last ?_⟩
      exact (done.overtakes_iff (entry _ holds notSrc recorded) (near last) (near recorded)
        (notFromSrc last) notSrc).mp overtakes

theorem via_self_iff (done : Finished g src cap s) {d : V} (other : d ≠ src) (found : s.reach d < cap) :
    s.via d = d ↔ Direct g src d := by
  rw [done.direct_iff found]
  cases done.run.recorded done.positive other found with
  | direct self link => exact ⟨fun _ => link, fun _ => self⟩
  | relay notSelf notSrc tight _ first =>
    refine ⟨fun self => (notSelf self).elim, fun link => ?_⟩
    have longer := first src _ (done.run.src_earlier done.positive tight.settled notSrc) link
    rw [done.run.reach_src] at longer
    omega

theorem entry_of_direct (done : Finished g src cap s) {u : V} (link : g src u = some (s.reach u)) :
    s.Entry g src u :=
  ⟨src, _, link, by rw [done.run.reach_src, Nat.zero_add], Or.inl rfl⟩

theorem via_ne_src (done : Finished g src cap s) {d : V} (other : d ≠ src) : s.via d ≠ src := by
  by_cases found : s.reach d < cap
  · cases done.run.recorded done.positive other found with
    | direct self _ => rwa [self]
    | relay _ notSrc _ _ _ => exact notSrc
  · have bound := done.run.reach_le_cap d
    rwa [done.run.via_unreached (by omega)]

/-- The recorded vertex is the first after `src` on a shortest walk exactly when no relay is
needed, or the first relay is itself reached directly. -/
theorem first_hop_iff (done : Finished g src cap s) {d : V} (other : d ≠ src) (found : s.reach d < cap) :
    (∃ w c, g src (s.via d) = some w ∧ Shortest g (s.via d) d c ∧ w + c = s.reach d) ↔
      Direct g src d ∨ FirstRelay g src d (Direct g src) := by
  by_cases self : s.via d = d
  · have direct := (done.via_self_iff other found).mp self
    obtain ⟨a, link, shortest⟩ := direct
    have length := (done.shortest_iff found).mp shortest
    refine ⟨fun _ => Or.inl ⟨a, link, shortest⟩, fun _ => ⟨a, 0, ?_, ?_, by omega⟩⟩
    · rw [self, link]
    · rw [self]
      exact Shortest.self d
  · have notDirect : ¬Direct g src d := fun direct => self ((done.via_self_iff other found).mpr direct)
    rw [or_iff_right notDirect, done.firstRelay_iff other found self]
    · cases done.run.recorded done.positive other found with
      | direct atSelf _ => exact (self atSelf).elim
      | relay _ _ tight _ _ =>
        obtain ⟨e, link, sum⟩ := tight.length
        have near : s.reach (s.via d) < cap := by omega
        have last : Shortest g (s.via d) d e :=
          Shortest.last_link (sum ▸ done.shortest found) (done.run.walk near) link
        rw [done.direct_iff near]
        constructor
        · intro ⟨w, c, fromSrc, shortest, whole⟩
          have same := shortest.unique last
          rw [fromSrc, Option.some.injEq]
          omega
        · exact fun fromSrc => ⟨_, e, fromSrc, last, sum⟩
    · intro u direct _ last
      obtain ⟨e, _, sum⟩ := (done.lastRelay_iff found).mp last
      exact done.entry_of_direct ((done.direct_iff (by omega)).mp direct)

end Finished
end ShortestPath
