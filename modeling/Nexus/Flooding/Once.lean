import Nexus.Flooding.Runs
import Mathlib.Data.Finset.Card
import Mathlib.Data.Multiset.Bind

namespace Flooding
open Multiset Relation

variable {V A : Type} {links : V → List A} {host : A → Option V} {s : V}

/-- The nodes whose handlers have begun. -/
def handled (tasks : Multiset (V × List A)) : Multiset V := tasks.map Prod.fst

variable (links host) in
/-- The links from the nodes of `m` to their peers. -/
def uses (m : Multiset V) : Multiset (V × V) := m.bind fun v => (peers links host v : Multiset V).map (Prod.mk v)

variable (host) in
/-- The links that the handlers have still to use. -/
def pending (tasks : Multiset (V × List A)) : Multiset (V × V) :=
  tasks.bind fun task => (task.2.filterMap host : Multiset V).map (Prod.mk task.1)

variable (links host) in
structure Inv (s : V) (t : State V A) : Prop where
  routed : ∀ v ∈ t.flight + handled t.tasks, ∃ path, Route links host s path v
  arrivals : t.flight + handled t.tasks = s ::ₘ t.sent.map Prod.snd
  used : t.sent + pending host t.tasks ≤ uses links host (handled t.tasks)

section Tasks
variable (v : V) (a : A) (tail : List A) (tasks : Multiset (V × List A))

theorem handled_cons : handled ((v, tail) ::ₘ tasks) = v ::ₘ handled tasks := Multiset.map_cons _ _ _

theorem handled_later (tail' : List A) : handled ((v, tail) ::ₘ tasks) = handled ((v, tail') ::ₘ tasks) := by
  rw [handled_cons, handled_cons]

theorem pending_begin : pending host ((v, links v) ::ₘ tasks) =
    (peers links host v : Multiset V).map (Prod.mk v) + pending host tasks := Multiset.cons_bind _ _ _

theorem pending_send {w : V} (listens : host a = some w) :
    pending host ((v, a :: tail) ::ₘ tasks) = (v, w) ::ₘ pending host ((v, tail) ::ₘ tasks) := by
  rw [pending, Multiset.cons_bind, List.filterMap_cons_some listens, ← Multiset.cons_coe, Multiset.map_cons,
    Multiset.cons_add, pending, Multiset.cons_bind]

theorem pending_pass : pending host ((v, tail) ::ₘ tasks) ≤ pending host ((v, a :: tail) ::ₘ tasks) := by
  have shorter : List.Sublist (tail.filterMap host) ((a :: tail).filterMap host) :=
    (List.sublist_cons_self a tail).filterMap host
  rw [pending, pending, Multiset.cons_bind, Multiset.cons_bind]
  exact Multiset.add_le_add_right (Multiset.map_le_map (Multiset.coe_le.mpr shorter.subperm))

end Tasks

theorem mem_uses {m : Multiset V} {v w : V} : (v, w) ∈ uses links host m ↔ v ∈ m ∧ w ∈ peers links host v := by
  simp only [uses, Multiset.mem_bind, Multiset.mem_map, Multiset.mem_coe, Prod.mk.injEq]
  constructor
  · rintro ⟨_, member, _, link, rfl, rfl⟩
    exact ⟨member, link⟩
  · rintro ⟨member, link⟩
    exact ⟨v, member, w, link, rfl, rfl⟩

theorem count_uses [DecidableEq V] (m : Multiset V) (v w : V) :
    (uses links host m).count (v, w) = m.count v * (peers links host v).count w := by
  induction m using Multiset.induction_on with
  | empty => simp [uses]
  | cons u m ih =>
    rw [uses, Multiset.cons_bind, Multiset.count_add, ← uses, ih, Multiset.count_cons]
    by_cases same : v = u
    · subst same
      have injective : Function.Injective (Prod.mk v : V → V × V) := fun _ _ equal => (Prod.mk.inj equal).2
      rw [Multiset.count_map_eq_count' _ _ injective, Multiset.coe_count, if_pos rfl, Nat.add_mul, Nat.one_mul,
        Nat.add_comm]
    · have absent : (v, w) ∉ (peers links host u : Multiset V).map (Prod.mk u) := by
        intro member
        obtain ⟨_, _, equal⟩ := Multiset.mem_map.mp member
        exact same (Prod.mk.inj equal).1.symm
      rw [Multiset.count_eq_zero.mpr absent, if_neg same, Nat.zero_add, Nat.add_zero]

theorem inv_start : Inv links host s (start s : State V A) where
  routed v member := by
    obtain rfl : v = s := by simpa [start, handled] using member
    exact ⟨[], .here v⟩
  arrivals := rfl
  used := Multiset.zero_le _

theorem Inv.sent_linked {t : State V A} (inv : Inv links host s t) {v w : V}
    (member : (v, w) ∈ t.sent + pending host t.tasks) :
    (∃ path, Route links host s path v) ∧ w ∈ peers links host v := by
  obtain ⟨begun, link⟩ := mem_uses.mp (Multiset.mem_of_le inv.used member)
  exact ⟨inv.routed v (Multiset.mem_add.mpr (Or.inr begun)), link⟩

theorem Inv.step {t t' : State V A} (inv : Inv links host s t) (step : Step links host t t') :
    Inv links host s t' := by
  cases step with
  | @read flight tasks sent v =>
    have moved : flight + handled ((v, links v) ::ₘ tasks) = v ::ₘ flight + handled tasks := by
      rw [handled_cons, Multiset.add_cons, Multiset.cons_add]
    refine ⟨fun u member => inv.routed u (moved ▸ member), moved.trans inv.arrivals, ?_⟩
    rw [pending_begin, handled_cons, uses, Multiset.cons_bind, add_left_comm]
    exact Multiset.add_le_add_left inv.used
  | @send flight tasks sent v a w listens rest =>
    have begun := handled_later v rest tasks (a :: rest)
    have next : (v, w) ∈ sent + pending host ((v, a :: rest) ::ₘ tasks) := by
      rw [pending_send v a rest tasks listens]
      exact Multiset.mem_add.mpr (Or.inr (Multiset.mem_cons_self _ _))
    obtain ⟨⟨path, reached⟩, link⟩ := inv.sent_linked next
    refine ⟨fun u member => ?_, ?_, ?_⟩
    · rw [begun, Multiset.cons_add] at member
      rcases Multiset.mem_cons.mp member with rfl | before
      · exact ⟨path ++ [u], reached.append (.hop link (.here u))⟩
      · exact inv.routed u before
    · rw [begun, Multiset.map_cons, Multiset.cons_swap, Multiset.cons_add, inv.arrivals]
    · have used := inv.used
      rw [pending_send v a rest tasks listens, Multiset.add_cons, ← Multiset.cons_add, ← begun] at used
      exact used
  | @pass flight tasks sent v a rest =>
    have begun := handled_later v rest tasks (a :: rest)
    refine ⟨fun u member => inv.routed u (begun ▸ member), begun ▸ inv.arrivals, ?_⟩
    rw [begun]
    exact (Multiset.add_le_add_left (pending_pass v a rest tasks)).trans inv.used

/-- A node with one route to it is handled once, while no link is used twice. -/
theorem Inv.handled_once [DecidableEq V] {t : State V A} (inv : Inv links host s t) (fresh : t.sent.Nodup) {v : V}
    (unique : ∀ p q, Route links host s p v → Route links host s q v → p = q) : (handled t.tasks).count v ≤ 1 := by
  have routes : ∀ u, (u, v) ∈ t.sent → ∃ path, Route links host s path u ∧ Route links host s (path ++ [v]) v := by
    intro u member
    obtain ⟨⟨path, reached⟩, link⟩ := inv.sent_linked (Multiset.mem_add.mpr (Or.inl member))
    exact ⟨path, reached, reached.append (.hop link (.here v))⟩
  have arrivals := congrArg (Multiset.count v) inv.arrivals
  rw [Multiset.count_add, Multiset.count_cons] at arrivals
  by_cases source : v = s
  · subst source
    have none : (t.sent.map Prod.snd).count v = 0 := by
      refine Multiset.count_eq_zero.mpr fun member => ?_
      obtain ⟨⟨u, _⟩, known, rfl⟩ := Multiset.mem_map.mp member
      obtain ⟨path, _, back⟩ := routes u known
      exact List.append_ne_nil_of_right_ne_nil path (List.cons_ne_nil _ []) (unique _ _ back (.here _))
    rw [none, if_pos rfl] at arrivals
    omega
  · have single : (t.sent.map Prod.snd).count v ≤ 1 := by
      let into : Finset (V × V) := ⟨t.sent.filter fun link => v = link.2, fresh.filter _⟩
      have alone : into.card ≤ 1 := by
        refine Finset.card_le_one.mpr fun link known link' known' => ?_
        obtain ⟨member, rfl⟩ := Multiset.mem_filter.mp known
        obtain ⟨member', same⟩ := Multiset.mem_filter.mp known'
        obtain ⟨u, w⟩ := link
        obtain ⟨u', w'⟩ := link'
        obtain rfl : w = w' := same
        obtain ⟨path, reached, onward⟩ := routes u member
        obtain ⟨path', reached', onward'⟩ := routes u' member'
        obtain rfl : path = path' := List.append_cancel_right (unique _ _ onward onward')
        rw [reached.last_unique reached']
      rw [Multiset.count_map]
      exact alone
    rw [if_neg source] at arrivals
    omega

theorem Inv.nodup_step {t t' : State V A} (single : Single links host s) (inv : Inv links host s t)
    (fresh : t.sent.Nodup) (step : Step links host t t') : t'.sent.Nodup := by
  classical
  cases step with
  | read v => exact fresh
  | @send flight tasks sent v a w listens rest =>
    have next : (v, w) ∈ pending host ((v, a :: rest) ::ₘ tasks) := by
      rw [pending_send v a rest tasks listens]
      exact Multiset.mem_cons_self _ _
    have waiting := Multiset.one_le_count_iff_mem.mpr next
    obtain ⟨⟨path, reached⟩, link⟩ := inv.sent_linked (Multiset.mem_add.mpr (Or.inr next))
    obtain ⟨unique, distinct⟩ := single v (List.ne_nil_of_mem link)
    have once := inv.handled_once fresh unique
    have named := List.nodup_iff_count_le_one.mp (distinct path reached) w
    have used := Multiset.le_iff_count.mp inv.used (v, w)
    rw [Multiset.count_add, count_uses] at used
    have bound := Nat.mul_le_mul once named
    refine Multiset.nodup_cons.mpr ⟨fun before => ?_, fresh⟩
    have already := Multiset.one_le_count_iff_mem.mpr before
    have atMostOne := used.trans bound
    dsimp only at atMostOne already
    omega
  | pass v a rest => exact fresh

theorem sent_nodup (single : Single links host s) {t : State V A}
    (run : ReflTransGen (Step links host) (start s) t) : t.sent.Nodup := by
  have both : Inv links host s t ∧ t.sent.Nodup := by
    induction run with
    | refl => exact ⟨inv_start, Multiset.nodup_zero⟩
    | tail _ step ih => exact ⟨ih.1.step step, ih.1.nodup_step single ih.2 step⟩
  exact both.2

/-- In all runs each link is used at most once exactly if every node that sends on has one route to it and names no node
twice. -/
theorem sent_nodup_iff :
    (∀ t, ReflTransGen (Step links host) (start s) t → t.sent.Nodup) ↔ Single links host s := by
  constructor
  · intro once v sends
    obtain ⟨x, link⟩ := List.exists_mem_of_ne_nil _ sends
    have here : s ::ₘ 0 ≤ (start s : State V A).flight := le_rfl
    constructor
    · intro p q first second
      by_contra differ
      obtain ⟨t, run, twice⟩ := exists_twice first second differ link here
      have fresh := Multiset.nodup_of_le twice (once t run)
      exact (Multiset.nodup_cons.mp fresh).1 (Multiset.mem_cons_self _ _)
    · intro p route
      obtain ⟨t, run, arrived, _⟩ := exists_follow route here
      obtain ⟨t', run', _, used⟩ := exists_handle links host arrived
      have fresh := once t' (run.trans run'.to_reflTransGen)
      have named := Multiset.nodup_of_le ((Multiset.le_add_right _ _).trans used) fresh
      exact Multiset.coe_nodup.mp named.of_map
  · exact fun single t run => sent_nodup single run

end Flooding
