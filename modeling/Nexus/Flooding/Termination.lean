import Nexus.Flooding.Runs
import Mathlib.Data.Fintype.EquivFin
import Mathlib.Data.Set.Finite.Basic
import Mathlib.Logic.Hydra
import Mathlib.Order.WellFounded

namespace Flooding
open Multiset Relation

variable {V A : Type} {links : V → List A} {host : A → Option V} {s : V}

/-- What a packet in flight, and what is left of a task, turns into. -/
inductive Child (links : V → List A) (host : A → Option V) : V ⊕ List A → V ⊕ List A → Prop
  | read (v : V) : Child links host (.inr (links v)) (.inl v)
  | send {a : A} {w : V} (listens : host a = some w) (tail : List A) : Child links host (.inl w) (.inr (a :: tail))
  | pass (a : A) (tail : List A) : Child links host (.inr tail) (.inr (a :: tail))

instance : Std.Irrefl (Child links host) where
  irrefl item loop := by
    have longer : ∀ item' item, Child links host item' item → item' ≠ item := by
      intro item' item child
      cases child with
      | read v => exact Sum.inr_ne_inl
      | send listens tail => exact Sum.inl_ne_inr
      | pass a tail => exact fun equal => List.cons_ne_self a tail (Sum.inr.inj equal).symm
    exact longer item item loop rfl

def items (t : State V A) : Multiset (V ⊕ List A) := t.flight.map .inl + t.tasks.map fun task => .inr task.2

theorem cutExpand_of_step {t t' : State V A} (step : Step links host t t') :
    CutExpand (Child links host) (items t') (items t) := by
  cases step with
  | @read flight tasks sent v =>
    simp only [items, Multiset.map_cons]
    rw [Multiset.add_cons, Multiset.cons_add, ← Multiset.singleton_add, ← Multiset.singleton_add]
    exact cutExpand_single_add (.read v) _
  | @send flight tasks sent v a w listens rest =>
    simp only [items, Multiset.map_cons]
    rw [Multiset.add_cons, Multiset.add_cons, Multiset.cons_add, Multiset.cons_swap]
    have both := cutExpand_double (Child.send listens rest) (@Child.pass _ _ links host a rest)
    simpa only [Multiset.insert_eq_cons, Multiset.cons_add, Multiset.singleton_add] using
      (cutExpand_add_right (flight.map .inl + tasks.map fun task => .inr task.2)).mpr both
  | @pass flight tasks sent v a rest =>
    simp only [items, Multiset.map_cons]
    rw [Multiset.add_cons, Multiset.add_cons, ← Multiset.singleton_add, ← Multiset.singleton_add]
    exact cutExpand_single_add (.pass a rest) _

theorem acc_rest {tail : List A} (each : ∀ a ∈ tail, ∀ w, host a = some w → Acc (Child links host) (.inl w)) :
    Acc (Child links host) (.inr tail) := by
  induction tail with
  | nil => exact .intro _ fun item child => nomatch child
  | cons a tail ih =>
    refine .intro _ fun item child => ?_
    cases child with
    | send listens => exact each a List.mem_cons_self _ listens
    | pass => exact ih fun a' member => each a' (List.mem_cons_of_mem a member)

theorem acc_packet {v : V} (acc : Acc (fun w v => w ∈ peers links host v) v) : Acc (Child links host) (.inl v) := by
  induction acc with
  | intro v _ ih =>
    refine .intro _ fun item child => ?_
    cases child with
    | read => exact acc_rest fun a member w listens => ih w (List.mem_filterMap.mpr ⟨a, member, listens⟩)

theorem acc_peers [Finite V] (acyclic : Acyclic links host s) : Acc (fun w v => w ∈ peers links host v) s := by
  let reached : V → V → Prop := fun w v => w ∈ peers links host v ∧ ∃ p, Route links host s p v
  have onward : ∀ {w v}, TransGen reached w v →
      (∃ p, Route links host s p v) ∧ ∃ y p, Route links host v (y :: p) w := by
    intro w v chain
    induction chain using TransGen.head_induction_on with
    | single hop => exact ⟨hop.2, _, _, .hop hop.1 (.here _)⟩
    | head hop _ ih =>
      obtain ⟨source, y, p, route⟩ := ih
      exact ⟨source, y, _, route.append (.hop hop.1 (.here _))⟩
  have irrefl : Std.Irrefl (TransGen reached) := ⟨fun v loop => by
    obtain ⟨⟨p, source⟩, y, q, around⟩ := onward loop
    exact List.cons_ne_nil y q (acyclic v p _ source around)⟩
  have trans : IsTrans V (TransGen reached) := ⟨fun _ _ _ => TransGen.trans⟩
  have founded : WellFounded (TransGen reached) := Finite.wellFounded_of_trans_of_irrefl _
  have below : ∀ v, (∃ p, Route links host s p v) → Acc (fun w v => w ∈ peers links host v) v := by
    intro v
    induction v using founded.induction with
    | _ v ih =>
      rintro ⟨p, source⟩
      refine .intro v fun w link => ih w (.single ⟨link, p, source⟩) ⟨p ++ [w], source.append (.hop link (.here w))⟩
  exact below s ⟨[], .here s⟩

theorem acc_start [Finite V] (acyclic : Acyclic links host s) :
    Acc (fun t' t => Step links host t t') (start s) := by
  have one : Acc (CutExpand (Child links host)) (items (start s : State V A)) :=
    (acc_packet (acc_peers acyclic)).cutExpand
  exact Subrelation.accessible cutExpand_of_step (InvImage.accessible items one)

/-- All runs are finite exactly if no route leads back to where it began. -/
theorem acc_iff [Finite V] : Acc (fun t' t => Step links host t t') (start s) ↔ Acyclic links host s := by
  constructor
  · intro acc v p q reached around
    cases around with
    | here => rfl
    | hop link onward =>
      have endless : ∀ t, Acc (TransGen fun t' t => Step links host t t') t → ¬{v} ≤ t.flight := by
        intro t accessible
        induction accessible with
        | intro t _ ih =>
          intro here
          obtain ⟨t', run, arrived, _⟩ := exists_use link here
          obtain ⟨t'', run', arrived', _⟩ := exists_follow onward arrived
          exact ih t'' (transGen_swap.mpr (run.trans_left run')) arrived'
      have here : s ::ₘ 0 ≤ (start s : State V A).flight := le_rfl
      obtain ⟨t, run, arrived, _⟩ := exists_follow reached here
      have below : ∀ u, ReflTransGen (Step links host) (start s) u → Acc (fun t' t => Step links host t t') u := by
        intro u run
        induction run with
        | refl => exact acc
        | tail _ step ih => exact ih.inv step
      exact (endless t (below t run).transGen arrived).elim
  · exact acc_start

end Flooding
