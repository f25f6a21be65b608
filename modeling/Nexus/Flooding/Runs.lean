import Mathlib.Data.Multiset.AddSub
import Mathlib.Data.Multiset.MapFold
import Mathlib.Logic.Relation

namespace Flooding
open Multiset Relation

/-- The packets in flight to each node, what each handler has still to send, and the links that were used. -/
structure State (V A : Type) where
  flight : Multiset V
  tasks : Multiset (V × List A)
  sent : Multiset (V × V)

variable {V A : Type}

/-- One packet for `s`. -/
def start (s : V) : State V A := ⟨{s}, 0, 0⟩

section Runs
variable (links : V → List A) (host : A → Option V)

/-- A node reads a packet and has all its addresses before it, and each send goes to the node that listens there or to
none. -/
inductive Step : State V A → State V A → Prop
  | read {flight : Multiset V} {tasks : Multiset (V × List A)} {sent : Multiset (V × V)} (v : V) :
      Step ⟨v ::ₘ flight, tasks, sent⟩ ⟨flight, (v, links v) ::ₘ tasks, sent⟩
  | send {flight : Multiset V} {tasks : Multiset (V × List A)} {sent : Multiset (V × V)} (v : V) {a : A} {w : V}
      (listens : host a = some w) (rest : List A) :
      Step ⟨flight, (v, a :: rest) ::ₘ tasks, sent⟩ ⟨w ::ₘ flight, (v, rest) ::ₘ tasks, (v, w) ::ₘ sent⟩
  | pass {flight : Multiset V} {tasks : Multiset (V × List A)} {sent : Multiset (V × V)} (v : V) (a : A)
      (rest : List A) : Step ⟨flight, (v, a :: rest) ::ₘ tasks, sent⟩ ⟨flight, (v, rest) ::ₘ tasks, sent⟩

/-- The nodes that a node sends to. -/
def peers (v : V) : List V := (links v).filterMap host

/-- The nodes along a route after its first one. -/
inductive Route : V → List V → V → Prop
  | here (v : V) : Route v [] v
  | hop {v w x : V} {path : List V} (link : w ∈ peers links host v) (onward : Route w path x) : Route v (w :: path) x

/-- Every node that sends on is reached in one way only and names no node twice. -/
def Single (s : V) : Prop :=
  ∀ v, peers links host v ≠ [] →
    (∀ p q, Route links host s p v → Route links host s q v → p = q) ∧
      ∀ p, Route links host s p v → (peers links host v).Nodup

/-- No route leads back to where it began. -/
def Acyclic (s : V) : Prop := ∀ v p q, Route links host s p v → Route links host v q v → q = []

end Runs

variable {links : V → List A} {host : A → Option V} {s : V}

namespace Route
variable {v w x : V} {p q : List V}

theorem append (first : Route links host v p w) (second : Route links host w q x) : Route links host v (p ++ q) x := by
  induction first with
  | here v => exact second
  | hop link _ ih => exact .hop link (ih second)

theorem last_unique (first : Route links host v p w) (second : Route links host v p x) : w = x := by
  induction first with
  | here v =>
    cases second
    rfl
  | hop _ _ ih =>
    cases second with
    | hop _ onward => exact ih onward

end Route

/-- A cycle gives a second route to each node on it. -/
theorem Single.acyclic (single : Single links host s) : Acyclic links host s := by
  intro v p q reached around
  cases around with
  | here => rfl
  | @hop _ w _ path link onward =>
    have sends : peers links host v ≠ [] := List.ne_nil_of_mem link
    have same := (single v sends).1 _ _ (reached.append (.hop link onward)) reached
    exact List.append_cancel_left (same.trans (List.append_nil p).symm)

section Copies
variable {t : State V A} {v w x : V} {rest : Multiset V}

/-- A handler that reaches all the nodes it sends to. -/
theorem sends_all (v : V) (tail : List A) (flight : Multiset V) (tasks : Multiset (V × List A))
    (sent : Multiset (V × V)) :
    ReflTransGen (Step links host) ⟨flight, (v, tail) ::ₘ tasks, sent⟩
      ⟨(tail.filterMap host : Multiset V) + flight, (v, []) ::ₘ tasks,
        (tail.filterMap host : Multiset V).map (Prod.mk v) + sent⟩ := by
  induction tail generalizing flight sent with
  | nil =>
    rw [List.filterMap_nil, Multiset.coe_nil, Multiset.map_zero, Multiset.zero_add, Multiset.zero_add]
  | cons a tail ih =>
    cases listens : host a with
    | none =>
      rw [List.filterMap_cons_none listens]
      exact .head (.pass v a tail) (ih flight sent)
    | some w =>
      rw [List.filterMap_cons_some listens, ← Multiset.cons_coe, Multiset.map_cons, Multiset.cons_add,
        Multiset.cons_add, ← Multiset.add_cons, ← Multiset.add_cons]
      exact .head (.send v listens tail) (ih (w ::ₘ flight) ((v, w) ::ₘ sent))

theorem cons_le_of_mem {α : Type} {a : α} {m kept all : Multiset α} (member : a ∈ m) (fits : m + kept ≤ all) :
    a ::ₘ kept ≤ all := by
  rw [← Multiset.singleton_add]
  exact (Multiset.add_le_add_right (Multiset.singleton_le.mpr member)).trans fits

variable (links host) in
theorem exists_handle (here : v ::ₘ rest ≤ t.flight) :
    ∃ t', TransGen (Step links host) t t' ∧ (peers links host v : Multiset V) + rest ≤ t'.flight ∧
      (peers links host v : Multiset V).map (Prod.mk v) + t.sent ≤ t'.sent := by
  obtain ⟨flight, tasks, sent⟩ := t
  obtain ⟨more, rfl⟩ := Multiset.le_iff_exists_add.mp here
  rw [Multiset.cons_add]
  refine ⟨_, .head' (.read v) (sends_all v (links v) (rest + more) tasks sent), ?_, le_rfl⟩
  exact Multiset.add_le_add_left (Multiset.le_add_right rest more)

theorem exists_use (link : x ∈ peers links host v) (here : v ::ₘ rest ≤ t.flight) :
    ∃ t', TransGen (Step links host) t t' ∧ x ::ₘ rest ≤ t'.flight ∧ (v, x) ::ₘ t.sent ≤ t'.sent := by
  obtain ⟨t', run, arrived, used⟩ := exists_handle links host here
  exact ⟨t', run, cons_le_of_mem link arrived, cons_le_of_mem (Multiset.mem_map_of_mem _ link) used⟩

theorem exists_follow {path : List V} (route : Route links host v path w) (here : v ::ₘ rest ≤ t.flight) :
    ∃ t', ReflTransGen (Step links host) t t' ∧ w ::ₘ rest ≤ t'.flight ∧ t.sent ≤ t'.sent := by
  induction route generalizing t with
  | here v => exact ⟨t, .refl, here, le_rfl⟩
  | hop link _ ih =>
    obtain ⟨t', run, arrived, kept⟩ := exists_use link here
    obtain ⟨t'', run', arrived', kept'⟩ := ih arrived
    exact ⟨t'', run.to_reflTransGen.trans run', arrived', ((Multiset.le_cons_self _ _).trans kept).trans kept'⟩

/-- Along a route a copy comes to its end and is sent on from there. -/
theorem exists_deliver {path : List V} (route : Route links host v path w) (link : x ∈ peers links host w)
    (here : v ::ₘ rest ≤ t.flight) :
    ∃ t', ReflTransGen (Step links host) t t' ∧ x ::ₘ rest ≤ t'.flight ∧ (w, x) ::ₘ t.sent ≤ t'.sent := by
  obtain ⟨t', run, arrived, kept⟩ := exists_follow route here
  obtain ⟨t'', run', arrived', used⟩ := exists_use link arrived
  exact ⟨t'', run.trans run'.to_reflTransGen, arrived', ((Multiset.cons_le_cons _ kept).trans used)⟩

/-- On a cycle a link is used again. -/
theorem exists_around {y : V} {path : List V} (hop : y ∈ peers links host w) (back : Route links host y path w)
    (link : x ∈ peers links host w) (here : w ::ₘ rest ≤ t.flight) :
    ∃ t', ReflTransGen (Step links host) t t' ∧ (w, x) ::ₘ (w, x) ::ₘ t.sent ≤ t'.sent := by
  obtain ⟨t', run, arrived, used⟩ := exists_handle links host here
  obtain ⟨t'', run', _, again⟩ := exists_deliver back link (cons_le_of_mem hop arrived)
  refine ⟨t'', run.to_reflTransGen.trans run', le_trans ?_ again⟩
  exact Multiset.cons_le_cons _ (cons_le_of_mem (Multiset.mem_map_of_mem _ link) used)

/-- Over two routes to a node that sends on, a link from it is used twice. -/
theorem exists_twice {p q : List V} (first : Route links host v p w) (second : Route links host v q w) (differ : p ≠ q)
    (link : x ∈ peers links host w) (here : v ::ₘ rest ≤ t.flight) :
    ∃ t', ReflTransGen (Step links host) t t' ∧ (w, x) ::ₘ (w, x) ::ₘ t.sent ≤ t'.sent := by
  induction first generalizing q t rest with
  | here v =>
    cases second with
    | here => exact absurd rfl differ
    | hop hop back => exact exists_around hop back link here
  | @hop v y w p hop onward ih =>
    cases second with
    | here => exact exists_around hop onward link here
    | @hop _ z _ q hop' onward' =>
      obtain ⟨t', run, arrived, used⟩ := exists_handle links host here
      have kept : t.sent ≤ t'.sent := (Multiset.le_add_left _ _).trans used
      by_cases same : y = z
      · subst same
        have tails : p ≠ q := fun equal => differ (congrArg (List.cons y) equal)
        obtain ⟨t'', run', twice⟩ := ih onward' tails link (cons_le_of_mem hop arrived)
        refine ⟨t'', run.to_reflTransGen.trans run', le_trans ?_ twice⟩
        exact Multiset.cons_le_cons _ (Multiset.cons_le_cons _ kept)
      · have both : y ::ₘ z ::ₘ rest ≤ t'.flight := by
          obtain ⟨others, split⟩ := Multiset.exists_cons_of_mem (Multiset.mem_coe.mpr hop)
          have apart : z ∈ others := by
            have member : z ∈ y ::ₘ others := split ▸ Multiset.mem_coe.mpr hop'
            exact (Multiset.mem_cons.mp member).resolve_left fun equal => same equal.symm
          rw [split, Multiset.cons_add] at arrived
          exact (Multiset.cons_le_cons y (cons_le_of_mem apart le_rfl)).trans arrived
        obtain ⟨t₁, run₁, arrived₁, used₁⟩ := exists_deliver onward link both
        have left : z ::ₘ rest ≤ t₁.flight := (Multiset.le_cons_self _ _).trans arrived₁
        obtain ⟨t₂, run₂, _, used₂⟩ := exists_deliver onward' link left
        refine ⟨t₂, (run.to_reflTransGen.trans run₁).trans run₂, le_trans ?_ used₂⟩
        exact Multiset.cons_le_cons _ ((Multiset.cons_le_cons _ kept).trans used₁)

end Copies

end Flooding
