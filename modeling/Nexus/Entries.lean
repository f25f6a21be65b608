import Mathlib.Data.List.Basic
import Mathlib.Logic.Function.Basic

namespace Entries
variable {κ ρ : Type} [DecidableEq κ]

/-- What a client asks of a list of records that are found by a key. -/
inductive Change (κ ρ : Type)
  | put (r : ρ)
  | amend (r : ρ)
  | drop (k : κ)

section Operations
variable (key : ρ → κ)

/-- Replace the first record with the same key. -/
def amendFirst (r : ρ) : List ρ → List ρ
  | [] => []
  | e :: rest => if key e = key r then r :: rest else e :: amendFirst r rest

/-- A list that takes every new record at its end and gives up all records of a key at once. -/
def apply (entries : List ρ) : Change κ ρ → List ρ
  | .put r => entries ++ [r]
  | .amend r => amendFirst key r entries
  | .drop k => entries.filter fun e => key e ≠ k

def applyAll (entries : List ρ) (changes : List (Change κ ρ)) : List ρ := changes.foldl (apply key) entries

/-- The same change of a map. -/
def applyMap (m : κ → Option ρ) : Change κ ρ → κ → Option ρ
  | .put r => Function.update m (key r) (some r)
  | .amend r => Function.update m (key r) ((m (key r)).map fun _ => r)
  | .drop k => Function.update m k none

/-- The map after some changes of the empty map. -/
def mapAfter (changes : List (Change κ ρ)) : κ → Option ρ := changes.foldl (applyMap key) fun _ => none

def recount (k : κ) (count : Nat) : Change κ ρ → Nat
  | .put r => if key r = k then count + 1 else count
  | .amend _ => count
  | .drop k' => if k' = k then 0 else count

/-- How often a key is put after it is last dropped. -/
def putCount (k : κ) (changes : List (Change κ ρ)) : Nat := changes.foldl (recount key k) 0

/-- The records of a key, in order. -/
def own (k : κ) (entries : List ρ) : List ρ := entries.filter fun e => key e = k

def amendHead (r : ρ) : List ρ → List ρ
  | [] => []
  | _ :: rest => r :: rest

/-- What a change does to the records of a key. -/
def applyOwn (k : κ) (entries : List ρ) : Change κ ρ → List ρ
  | .put r => if key r = k then entries ++ [r] else entries
  | .amend r => if key r = k then amendHead r entries else entries
  | .drop k' => if k' = k then [] else entries

end Operations

section Frame
variable {key : ρ → κ} {k : κ}

theorem own_append (k : κ) (entries entries' : List ρ) :
    own key k (entries ++ entries') = own key k entries ++ own key k entries' :=
  List.filter_append entries entries'

theorem own_cons_self {e : ρ} (same : key e = k) (rest : List ρ) : own key k (e :: rest) = e :: own key k rest := by
  rw [own, List.filter_cons_of_pos (by simpa using same)]
  rfl

theorem own_cons_other {e : ρ} (other : key e ≠ k) (rest : List ρ) : own key k (e :: rest) = own key k rest := by
  rw [own, List.filter_cons_of_neg (by simpa using other)]
  rfl

/-- Lists with the same keys in the same order are equal if the records of every key are. -/
theorem eq_of_own {entries entries' : List ρ} (keys : entries.map key = entries'.map key)
    (same : ∀ k, own key k entries = own key k entries') : entries = entries' := by
  induction entries generalizing entries' with
  | nil => exact (List.map_eq_nil_iff.mp keys.symm).symm
  | cons e rest ih =>
    cases entries' with
    | nil => cases keys
    | cons e' rest' =>
      obtain ⟨first, later⟩ := List.cons.inj keys
      have heads := same (key e)
      rw [own_cons_self rfl, own_cons_self first.symm] at heads
      obtain ⟨rfl, tails⟩ := List.cons.inj heads
      congr 1
      refine ih later fun k => ?_
      by_cases here : key e = k
      · exact here ▸ tails
      · have apart := same k
        rw [own_cons_other here, own_cons_other here] at apart
        exact apart

theorem own_amendFirst (k : κ) (r : ρ) (entries : List ρ) :
    own key k (amendFirst key r entries) = applyOwn key k (own key k entries) (.amend r) := by
  induction entries with
  | nil => simp [amendFirst, own, applyOwn, amendHead]
  | cons e rest ih =>
    by_cases first : key e = key r
    · rw [amendFirst, if_pos first]
      by_cases same : key r = k
      · rw [own_cons_self same, own_cons_self (first.trans same), applyOwn, if_pos same,
          amendHead]
      · have other : key e ≠ k := fun equal => same (first.symm.trans equal)
        rw [own_cons_other same, own_cons_other other, applyOwn, if_neg same]
    · rw [amendFirst, if_neg first]
      by_cases same : key e = k
      · have other : key r ≠ k := fun equal => first (same.trans equal.symm)
        rw [own_cons_self same, ih, own_cons_self same, applyOwn, applyOwn, if_neg other, if_neg other]
      · rw [own_cons_other same, ih, own_cons_other same]

/-- The records of a key change without regard to the others. -/
theorem own_apply (k : κ) (entries : List ρ) (change : Change κ ρ) :
    own key k (apply key entries change) = applyOwn key k (own key k entries) change := by
  cases change with
  | put r =>
    rw [apply, own, List.filter_append, applyOwn]
    by_cases same : key r = k
    · rw [if_pos same, List.filter_cons_of_pos (by simpa using same), List.filter_nil]
      rfl
    · rw [if_neg same, List.filter_cons_of_neg (by simpa using same), List.filter_nil, List.append_nil]
      rfl
  | amend r => exact own_amendFirst k r entries
  | drop k' =>
    rw [apply, own, List.filter_filter, applyOwn]
    by_cases same : k' = k
    · rw [if_pos same, List.filter_eq_nil_iff]
      intro e _ both
      simp [same] at both
    · rw [if_neg same, own]
      apply List.filter_congr
      intro e _
      by_cases here : key e = k
      · simp [here, Ne.symm same]
      · simp [here]

theorem mem_amendFirst {r e : ρ} {entries : List ρ} (member : e ∈ amendFirst key r entries) : e ∈ entries ∨ e = r := by
  induction entries with
  | nil => exact absurd member List.not_mem_nil
  | cons first rest ih =>
    rw [amendFirst] at member
    split at member
    · rcases List.mem_cons.mp member with new | old
      · exact Or.inr new
      · exact Or.inl (List.mem_cons_of_mem first old)
    · rcases List.mem_cons.mp member with here | later
      · exact Or.inl (here ▸ List.mem_cons_self)
      · exact (ih later).imp_left (List.mem_cons_of_mem first)

theorem amendFirst_absent {r : ρ} {entries : List ρ} (absent : key r ∉ entries.map key) :
    amendFirst key r entries = entries := by
  induction entries with
  | nil => rfl
  | cons first rest ih =>
    rw [List.map_cons, List.mem_cons, not_or] at absent
    rw [amendFirst, if_neg (Ne.symm absent.1), ih absent.2]

theorem mem_amendFirst_self {r : ρ} {entries : List ρ} (present : key r ∈ entries.map key) :
    r ∈ amendFirst key r entries := by
  induction entries with
  | nil => exact absurd present List.not_mem_nil
  | cons first rest ih =>
    rw [amendFirst]
    by_cases here : key first = key r
    · rw [if_pos here]
      exact List.mem_cons_self
    · rw [if_neg here]
      rcases List.mem_cons.mp present with same | later
      · exact absurd same.symm here
      · exact List.mem_cons_of_mem first (ih later)

theorem find?_eq (k : κ) (entries : List ρ) : (entries.find? fun e => key e = k) = (own key k entries).head? :=
  List.head?_filter.symm

end Frame

section Agreement
variable {key : ρ → κ} {k : κ} {entries : List ρ} {m : κ → Option ρ} {count : Nat}

theorem applyMap_put (r : ρ) : applyMap key m (.put r) k = if key r = k then some r else m k := by
  rw [applyMap, Function.update_apply]
  exact if_congr eq_comm rfl rfl

theorem applyMap_amend (r : ρ) :
    applyMap key m (.amend r) k = if key r = k then (m k).map fun _ => r else m k := by
  rw [applyMap, Function.update_apply]
  by_cases same : k = key r
  · rw [if_pos same, if_pos same.symm, same]
  · rw [if_neg same, if_neg (Ne.symm same)]

theorem applyMap_drop (k' : κ) : applyMap key m (.drop k') k = if k' = k then none else m k := by
  rw [applyMap, Function.update_apply]
  exact if_congr eq_comm rfl rfl

/-- Both sides have a record of the key or neither has, and a single record is the same on both. -/
structure Agrees (key : ρ → κ) (k : κ) (entries : List ρ) (m : κ → Option ρ) (count : Nat) : Prop where
  counted : (own key k entries).length = count
  absent : own key k entries = [] → m k = none
  single : ∀ r, own key k entries = [r] → m k = some r

theorem Agrees.empty (key : ρ → κ) (k : κ) : Agrees key k [] (fun _ => none) 0 where
  counted := by rw [own, List.filter_nil, List.length_nil]
  absent _ := by rfl
  single r alone := by
    rw [own, List.filter_nil] at alone
    cases alone

/-- A change of other keys. -/
theorem Agrees.other (agrees : Agrees key k entries m count) {entries' : List ρ} {m' : κ → Option ρ}
    (same : own key k entries' = own key k entries) (record : m' k = m k) : Agrees key k entries' m' count where
  counted := same ▸ agrees.counted
  absent none := record.trans (agrees.absent (same ▸ none))
  single r alone := record.trans (agrees.single r (same ▸ alone))

theorem Agrees.put (agrees : Agrees key k entries m count) (r : ρ) :
    Agrees key k (apply key entries (.put r)) (applyMap key m (.put r)) (recount key k count (.put r)) := by
  have after : own key k (Entries.apply key entries (.put r)) = _ := own_apply k entries (.put r)
  by_cases same : key r = k
  · rw [applyOwn, if_pos same] at after
    have record : applyMap key m (.put r) k = some r := by rw [applyMap_put, if_pos same]
    rw [recount, if_pos same]
    refine ⟨?_, fun none => ?_, fun r' alone => ?_⟩
    · rw [after, List.length_append, agrees.counted, List.length_singleton]
    · rw [after] at none
      exact (List.append_ne_nil_of_right_ne_nil _ (List.cons_ne_nil r []) none).elim
    · rw [after] at alone
      have before : own key k entries = [] := by
        have size := congrArg List.length alone
        rw [List.length_append, List.length_singleton, List.length_singleton] at size
        exact List.length_eq_zero_iff.mp (by omega)
      rw [before, List.nil_append] at alone
      rw [record, List.singleton_inj.mp alone]
  · rw [applyOwn, if_neg same] at after
    rw [recount, if_neg same]
    exact agrees.other after (by rw [applyMap_put, if_neg same])

theorem Agrees.amend (agrees : Agrees key k entries m count) (r : ρ) :
    Agrees key k (apply key entries (.amend r)) (applyMap key m (.amend r)) (recount key k count (.amend r)) := by
  have after : own key k (Entries.apply key entries (.amend r)) = _ := own_apply k entries (.amend r)
  by_cases same : key r = k
  · rw [applyOwn, if_pos same] at after
    have record : applyMap key m (.amend r) k = (m k).map fun _ => r := by rw [applyMap_amend, if_pos same]
    rw [recount]
    cases before : own key k entries with
    | nil =>
      rw [before, amendHead] at after
      refine agrees.other (after.trans before.symm) ?_
      rw [record, agrees.absent before, Option.map_none]
    | cons e rest =>
      rw [before, amendHead] at after
      refine ⟨?_, fun none => ?_, fun r' alone => ?_⟩
      · rw [after, ← agrees.counted, before, List.length_cons, List.length_cons]
      · rw [after] at none
        cases none
      · rw [after] at alone
        obtain ⟨first, none⟩ := List.cons_eq_cons.mp alone
        rw [record, agrees.single e (none ▸ before), Option.map_some, first]
  · rw [applyOwn, if_neg same] at after
    exact agrees.other after (by rw [applyMap_amend, if_neg same])

theorem Agrees.drop (agrees : Agrees key k entries m count) (k' : κ) :
    Agrees key k (apply key entries (.drop k')) (applyMap key m (.drop k')) (recount key k count (.drop k')) := by
  have after : own key k (Entries.apply key entries (.drop k')) = _ := own_apply k entries (.drop k')
  by_cases same : k' = k
  · rw [applyOwn, if_pos same] at after
    rw [recount, if_pos same]
    refine ⟨by rw [after, List.length_nil], fun _ => by rw [applyMap_drop, if_pos same], fun r alone => ?_⟩
    rw [after] at alone
    cases alone
  · rw [applyOwn, if_neg same] at after
    rw [recount, if_neg same]
    exact agrees.other after (by rw [applyMap_drop, if_neg same])

theorem Agrees.applyAll (agrees : Agrees key k entries m count) (changes : List (Change κ ρ)) :
    Agrees key k (applyAll key entries changes) (changes.foldl (applyMap key) m)
      (changes.foldl (recount key k) count) := by
  induction changes generalizing entries m count with
  | nil => exact agrees
  | cons change changes ih =>
    cases change with
    | put r => exact ih (agrees.put r)
    | amend r => exact ih (agrees.amend r)
    | drop k' => exact ih (agrees.drop k')

theorem length_own (key : ρ → κ) (k : κ) (changes : List (Change κ ρ)) :
    (own key k (Entries.applyAll key [] changes)).length = putCount key k changes :=
  ((Agrees.empty key k).applyAll changes).counted

/-- The list has a key as the map has it unless the key is put again before it is dropped. -/
theorem own_eq {key : ρ → κ} {k : κ} {changes : List (Change κ ρ)} (few : putCount key k changes ≤ 1) :
    own key k (Entries.applyAll key [] changes) = (mapAfter key changes k).toList := by
  have agrees := (Agrees.empty key k).applyAll changes
  cases all : own key k (Entries.applyAll key [] changes) with
  | nil =>
    have record : mapAfter key changes k = none := agrees.absent all
    rw [record, Option.toList_none]
  | cons r rest =>
    have counted := length_own key k changes
    rw [all, List.length_cons] at counted
    have alone : rest = [] := List.length_eq_zero_iff.mp (by omega)
    subst alone
    have record : mapAfter key changes k = some r := agrees.single r all
    rw [record, Option.toList_some]

end Agreement

section Survival
variable (key : ρ → κ)

def drops (k : κ) : Change κ ρ → Bool
  | .drop k' => k' = k
  | _ => false

/-- The keys that are put and not dropped afterwards, in order. -/
def surviving : List (Change κ ρ) → List κ
  | [] => []
  | .put r :: later => if later.any (drops (key r)) then surviving later else key r :: surviving later
  | _ :: later => surviving later

theorem map_key_amendFirst (r : ρ) (entries : List ρ) : (amendFirst key r entries).map key = entries.map key := by
  induction entries with
  | nil => rfl
  | cons e rest ih =>
    rw [amendFirst]
    by_cases same : key e = key r
    · rw [if_pos same, List.map_cons, List.map_cons, same]
    · rw [if_neg same, List.map_cons, List.map_cons, ih]

/-- Of the keys there before, those stay that no change drops. -/
theorem map_key_applyAll (changes : List (Change κ ρ)) (entries : List ρ) :
    (applyAll key entries changes).map key =
      ((entries.map key).filter fun k => !changes.any (drops k)) ++ surviving key changes := by
  induction changes generalizing entries with
  | nil => simp [applyAll, surviving]
  | cons change later ih =>
    have step : (applyAll key entries (change :: later)).map key = _ := ih (apply key entries change)
    rw [step]
    cases change with
    | put r =>
      have kept : ∀ k, (Change.put r :: later).any (drops k) = later.any (drops k) := fun _ => rfl
      simp only [kept, apply, List.map_append, List.filter_append, List.append_assoc, surviving]
      congr 1
      cases gone : later.any (drops (key r)) with
      | true => simp [gone]
      | false => simp [gone]
    | amend r =>
      have kept : ∀ k, (Change.amend r :: later).any (drops k) = later.any (drops k) := fun _ => rfl
      simp only [kept, apply, map_key_amendFirst, surviving]
    | drop k' =>
      simp only [apply, surviving, List.filter_map, List.filter_filter]
      congr 2
      apply List.filter_congr
      intro e _
      by_cases same : key e = k'
      · simp [drops, same]
      · simp [drops, same, Ne.symm same]

end Survival

section Permutation
variable {key : ρ → κ}

/-- Lists with the same records of every key in the same order differ only in how the keys alternate. -/
theorem perm_of_own [DecidableEq ρ] {entries entries' : List ρ}
    (same : ∀ k, own key k entries = own key k entries') : entries.Perm entries' := by
  rw [List.perm_iff_count]
  intro r
  have counted : ∀ all : List ρ, (own key (key r) all).count r = all.count r := fun all =>
    List.count_filter (by simp)
  rw [← counted entries, ← counted entries', same]

/-- The key that a change is about. -/
def changed (key : ρ → κ) : Change κ ρ → κ
  | .put r => key r
  | .amend r => key r
  | .drop k => k

theorem applyOwn_other {k : κ} {change : Change κ ρ} (other : changed key change ≠ k) (entries : List ρ) :
    applyOwn key k entries change = entries := by
  cases change with
  | put r => exact if_neg other
  | amend r => exact if_neg other
  | drop k' => exact if_neg other

/-- Changes about different keys commute up to how the keys alternate. -/
theorem own_apply_comm {change change' : Change κ ρ} (different : changed key change ≠ changed key change')
    (k : κ) (entries : List ρ) :
    own key k (apply key (apply key entries change) change') =
      own key k (apply key (apply key entries change') change) := by
  rw [own_apply, own_apply, own_apply, own_apply]
  by_cases here : changed key change = k
  · have other : changed key change' ≠ k := fun equal => different (here.trans equal.symm)
    rw [applyOwn_other other, applyOwn_other other]
  · rw [applyOwn_other here, applyOwn_other here]

end Permutation
end Entries
