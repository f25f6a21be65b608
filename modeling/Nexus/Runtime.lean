import Mathlib.Algebra.Group.Int.Defs
import Mathlib.Algebra.Group.Nat.Defs
import Mathlib.Data.List.OfFn
import Mathlib.Logic.Function.Basic

namespace Nexus

/-- What ends a run of the code: an exception, or an operation the language leaves undefined. -/
inductive Fault
  | outOfRange
  | overflow
  | uninitialised
  | nullPointer
  | thrown (what : String)
  deriving DecidableEq, Repr

theorem ok_bind {ε α β : Type} (a : α) (f : α → Except ε β) : (Except.ok a >>= f) = f a := rfl

theorem bind_eq_ok {ε α β : Type} {x : Except ε α} {f : α → Except ε β} {b : β} :
    x >>= f = .ok b ↔ ∃ a, x = .ok a ∧ f a = .ok b := by
  cases x with
  | error => simp [bind, Except.bind]
  | ok a => simp [bind, Except.bind]

theorem map_eq_ok {ε α β : Type} {x : Except ε α} {f : α → β} {b : β} :
    x.map f = .ok b ↔ ∃ a, x = .ok a ∧ f a = b := by
  cases x with
  | error => simp [Except.map]
  | ok a => simp [Except.map]

/-- A computation that yields one value or fails. -/
theorem ite_eq_ok {ε α : Type} {p : Prop} [Decidable p] {a b : α} {fault : ε} :
    (if p then Except.ok a else .error fault) = .ok b ↔ p ∧ a = b := by
  by_cases holds : p
  · rw [if_pos holds, Except.ok.injEq, and_iff_right holds]
  · rw [if_neg holds]
    exact iff_of_false (fun impossible => nomatch impossible) fun both => holds both.1

theorem mapM_eq_pure {m : Type → Type} [Monad m] [LawfulMonad m] {α β : Type} {f : α → m β} {g : α → β} {l : List α}
    (each : ∀ a ∈ l, f a = pure (g a)) : l.mapM f = pure (l.map g) := by
  induction l with
  | nil => rw [List.mapM_nil, List.map_nil]
  | cons a rest ih =>
    obtain ⟨first, later⟩ := List.forall_mem_cons.mp each
    rw [List.mapM_cons, first, ih later, pure_bind, pure_bind, List.map_cons]

theorem mem_of_mapM {ε α β : Type} {f : α → Except ε β} {l : List α} {results : List β}
    (run : l.mapM f = .ok results) :
    (∀ a ∈ l, ∃ b ∈ results, f a = .ok b) ∧ ∀ b ∈ results, ∃ a ∈ l, f a = .ok b := by
  induction l generalizing results with
  | nil =>
    cases run
    constructor
    · exact fun a impossible => absurd impossible List.not_mem_nil
    · exact fun b impossible => absurd impossible List.not_mem_nil
  | cons a rest ih =>
    rw [List.mapM_cons] at run
    obtain ⟨b, first, after⟩ := bind_eq_ok.mp run
    obtain ⟨later, others, last⟩ := bind_eq_ok.mp after
    obtain rfl : b :: later = results := Except.ok.inj last
    obtain ⟨forth, back⟩ := ih others
    constructor
    · refine List.forall_mem_cons.mpr ⟨⟨b, List.mem_cons_self, first⟩, fun a' member => ?_⟩
      obtain ⟨b', member', same⟩ := forth a' member
      exact ⟨b', List.mem_cons_of_mem b member', same⟩
    · refine List.forall_mem_cons.mpr ⟨⟨a, List.mem_cons_self, first⟩, fun b' member => ?_⟩
      obtain ⟨a', member', same⟩ := back b' member
      exact ⟨a', List.mem_cons_of_mem a member', same⟩

theorem exists_mapM {ε α β : Type} {f : α → Except ε β} {l : List α} (each : ∀ a ∈ l, ∃ b, f a = .ok b) :
    ∃ results, l.mapM f = .ok results := by
  induction l with
  | nil => exact ⟨[], rfl⟩
  | cons a rest ih =>
    obtain ⟨⟨b, first⟩, others⟩ := List.forall_mem_cons.mp each
    obtain ⟨results, later⟩ := ih others
    rw [List.mapM_cons]
    exact ⟨_, bind_eq_ok.mpr ⟨b, first, bind_eq_ok.mpr ⟨results, later, rfl⟩⟩⟩

section Outcomes
variable {ε α β : Type} {Allowed : ε → Prop} {Mid : α → Prop} {Post Post' : β → Prop}

/-- A run that ends with a result in `Post` or with a fault in `Allowed`. -/
def EndsIn (Allowed : ε → Prop) (Post : β → Prop) : Except ε β → Prop
  | .ok b => Post b
  | .error fault => Allowed fault

theorem EndsIn.bind {x : Except ε α} {f : α → Except ε β} (first : EndsIn Allowed Mid x)
    (next : ∀ a, Mid a → EndsIn Allowed Post (f a)) : EndsIn Allowed Post (x >>= f) := by
  cases x with
  | error fault => exact first
  | ok a => exact next a first

theorem EndsIn.mono {x : Except ε β} (ends : EndsIn Allowed Post x) (weaker : ∀ b, Post b → Post' b) :
    EndsIn Allowed Post' x := by
  cases x with
  | error fault => exact ends
  | ok b => exact weaker b ends

end Outcomes

section Vectors
variable {α : Type}

/-- `v[i]` as a value; `operator[]` checks nothing, so a read past the end is a fault. -/
def readAt (v : List α) (i : Nat) : Except Fault α :=
  match v[i]? with
  | some a => .ok a
  | none => .error .outOfRange

def writeAt (v : List α) (i : Nat) (a : α) : Except Fault (List α) :=
  if i < v.length then .ok (v.set i a) else .error .outOfRange

theorem readAt_eq_ok {v : List α} {i : Nat} {a : α} : readAt v i = .ok a ↔ v[i]? = some a := by
  unfold readAt
  split
  · rename_i found
    rw [found, Except.ok.injEq, Option.some.injEq]
  · rename_i missing
    rw [missing]
    exact iff_of_false (by simp) (by simp)

theorem writeAt_eq_ok {v w : List α} {i : Nat} {a : α} :
    writeAt v i a = .ok w ↔ i < v.length ∧ v.set i a = w :=
  ite_eq_ok

theorem readAt_endsIn {Allowed : Fault → Prop} {v : List α} {i : Nat} (inside : i < v.length) :
    EndsIn Allowed (fun a => v[i]? = some a) (readAt v i) := by
  have here : v[i]? = some _ := List.getElem?_eq_getElem inside
  rw [readAt_eq_ok.mpr here]
  exact here

theorem writeAt_endsIn {Allowed : Fault → Prop} {v : List α} {i : Nat} (inside : i < v.length) (a : α) :
    EndsIn Allowed (fun w => w = v.set i a) (writeAt v i a) := by
  rw [writeAt_eq_ok.mpr ⟨inside, rfl⟩]
  rfl

theorem readAt_ofFn {n : Nat} (f : Fin n → α) (i : Fin n) : readAt (List.ofFn f) i = .ok (f i) := by
  simp [readAt]

theorem writeAt_ofFn {n : Nat} (f : Fin n → α) (i : Fin n) (a : α) :
    writeAt (List.ofFn f) i a = .ok (List.ofFn (Function.update f i a)) := by
  have inside : i.val < (List.ofFn f).length := by simp
  rw [writeAt, if_pos inside]
  congr 1
  apply List.ext_getElem
  · simp
  intro j hj hj'
  simp only [List.getElem_set, List.getElem_ofFn, Function.update_apply, Fin.ext_iff]
  by_cases same : i.val = j
  · rw [if_pos same, if_pos same.symm]
  · rw [if_neg same, if_neg (fun equal => same equal.symm)]

theorem readAt_get (v : List α) (i : Fin v.length) : readAt v i = .ok (v.get i) := by
  simp [readAt]

end Vectors

section Loops
variable {σ ε : Type}

/-- `for (int i = 0; i < n; i++)` over the state that the body changes. -/
def forRange (n : Nat) (s : σ) (body : σ → Nat → Except ε σ) : Except ε σ :=
  (List.range n).foldlM body s

theorem forRange_succ (n : Nat) (s : σ) (body : σ → Nat → Except ε σ) :
    forRange (n + 1) s body = forRange n s body >>= fun s' => body s' n := by
  simp [forRange, List.range_succ, List.foldlM_append]

theorem forRange_first (body : σ → Nat → Except ε σ) {n : Nat} {s t : σ}
    (run : forRange (n + 1) s body = .ok t) :
    ∃ u, body s 0 = .ok u := by
  induction n generalizing t with
  | zero =>
    rw [forRange_succ] at run
    exact ⟨t, run⟩
  | succ n ih =>
    rw [forRange_succ] at run
    cases before : forRange (n + 1) s body with
    | error e =>
      rw [before] at run
      cases run
    | ok u => exact ih before

/-- The loop rule: an invariant that each pass re-establishes, without a fault, holds at the end. -/
theorem forRange_invariant (body : σ → Nat → Except ε σ) (Inv : Nat → σ → Prop) {n : Nat} {s : σ}
    (start : Inv 0 s)
    (pass : ∀ i t, i < n → Inv i t → ∃ t', body t i = .ok t' ∧ Inv (i + 1) t') :
    ∃ t, forRange n s body = .ok t ∧ Inv n t := by
  induction n with
  | zero => exact ⟨s, rfl, start⟩
  | succ n ih =>
    obtain ⟨t, run, inv⟩ := ih fun i t below => pass i t (by omega)
    obtain ⟨t', last, inv'⟩ := pass n t (by omega) inv
    exact ⟨t', by rw [forRange_succ, run]; exact last, inv'⟩

/-- The same where a pass may also end in a fault that is allowed. -/
theorem EndsIn.forRange {Allowed : ε → Prop} (body : σ → Nat → Except ε σ) (Inv : Nat → σ → Prop) {n : Nat} {s : σ}
    (start : Inv 0 s) (pass : ∀ i t, i < n → Inv i t → EndsIn Allowed (Inv (i + 1)) (body t i)) :
    EndsIn Allowed (Inv n) (forRange n s body) := by
  induction n with
  | zero => exact start
  | succ n ih =>
    rw [forRange_succ]
    exact (ih fun i t below => pass i t (by omega)).bind fun t inv => pass n t (by omega) inv

/-- The rule for a run that is known to end: what each pass keeps holds at the end. -/
theorem foldlM_keeps {β : Type} (body : σ → β → Except ε σ) (Inv : σ → Prop) {l : List β} {s t : σ} (start : Inv s)
    (pass : ∀ b u u', Inv u → body u b = .ok u' → Inv u') (run : l.foldlM body s = .ok t) : Inv t := by
  induction l generalizing s with
  | nil =>
    cases run
    exact start
  | cons b l ih =>
    rw [List.foldlM_cons] at run
    obtain ⟨u, first, later⟩ := bind_eq_ok.mp run
    exact ih (pass b s u start first) later

theorem forRange_keeps (body : σ → Nat → Except ε σ) (Inv : σ → Prop) {n : Nat} {s t : σ} (start : Inv s)
    (pass : ∀ i u u', Inv u → body u i = .ok u' → Inv u') (run : forRange n s body = .ok t) : Inv t :=
  foldlM_keeps body Inv start pass run

/-- The same with the state after each pass given outright. -/
theorem forRange_eq (body : σ → Nat → Except ε σ) (state : Nat → σ) {n : Nat}
    (pass : ∀ i, i < n → body (state i) i = .ok (state (i + 1))) :
    forRange n (state 0) body = .ok (state n) := by
  obtain ⟨t, run, rfl⟩ := forRange_invariant body (fun i t => t = state i) rfl
    fun i t below same => ⟨_, by rw [same]; exact pass i below, rfl⟩
  exact run

end Loops

section PartialTables
variable {β : Type} {n : Nat}

theorem lt_succ_iff_or {n k : Nat} (below : k < n) (a : Fin n) :
    a.val < k + 1 ↔ a.val < k ∨ a = ⟨k, below⟩ := by
  have same : a = ⟨k, below⟩ ↔ a.val = k := Fin.ext_iff
  omega

/-- A table whose first `k` entries are new and the rest old. -/
def upTo (k : Nat) (new old : Fin n → β) (i : Fin n) : β := if i.val < k then new i else old i

theorem upTo_update {k : Nat} (below : k < n) (new old : Fin n → β) :
    Function.update (upTo k new old) ⟨k, below⟩ (new ⟨k, below⟩) = upTo (k + 1) new old := by
  funext i
  by_cases here : i = ⟨k, below⟩
  · subst i
    simp [upTo]
  · simp only [Function.update_of_ne here, upTo, lt_succ_iff_or below, here, or_false]

theorem upTo_succ_of_eq {k : Nat} (below : k < n) {new old : Fin n → β}
    (same : new ⟨k, below⟩ = old ⟨k, below⟩) : upTo (k + 1) new old = upTo k new old := by
  have here : upTo k new old ⟨k, below⟩ = new ⟨k, below⟩ := by simp [upTo, same]
  rw [← upTo_update below, ← here, Function.update_eq_self]

theorem upTo_zero (new old : Fin n → β) : upTo 0 new old = old := by
  funext i
  simp [upTo]

theorem upTo_full (new old : Fin n → β) : upTo n new old = new := by
  funext i
  simp [upTo]

end PartialTables

section MachineIntegers

def INT_MAX : Int := 2 ^ 31 - 1
def INT_MIN : Int := -2 ^ 31
def LONG_LONG_MAX : Int := 2 ^ 63 - 1
def LONG_LONG_MIN : Int := -2 ^ 63

/-- A result of `int` arithmetic, undefined outside the type. -/
def checkInt (v : Int) : Except Fault Int :=
  if INT_MIN ≤ v ∧ v ≤ INT_MAX then .ok v else .error .overflow

/-- A result of `long long` arithmetic, undefined outside the type. -/
def checkLongLong (v : Int) : Except Fault Int :=
  if LONG_LONG_MIN ≤ v ∧ v ≤ LONG_LONG_MAX then .ok v else .error .overflow

/-- A `long long` stored in an `int` keeps its low 32 bits. -/
def storeInt (v : Int) : Int := v.bmod (2 ^ 32)

theorem checkInt_eq_ok {v w : Int} : checkInt v = .ok w ↔ (INT_MIN ≤ v ∧ v ≤ INT_MAX) ∧ v = w :=
  ite_eq_ok

theorem checkLongLong_eq_ok {v w : Int} :
    checkLongLong v = .ok w ↔ (LONG_LONG_MIN ≤ v ∧ v ≤ LONG_LONG_MAX) ∧ v = w :=
  ite_eq_ok

theorem checkInt_endsIn (v : Int) : EndsIn (· = Fault.overflow) (fun _ => True) (checkInt v) := by
  unfold checkInt
  split
  · trivial
  · rfl

theorem checkLongLong_endsIn (v : Int) : EndsIn (· = Fault.overflow) (fun _ => True) (checkLongLong v) := by
  unfold checkLongLong
  split
  · trivial
  · rfl

theorem storeInt_le (v : Int) : storeInt v ≤ INT_MAX := by
  have below := Int.bmod_lt (x := v) (m := 2 ^ 32) (by omega)
  unfold storeInt INT_MAX
  omega

theorem checkLongLong_eq {v : Int} (lower : LONG_LONG_MIN ≤ v) (upper : v ≤ LONG_LONG_MAX) :
    checkLongLong v = .ok v :=
  if_pos ⟨lower, upper⟩

theorem storeInt_eq {v : Int} (lower : INT_MIN ≤ v) (upper : v ≤ INT_MAX) : storeInt v = v := by
  unfold INT_MIN at lower
  unfold INT_MAX at upper
  unfold storeInt
  rw [Int.bmod_eq_of_le] <;> omega

end MachineIntegers
end Nexus
