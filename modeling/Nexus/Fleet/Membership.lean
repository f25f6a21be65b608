import Nexus.Fleet.Soundness

namespace Nexus.Fleet
open Entries NexusRegistryServer NetworkManager Transition

/-- No registration and no deregistration is lost or waited for in vain. -/
def Action.Registers {H : Type} : Action H → Prop
  | .timeout _ call => call = .update
  | .lose _ call => call = .update
  | _ => True

/-- How many records a program has, and how many registrations and deregistrations on their way, at a point of
`main`. -/
def Counts (main : MainPoint) (records registering deregistering : Nat) : Prop :=
  match main with
  | .created => records = 0 ∧ registering = 0 ∧ deregistering = 0
  | .registering => records + registering = 1 ∧ deregistering = 0
  | .registered => records = 1 ∧ registering = 0 ∧ deregistering = 0
  | .running => records = 1 ∧ registering = 0 ∧ deregistering = 0
  | .failed => records = 1 ∧ registering = 0 ∧ deregistering = 0
  | .quitting => records = 1 ∧ registering = 0 ∧ deregistering = 0
  | .stopping => records = deregistering ∧ records ≤ 1 ∧ registering = 0
  | .left => records = 0 ∧ registering = 0 ∧ deregistering = 0

section Programs
variable {lib : Jsoncpp} {p p' : Program} {n r d : Nat}

theorem Counts.silent (counts : Counts p.main n r d) (step : p.Step lib .silent p') : Counts p'.main n r d := by
  cases step with
  | bind here =>
    rw [here] at counts
    exact counts
  | bindFailed here =>
    rw [here] at counts
    exact counts
  | quit here =>
    rw [here] at counts
    exact counts
  | _ => exact counts

theorem Counts.post (counts : Counts p.main n r d) {call : Call} {body : Json}
    (step : p.Step lib (.post call body) p') :
    Counts p'.main n (r + if call = .register then 1 else 0) (d + if call = .deregister then 1 else 0) := by
  cases step with
  | register here copied payload =>
    rw [here] at counts
    obtain ⟨rfl, rfl, rfl⟩ := counts
    exact ⟨rfl, rfl⟩
  | deregister here copied payload =>
    rw [here] at counts
    obtain ⟨rfl, rfl, rfl⟩ := counts
    exact ⟨rfl, Nat.le_refl 1, rfl⟩
  | update alive here payload => exact counts

/-- A call returns when its request is handled. -/
theorem Counts.resume (counts : Counts p.main n r d) {call : Call} (step : p.Step lib (.resume call) p')
    (register : call = .register → r = 0) (deregister : call = .deregister → d = 0) : Counts p'.main n r d := by
  cases step with
  | registered here =>
    rw [here] at counts
    have none := register rfl
    exact ⟨by have := counts.1; omega, none, counts.2⟩
  | deregistered here =>
    rw [here] at counts
    have none := deregister rfl
    exact ⟨by have := counts.1; omega, counts.2.2, none⟩
  | updated alive here => exact counts

theorem Counts.handle {main : MainPoint} {call : Call}
    (counts : Counts main n (r + if call = .register then 1 else 0) (d + if call = .deregister then 1 else 0)) :
    Counts main (call.count n) r d := by
  cases call with
  | register =>
    cases main with
    | registering =>
      obtain ⟨one, none⟩ := counts
      exact ⟨by simp only [Call.count, reduceIte] at one ⊢; omega, none⟩
    | _ => exact absurd counts (by simp [Counts])
  | deregister =>
    cases main with
    | stopping =>
      obtain ⟨same, single, none⟩ := counts
      exact ⟨by simp only [Call.count, reduceIte] at same ⊢; omega, Nat.zero_le 1, none⟩
    | _ => exact absurd counts (by simp [Counts])
  | update => exact counts

end Programs
section Systems
variable {H : Type} [DecidableEq H] {start : H → Node} {keys : H → String} {lib : Jsoncpp}
  {toStyledString : Json → String} {s s' : State H} {action : Action H}

def State.records (s : State H) (start : H → Node) (h : H) : List NodeInfo :=
  own NodeInfo.name (start h).name s.registry

/-- Every program has as many records as the point of its `main` says. -/
def Counted (start : H → Node) (s : State H) : Prop :=
  ∀ h, Counts (s.program h).main (s.records start h).length (s.posted h .register) (s.posted h .deregister)

theorem posted_cons (s : State H) (h₀ h : H) (call₀ call : Call) (body : Json) (p : Program) :
    State.posted { s.set h₀ p with pending := ⟨h₀, call₀, body⟩ ::ₘ s.pending } h call =
      s.posted h call + if h₀ = h ∧ call₀ = call then 1 else 0 :=
  Multiset.countP_cons _ _ _

theorem posted_eq_zero {h : H} {call : Call} (none : ∀ post ∈ s.pending, ¬(post.caller = h ∧ post.call = call)) :
    s.posted h call = 0 :=
  Multiset.countP_eq_zero.mpr none

/-- A step of a program that posts nothing leaves the counts of the others as they are. -/
theorem Counted.set (counted : Counted start s) {h₀ : H} {p : Program}
    (own : Counts p.main (s.records start h₀).length (s.posted h₀ .register) (s.posted h₀ .deregister)) :
    Counted start (s.set h₀ p) := by
  intro h
  rw [set_program]
  by_cases same : h = h₀
  · rw [if_pos same, same]
    exact own
  · rw [if_neg same]
    exact counted h

theorem Counted.next (ports : ∀ h, INT_MIN ≤ (start h).port ∧ (start h).port ≤ INT_MAX)
    (distinct : ∀ h h', (start h).name = (start h').name → h = h') (sound : Sound start keys s)
    (counted : Counted start s) (permitted : action.Registers) (step : Step lib toStyledString s action s') :
    Counted start s' := by
  cases step with
  | @run h₀ p inside => exact counted.set ((counted h₀).silent inside)
  | @post h₀ call body p inside =>
    intro h
    rw [posted_cons, posted_cons]
    have program : State.program { s.set h₀ p with pending := ⟨h₀, call, body⟩ ::ₘ s.pending } h =
      if h = h₀ then p else s.program h := set_program s h₀ h p
    rw [program]
    by_cases same : h = h₀
    · subst same
      simp only [true_and, if_pos]
      exact (counted h).post inside
    · have other : ∀ kind, ¬(h₀ = h ∧ call = kind) := fun kind both => same both.1.symm
      rw [if_neg same, if_neg (other _), if_neg (other _)]
      exact counted h
  | @resume h₀ call p inside none =>
    refine counted.set ((counted h₀).resume inside ?_ ?_)
    · rintro rfl
      exact posted_eq_zero none
    · rintro rfl
      exact posted_eq_zero none
  | @timeout h₀ call p inside =>
    refine counted.set ((counted h₀).resume inside ?_ ?_)
    · intro register
      cases register.symm.trans permitted
    · intro deregister
      cases deregister.symm.trans permitted
  | @handle post rest response nodes split readable handled =>
    obtain ⟨asked, request, rfl⟩ := sound.handled ports split readable handled
    intro h
    have before := counted h
    rw [s.posted_split split, s.posted_split split] at before
    have records : (own NodeInfo.name (start h).name
        (apply NodeInfo.name s.registry (post.call.change asked (keys post.caller)))).length = _ :=
      length_own_change s.registry post.call asked (keys post.caller) (start h).name
    rw [State.records, records, request.glimpse.name]
    by_cases same : post.caller = h
    · subst same
      simp only [true_and] at before
      rw [if_pos rfl]
      exact before.handle
    · have other : ∀ kind, ¬(post.caller = h ∧ post.call = kind) := fun kind both => same both.1
      have apart : ¬(start post.caller).name = (start h).name := fun equal => same (distinct _ _ equal)
      rw [if_neg (other _), if_neg (other _)] at before
      rw [if_neg apart]
      exact before
  | @lose post rest split =>
    intro h
    have before := counted h
    have update : post.call = .update := permitted
    have other : ∀ kind, kind ≠ .update → ¬(post.caller = h ∧ post.call = kind) := fun kind different both =>
      different (both.2.symm.trans update)
    rw [s.posted_split split, s.posted_split split, if_neg (other .register (by decide)),
      if_neg (other .deregister (by decide))] at before
    exact before
  | @serve h₀ nodes waits readable handled => exact counted.set (counted h₀)

/-- If no registration and no deregistration gets lost, the registry has one record of every program that has
registered and runs, or has failed to bind, and none of those that have left; updates that come late bring none back. -/
theorem run_membership (lib : Jsoncpp) (toStyledString : Json → String) (start : H → Node) (keys : H → String)
    (distinct : ∀ h h', (start h).name = (start h').name → h = h')
    (ports : ∀ h, INT_MIN ≤ (start h).port ∧ (start h).port ≤ INT_MAX) (s : State H)
    (run : Run (Step lib toStyledString) Action.Registers (State.initial start keys) s) :
    (∀ h, ((s.program h).main = .created ∨ (s.program h).main = .left → s.records start h = []) ∧
      ((s.program h).main = .registered ∨ (s.program h).main = .running ∨ (s.program h).main = .failed ∨
          (s.program h).main = .quitting →
        ∃ info, Recorded start keys s h info ∧ s.records start h = [info])) ∧
      ∀ info ∈ s.registry, ∃ h, info.name = (start h).name ∧ (s.program h).main ≠ .created ∧
        (s.program h).main ≠ .left := by
  have both : Sound start keys s ∧ Counted start s := by
    refine run.keeps (motive := fun t => Sound start keys t ∧ Counted start t) ⟨sound_initial, ?_⟩ ?_
    · exact fun h => ⟨rfl, rfl, rfl⟩
    · intro t t' action before permitted step
      exact ⟨before.1.next ports step distinct, before.2.next ports distinct before.1 permitted step⟩
  obtain ⟨sound, counted⟩ := both
  have absent : ∀ h, (s.program h).main = .created ∨ (s.program h).main = .left → s.records start h = [] := by
    intro h gone
    have counts := counted h
    rcases gone with created | left
    · rw [created] at counts
      exact List.length_eq_zero_iff.mp counts.1
    · rw [left] at counts
      exact List.length_eq_zero_iff.mp counts.1
  refine ⟨fun h => ⟨absent h, fun here => ?_⟩, fun info member => ?_⟩
  · have counts := counted h
    have one : (s.records start h).length = 1 := by
      rcases here with registered | running | failed | quitting
      · rw [registered] at counts
        exact counts.1
      · rw [running] at counts
        exact counts.1
      · rw [failed] at counts
        exact counts.1
      · rw [quitting] at counts
        exact counts.1
    obtain ⟨info, only⟩ := List.length_eq_one_iff.mp one
    have member : info ∈ s.records start h := only ▸ List.mem_singleton_self info
    obtain ⟨among, isName⟩ := List.mem_filter.mp member
    obtain ⟨h', recorded⟩ := sound.registry info among
    have same : h' = h := distinct h' h (recorded.view.1.symm.trans (of_decide_eq_true isName))
    exact ⟨info, same ▸ recorded, only⟩
  · obtain ⟨h, named, _⟩ := (sound.registry info member).host
    have listed : info ∈ s.records start h := List.mem_filter.mpr ⟨member, decide_eq_true named⟩
    refine ⟨h, named, fun created => ?_, fun left => ?_⟩
    · rw [absent h (Or.inl created)] at listed
      exact absurd listed List.not_mem_nil
    · rw [absent h (Or.inr left)] at listed
      exact absurd listed List.not_mem_nil

end Systems

namespace launch

/-- `sat1` is registered. -/
def settled : State Bool := taken.set true (program .registered .none .moved sat1.updatePosition)

theorem run_settled {allowed : Action Bool → Prop} (inside : allowed (.run true))
    (post : allowed (.post true .register)) (handle : allowed (.handle true .register))
    (resume : allowed (.resume true .register)) :
    Run (Step lib toStyledString) allowed (State.initial start keys) settled :=
  .step (run_taken inside post handle) resume
    (.resume (.registered rfl) fun _ member => absurd member (Multiset.notMem_zero _))

theorem run_membership_settled :
    (∀ h, ((settled.program h).main = .created ∨ (settled.program h).main = .left → settled.records start h = []) ∧
      ((settled.program h).main = .registered ∨ (settled.program h).main = .running ∨
          (settled.program h).main = .failed ∨ (settled.program h).main = .quitting →
        ∃ info, Recorded start keys settled h info ∧ settled.records start h = [info])) ∧
      ∀ info ∈ settled.registry, ∃ h, info.name = (start h).name ∧ (settled.program h).main ≠ .created ∧
        (settled.program h).main ≠ .left :=
  run_membership lib toStyledString start keys start_distinct start_ports settled
    (run_settled trivial trivial trivial trivial)

end launch
end Nexus.Fleet
