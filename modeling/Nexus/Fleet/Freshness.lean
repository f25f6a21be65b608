import Nexus.Fleet.Membership

namespace Nexus.Fleet
open Entries NexusRegistryServer NetworkManager Transition

/-- No update is lost or waited for in vain. -/
def Action.Updates {H : Type} : Action H → Prop
  | .timeout _ call => call ≠ .update
  | .lose _ call => call ≠ .update
  | _ => True

section Programs
variable {lib : Jsoncpp} {p p' : Program} {label : Label}

theorem Program.Step.of_update {body : Json} (step : p.Step lib (.post .update body) p') :
    p.mover = .moved ∧ p'.mover = .waiting ∧ p'.node = p.node := by
  cases step with
  | update alive here payload => exact ⟨here, rfl, rfl⟩

theorem Program.Step.of_updated (step : p.Step lib (.resume .update) p') :
    p.mover = .waiting ∧ p'.mover = .idle ∧ p'.node = p.node := by
  cases step with
  | updated alive here => exact ⟨here, rfl, rfl⟩

/-- Without an update that begins or ends, the thread that moves a node moves it or has looked at `isRunning`, if it
was its turn at all. -/
theorem Program.Step.turn (step : p.Step lib label p') (post : ∀ body, label ≠ .post .update body)
    (resume : label ≠ .resume .update) :
    (p'.node = p.node ∧ (p'.mover = p.mover ∨ p.mover = .idle ∧ p'.mover = .checked)) ∨
      (p'.node = p.node.moveFirst ∧ p.mover = .checked ∧ p'.mover = .halfway) ∨
      (p'.node = p.node.moveSecond ∧ p.mover = .halfway ∧ p'.mover = .moved) := by
  cases step with
  | checkMover satellite here runs => exact Or.inl ⟨rfl, Or.inr ⟨here, rfl⟩⟩
  | moveFirst alive here => exact Or.inr (Or.inl ⟨rfl, here, rfl⟩)
  | moveSecond alive here => exact Or.inr (Or.inr ⟨rfl, here, rfl⟩)
  | update alive here payload => exact absurd rfl (post _)
  | updated alive here => exact absurd rfl resume
  | _ => exact Or.inl ⟨rfl, Or.inl rfl⟩

/-- What a record says of a node, by where the thread that moves the node is: the record is behind only from the first
assignment of a move until the update of that move, of which `onWay` are on their way, has been handled. -/
def Shown (p : Program) (onWay : Nat) (publicKey : String) (info : NodeInfo) : Prop :=
  match p.mover with
  | .idle => info = p.node.info publicKey
  | .checked => info = p.node.info publicKey
  | .halfway => ∃ past : Node, p.node = past.moveFirst ∧ info = past.info publicKey
  | .moved => ∃ past : Node, p.node = past.updatePosition ∧ info = past.info publicKey
  | .waiting => info = p.node.info publicKey ∨
      onWay ≠ 0 ∧ ∃ past : Node, p.node = past.updatePosition ∧ info = past.info publicKey

section Records
variable {onWay onWay' : Nat} {publicKey : String} {info : NodeInfo}

theorem Shown.kept (shown : Shown p onWay publicKey info) (node : p'.node = p.node) (mover : p'.mover = p.mover)
    (more : onWay ≤ onWay') : Shown p' onWay' publicKey info := by
  unfold Shown at shown ⊢
  rw [mover, node]
  cases here : p.mover with
  | waiting =>
    rw [here] at shown
    exact shown.imp_right fun behind => ⟨by omega, behind.2⟩
  | _ =>
    rw [here] at shown
    exact shown

theorem Shown.turn (shown : Shown p onWay publicKey info) (step : p.Step lib label p')
    (post : ∀ body, label ≠ .post .update body) (resume : label ≠ .resume .update) :
    Shown p' onWay publicKey info := by
  rcases step.turn post resume with
    ⟨node, same | ⟨idle, checked⟩⟩ | ⟨first, checked, halfway⟩ | ⟨second, halfway, moved⟩
  · exact shown.kept node same (Nat.le_refl _)
  · unfold Shown at shown ⊢
    rw [idle] at shown
    rw [checked, node]
    exact shown
  · unfold Shown at shown ⊢
    rw [checked] at shown
    rw [halfway]
    exact ⟨p.node, first, shown⟩
  · unfold Shown at shown ⊢
    rw [halfway] at shown
    obtain ⟨past, was, record⟩ := shown
    rw [moved]
    exact ⟨past, by rw [second, was, Node.updatePosition_eq], record⟩

theorem Shown.update (shown : Shown p onWay publicKey info) {body : Json} (step : p.Step lib (.post .update body) p')
    (posted : onWay' ≠ 0) : Shown p' onWay' publicKey info := by
  obtain ⟨moved, waiting, node⟩ := step.of_update
  unfold Shown at shown ⊢
  rw [moved] at shown
  obtain ⟨past, was, record⟩ := shown
  rw [waiting]
  exact Or.inr ⟨posted, past, node.trans was, record⟩

theorem Shown.updated (shown : Shown p 0 publicKey info) (step : p.Step lib (.resume .update) p') :
    Shown p' onWay' publicKey info := by
  obtain ⟨waiting, idle, node⟩ := step.of_updated
  unfold Shown at shown ⊢
  rw [waiting] at shown
  rw [idle, node]
  exact shown.resolve_right fun behind => behind.1 rfl

end Records
end Programs
section Systems
variable {H : Type} [DecidableEq H] {start : H → Node} {keys : H → String} {lib : Jsoncpp}
  {toStyledString : Json → String} {s s' s'' : State H} {action : Action H}

/-- A program has an update on its way only while it waits for it, and the update says where the node is. -/
structure Awaited (s : State H) (h : H) : Prop where
  single : s.posted h .update ≤ if (s.program h).mover = .waiting then 1 else 0
  current : ∀ post ∈ s.pending, post.caller = h → post.call = .update →
    post.body = nodePayload "update" (s.program h).node (s.program h).publicKey

theorem Awaited.none {h : H} (awaited : Awaited s h) (other : (s.program h).mover ≠ .waiting) :
    s.posted h .update = 0 := by
  have before := awaited.single
  rw [if_neg other] at before
  exact Nat.le_zero.mp before

/-- Nothing on its way. -/
theorem Awaited.of_none {h : H} (none : s.posted h .update = 0) : Awaited s h where
  single := none.le.trans (Nat.zero_le _)
  current post member caller kind := absurd ⟨caller, kind⟩ (Multiset.countP_eq_zero.mp none post member)

/-- Fewer requests on their way. -/
theorem Awaited.fewer {h : H} (awaited : Awaited s h) {post : Pending H} {rest : Multiset (Pending H)}
    (split : s.pending = post ::ₘ rest) (nodes : List NodeInfo) :
    Awaited { s with registry := nodes, pending := rest } h where
  single := (Nat.le.intro (s.posted_split split h .update).symm).trans awaited.single
  current other member := awaited.current other (split ▸ Multiset.mem_cons_of_mem member)

theorem Awaited.elsewhere {h h₀ : H} (awaited : Awaited s h) (other : h ≠ h₀) (p : Program) :
    Awaited (s.set h₀ p) h := by
  have after : (s.set h₀ p).program h = s.program h := (set_program s h₀ h p).trans (if_neg other)
  exact ⟨after ▸ awaited.single, after ▸ awaited.current⟩

/-- A step inside a program that neither posts an update nor returns from one. -/
theorem Awaited.inside {h h₀ : H} {p : Program} {label : Label} (awaited : Awaited s h)
    (inside : (s.program h₀).Step lib label p) (post : ∀ body, label ≠ .post .update body)
    (resume : label ≠ .resume .update) : Awaited (s.set h₀ p) h := by
  by_cases here : h = h₀
  · subst here
    have after : (s.set h p).program h = p := set_program_self s h p
    have still : (s.program h).mover ≠ .waiting → Awaited (s.set h p) h := fun other =>
      .of_none (awaited.none other)
    rcases inside.turn post resume with ⟨node, same | ⟨idle, _⟩⟩ | ⟨_, checked, _⟩ | ⟨_, halfway, _⟩
    · refine ⟨?_, ?_⟩
      · rw [after, same]
        exact awaited.single
      · rw [after, node, inside.publicKey]
        exact awaited.current
    · exact still (by rw [idle]; decide)
    · exact still (by rw [checked]; decide)
    · exact still (by rw [halfway]; decide)
  · exact awaited.elsewhere here p

/-- A program posts a request. -/
theorem Awaited.post {h₀ h : H} {call : Call} {body : Json} {p : Program} (awaited : Awaited s h)
    (inside : (s.program h₀).Step lib (.post call body) p) :
    Awaited { s.set h₀ p with pending := ⟨h₀, call, body⟩ ::ₘ s.pending } h := by
  have posted := posted_cons s h₀ h call .update body p
  by_cases new : h₀ = h ∧ call = .update
  · obtain ⟨rfl, rfl⟩ := new
    have after : State.program { s.set h₀ p with pending := ⟨h₀, .update, body⟩ ::ₘ s.pending } h₀ = p :=
      set_program_self s h₀ p
    obtain ⟨moved, waiting, node⟩ := inside.of_update
    have none := awaited.none (by rw [moved]; decide)
    refine ⟨?_, fun post member caller kind => ?_⟩
    · rw [posted, after, waiting, if_pos ⟨rfl, rfl⟩, if_pos rfl, none]
    · rcases Multiset.mem_cons.mp member with rfl | old
      · rw [after, node, inside.publicKey]
        rcases inside.posted with ⟨_, _, written⟩ | ⟨other, _⟩
        · exact written
        · exact absurd rfl other
      · exact absurd ⟨caller, kind⟩ (Multiset.countP_eq_zero.mp none post old)
  · rw [if_neg new] at posted
    by_cases same : h₀ = h
    · have other : ∀ written, Label.post call body ≠ .post .update written := by
        intro written equal
        cases equal
        exact new ⟨same, rfl⟩
      have before := awaited.inside inside other nofun
      refine ⟨posted.le.trans before.single, fun post member caller kind => ?_⟩
      rcases Multiset.mem_cons.mp member with rfl | old
      · exact absurd ⟨caller, kind⟩ new
      · exact before.current post old caller kind
    · have after : State.program { s.set h₀ p with pending := ⟨h₀, call, body⟩ ::ₘ s.pending } h = s.program h :=
        (set_program s h₀ h p).trans (if_neg (Ne.symm same))
      refine ⟨posted.le.trans (after ▸ awaited.single), fun post member caller kind => ?_⟩
      rcases Multiset.mem_cons.mp member with rfl | old
      · exact absurd caller same
      · rw [after]
        exact awaited.current post old caller kind

theorem Awaited.next {h : H} (awaited : Awaited s h) (permitted : action.Updates)
    (step : Step lib toStyledString s action s') : Awaited s' h := by
  cases step with
  | run inside => exact awaited.inside inside (fun body => nofun) nofun
  | post inside => exact awaited.post inside
  | @resume h₀ call p inside none =>
    by_cases update : call = .update
    · subst update
      by_cases here : h = h₀
      · subst here
        exact .of_none (posted_eq_zero none)
      · exact awaited.elsewhere here p
    · exact awaited.inside inside (fun body => nofun) fun same => update (Label.resume.inj same)
  | timeout inside =>
    refine awaited.inside inside (fun body => nofun) ?_
    rintro ⟨⟩
    exact absurd rfl permitted
  | handle split readable handled => exact awaited.fewer split _
  | lose split => exact awaited.fewer split _
  | @serve h₀ nodes waits readable handled =>
    have same := set_program s h₀ h ((s.program h₀).serve nodes)
    by_cases here : h = h₀
    · subst here
      rw [if_pos rfl] at same
      refine ⟨?_, ?_⟩
      · rw [same]
        exact awaited.single
      · rw [same]
        exact awaited.current
    · exact awaited.elsewhere here _

/-- A program has registered for good, and its record is as far as it can be. -/
structure Fresh (start : H → Node) (keys : H → String) (h : H) (s : State H) : Prop where
  registered : (s.program h).main ≠ .created ∧ s.posted h .register = 0
  shown : ∀ info ∈ s.records start h, Shown (s.program h) (s.posted h .update) (keys h) info

/-- A step that changes neither the node nor its record. -/
theorem Fresh.kept {h : H} (fresh : Fresh start keys h s) (node : (s'.program h).node = (s.program h).node)
    (mover : (s'.program h).mover = (s.program h).mover) (main : (s'.program h).main ≠ .created)
    (register : s'.posted h .register ≤ s.posted h .register) (update : s.posted h .update ≤ s'.posted h .update)
    (records : ∀ info ∈ s'.records start h, info ∈ s.records start h) : Fresh start keys h s' where
  registered := ⟨main, Nat.le_zero.mp (register.trans fresh.registered.2.le)⟩
  shown info member := (fresh.shown info (records info member)).kept node mover update

theorem Fresh.elsewhere {h h₀ : H} (fresh : Fresh start keys h s) (other : h ≠ h₀) (p : Program) :
    Fresh start keys h (s.set h₀ p) := by
  have after : (s.set h₀ p).program h = s.program h := (set_program s h₀ h p).trans (if_neg other)
  refine ⟨⟨after ▸ fresh.registered.1, fresh.registered.2⟩, ?_⟩
  rw [after]
  exact fresh.shown

/-- A step inside a program that posts nothing and does not return from an update. -/
theorem Fresh.inside {h h₀ : H} {p : Program} {label : Label} (fresh : Fresh start keys h s)
    (inside : (s.program h₀).Step lib label p) (post : ∀ body, label ≠ .post .update body)
    (resume : label ≠ .resume .update) : Fresh start keys h (s.set h₀ p) := by
  by_cases here : h = h₀
  · subst here
    have after : (s.set h p).program h = p := set_program_self s h p
    refine ⟨⟨?_, fresh.registered.2⟩, fun info member => ?_⟩
    · rw [after]
      exact fun created => fresh.registered.1 (inside.created created).1
    · rw [after]
      exact (fresh.shown info member).turn inside post resume
  · exact fresh.elsewhere here p

/-- The call of an update returns after the update was handled. -/
theorem Fresh.updated {h : H} {p : Program} (fresh : Fresh start keys h s)
    (inside : (s.program h).Step lib (.resume .update) p) (none : s.posted h .update = 0) :
    Fresh start keys h (s.set h p) := by
  have after : (s.set h p).program h = p := set_program_self s h p
  refine ⟨⟨?_, fresh.registered.2⟩, fun info member => ?_⟩
  · rw [after]
    exact fun created => fresh.registered.1 (inside.created created).1
  · have shown := fresh.shown info member
    rw [none] at shown
    rw [after]
    exact shown.updated inside

/-- The registry takes an update of a node that has moved no further. -/
theorem Fresh.of_update {h : H} (ports : ∀ h, INT_MIN ≤ (start h).port ∧ (start h).port ≤ INT_MAX)
    (sound : Sound start keys s) (awaited : Awaited s h)
    (registered : (s.program h).main ≠ .created ∧ s.posted h .register = 0)
    {post : Pending H} {rest : Multiset (Pending H)} {response : String} {nodes : List NodeInfo}
    (split : s.pending = post ::ₘ rest) (readable : Readable lib toStyledString post.body)
    (handled : processRequest lib s.registry (toStyledString post.body) = .ok (response, nodes))
    (single : (s.records start h).length ≤ 1) (caller : post.caller = h) (kind : post.call = .update) :
    Fresh start keys h { s with registry := nodes, pending := rest } := by
  have body := awaited.current post (split ▸ Multiset.mem_cons_self post rest) caller kind
  rw [body] at readable handled
  obtain ⟨n, place⟩ := sound.now h
  have portRange : INT_MIN ≤ (s.program h).node.port ∧ (s.program h).node.port ≤ INT_MAX := by
    rw [place]
    exact ports h
  have name : (s.program h).node.name = (start h).name := by
    rw [place]
    rfl
  have change : nodes = apply NodeInfo.name s.registry (.amend ((s.program h).node.info (s.program h).publicKey)) :=
    (handled_eq readable portRange handled : nodes = apply NodeInfo.name s.registry (Call.change _ _ .update))
  have own_eq : own NodeInfo.name (start h).name nodes =
      amendHead ((s.program h).node.info (keys h)) (s.records start h) := by
    rw [change, own_apply, applyOwn, if_pos (show ((s.program h).node.info _).name = _ from name), sound.key]
    rfl
  have latest : ∀ info ∈ own NodeInfo.name (start h).name nodes, info = (s.program h).node.info (keys h) := by
    intro info member
    rw [own_eq] at member
    cases records : s.records start h with
    | nil =>
      rw [records] at member
      exact absurd member List.not_mem_nil
    | cons first others =>
      rw [records, List.length_cons] at single
      obtain rfl : others = [] := List.length_eq_zero_iff.mp (by omega)
      rw [records] at member
      exact List.mem_singleton.mp member
  have waiting : (s.program h).mover = .waiting := by
    by_contra other
    have none := awaited.none other
    exact Multiset.countP_eq_zero.mp none post (split ▸ Multiset.mem_cons_self post rest) ⟨caller, kind⟩
  refine ⟨⟨registered.1, ?_⟩, fun info member => ?_⟩
  · exact Nat.le_zero.mp ((Nat.le.intro (s.posted_split split h .register).symm).trans registered.2.le)
  · have state : (State.program { s with registry := nodes, pending := rest } h).mover = .waiting := waiting
    unfold Shown
    rw [state]
    exact Or.inl (latest info member)

/-- A request that a program posts. -/
theorem Fresh.post {h h₀ : H} {call : Call} {body : Json} {p : Program} (fresh : Fresh start keys h s)
    (inside : (s.program h₀).Step lib (.post call body) p) :
    Fresh start keys h { s.set h₀ p with pending := ⟨h₀, call, body⟩ ::ₘ s.pending } := by
  have register := posted_cons s h₀ h call .register body p
  have update := posted_cons s h₀ h call .update body p
  have after : State.program { s.set h₀ p with pending := ⟨h₀, call, body⟩ ::ₘ s.pending } h =
    if h = h₀ then p else s.program h := set_program s h₀ h p
  by_cases here : h = h₀
  · subst here
    rw [if_pos rfl] at after
    have main : (State.program { s.set h p with pending := ⟨h, call, body⟩ ::ₘ s.pending } h).main ≠ .created := by
      rw [after]
      exact fun created => fresh.registered.1 (inside.created created).1
    have other : ¬(h = h ∧ call = .register) := by
      rintro ⟨_, rfl⟩
      exact fresh.registered.1 inside.of_register
    rw [if_neg other] at register
    refine ⟨⟨main, register.trans fresh.registered.2⟩, fun info member => ?_⟩
    have shown := fresh.shown info member
    rw [after]
    by_cases posts : call = .update
    · subst posts
      rw [if_pos ⟨rfl, rfl⟩] at update
      exact shown.update inside (by omega)
    · have quiet : ∀ written, Label.post call body ≠ .post .update written := fun written same =>
        posts (Label.post.inj same).1
      rw [if_neg fun both => posts both.2] at update
      exact update ▸ shown.turn inside quiet nofun
  · rw [if_neg here] at after
    have apart : ∀ kind, ¬(h₀ = h ∧ call = kind) := fun kind both => here both.1.symm
    rw [if_neg (apart _)] at register update
    exact fresh.kept (congrArg Program.node after) (congrArg Program.mover after) (after ▸ fresh.registered.1)
      register.le update.ge fun info member => member

/-- The registry takes a request that is no update of the node: its record stays, or goes with the node. -/
theorem Fresh.of_other {h : H} (ports : ∀ h, INT_MIN ≤ (start h).port ∧ (start h).port ≤ INT_MAX)
    (distinct : ∀ h h', (start h).name = (start h').name → h = h') (sound : Sound start keys s)
    (fresh : Fresh start keys h s) {post : Pending H} {rest : Multiset (Pending H)} {response : String}
    {nodes : List NodeInfo} (split : s.pending = post ::ₘ rest) (readable : Readable lib toStyledString post.body)
    (handled : processRequest lib s.registry (toStyledString post.body) = .ok (response, nodes))
    (other : ¬(post.caller = h ∧ post.call = .update)) :
    Fresh start keys h { s with registry := nodes, pending := rest } := by
  obtain ⟨asked, request, rfl⟩ := sound.handled ports split readable handled
  have register := s.posted_split split h .register
  have update := s.posted_split split h .update
  rw [if_neg other] at update
  refine fresh.kept rfl rfl fresh.registered.1 (Nat.le.intro register.symm) update.le fun info member => ?_
  have change : own NodeInfo.name (start h).name
      (apply NodeInfo.name s.registry (post.call.change asked (keys post.caller))) =
    applyOwn NodeInfo.name (start h).name (s.records start h) (post.call.change asked (keys post.caller)) :=
    own_apply _ _ _
  rw [State.records, change] at member
  by_cases caller : post.caller = h
  · cases kind : post.call with
    | register =>
      rw [fresh.registered.2, if_pos ⟨caller, kind⟩] at register
      omega
    | deregister =>
      have name : asked.name = (start h).name := caller ▸ request.glimpse.name
      rw [kind, Call.change, applyOwn, if_pos name] at member
      exact absurd member List.not_mem_nil
    | update => exact absurd ⟨caller, kind⟩ other
  · have apart : asked.name ≠ (start h).name := fun equal =>
      caller (distinct _ _ (request.glimpse.name.symm.trans equal))
    rw [applyOwn_other] at member
    · exact member
    · cases post.call with
      | register => exact apart
      | deregister => exact apart
      | update => exact apart

theorem Fresh.next {h : H} (ports : ∀ h, INT_MIN ≤ (start h).port ∧ (start h).port ≤ INT_MAX)
    (distinct : ∀ h h', (start h).name = (start h').name → h = h') (sound : Sound start keys s)
    (awaited : Awaited s h) (fresh : Fresh start keys h s) (permitted : action.Updates)
    (step : Step lib toStyledString s action s') : Fresh start keys h s' := by
  cases step with
  | run inside => exact fresh.inside inside (fun body => nofun) nofun
  | post inside => exact fresh.post inside
  | @resume h₀ call p inside none =>
    by_cases update : call = .update
    · subst update
      by_cases here : h = h₀
      · subst here
        exact fresh.updated inside (posted_eq_zero none)
      · exact fresh.elsewhere here p
    · exact fresh.inside inside (fun body => nofun) fun same => update (Label.resume.inj same)
  | timeout inside =>
    refine fresh.inside inside (fun body => nofun) ?_
    rintro ⟨⟩
    exact absurd rfl permitted
  | @handle post rest response nodes split readable handled =>
    have once := sound.once h
    rw [if_neg fresh.registered.1] at once
    have single : (s.records start h).length ≤ 1 := (Nat.le_add_right _ _).trans once
    by_cases update : post.caller = h ∧ post.call = .update
    · exact .of_update ports sound awaited fresh.registered split readable handled single update.1 update.2
    · exact fresh.of_other ports distinct sound split readable handled update
  | @lose post rest split =>
    have update := s.posted_split split h .update
    rw [if_neg fun both => permitted both.2] at update
    exact fresh.kept rfl rfl fresh.registered.1 (Nat.le.intro (s.posted_split split h .register).symm) update.le
      fun info member => member
  | @serve h₀ nodes waits readable handled =>
    by_cases here : h = h₀
    · subst here
      have after : (s.set h ((s.program h).serve nodes)).program h = (s.program h).serve nodes :=
        set_program_self s h _
      have main : ((s.set h ((s.program h).serve nodes)).program h).main ≠ .created := by
        rw [after]
        exact fresh.registered.1
      exact fresh.kept (by rw [after]; rfl) (by rw [after]; rfl) main (Nat.le_refl _) (Nat.le_refl _)
        fun info member => member
    · exact fresh.elsewhere here _

theorem Step.handled {h : H} {call : Call} (step : Step lib toStyledString s (.handle h call) s') :
    ∃ post rest response nodes, post.caller = h ∧ post.call = call ∧ s.pending = post ::ₘ rest ∧
      Readable lib toStyledString post.body ∧
      processRequest lib s.registry (toStyledString post.body) = .ok (response, nodes) ∧
      s' = { s with registry := nodes, pending := rest } := by
  generalize same : Action.handle h call = action at step
  cases step with
  | handle split readable handled =>
    cases same
    exact ⟨_, _, _, _, rfl, rfl, split, readable, handled, rfl⟩
  | _ => cases same

end Systems

namespace launch

/-- `sat1` has posted that it has moved; the registry has taken it; and `sat1` is in the middle of the next move. -/
def told : State Bool :=
  { settled.set true (program .registered .none .waiting sat1.updatePosition) with
    pending := {⟨true, .update, nodePayload "update" sat1.updatePosition "key1"⟩} }

def informed : State Bool := { told with registry := [sat1.updatePosition.info "key1"], pending := 0 }

def onward : State Bool := informed.set true (program .registered .none .halfway sat1.updatePosition.moveFirst)

end launch
end Nexus.Fleet
