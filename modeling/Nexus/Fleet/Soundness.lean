import Nexus.Fleet.System
import Nexus.Routing.Ranges

namespace Nexus.Fleet
open Entries NexusRegistryServer NetworkManager Transition

section Programs
variable {lib : Jsoncpp} {p p' : Program} {label : Label}

theorem Program.Step.publicKey (step : p.Step lib label p') : p'.publicKey = p.publicKey := by
  cases step <;> rfl

/-- A node only ever moves, one coordinate after the other. -/
theorem Program.Step.node (step : p.Step lib label p') :
    (p'.node = p.node ∧ (p'.mover = .halfway ↔ p.mover = .halfway)) ∨
      (p'.node = p.node.moveFirst ∧ p.mover = .checked ∧ p'.mover = .halfway) ∨
      (p'.node = p.node.moveSecond ∧ p.mover = .halfway ∧ p'.mover = .moved) := by
  cases step with
  | checkMover satellite here runs => exact Or.inl ⟨rfl, by simp [here]⟩
  | moveFirst alive here => exact Or.inr (Or.inl ⟨rfl, here, rfl⟩)
  | moveSecond alive here => exact Or.inr (Or.inr ⟨rfl, here, rfl⟩)
  | update alive here payload => exact Or.inl ⟨rfl, by simp [here]⟩
  | updated alive here => exact Or.inl ⟨rfl, by simp [here]⟩
  | _ => exact Or.inl ⟨rfl, Iff.rfl⟩

/-- What `main` has copied it has read from the node, the first coordinate before the second. -/
theorem Program.Step.copy (step : p.Step lib label p') :
    p'.copy = p.copy ∨ p'.copy = .none ∨ (p'.copy = .first p.node.coords.1 ∧ p'.node = p.node) ∨
      ∃ x, p.copy = .first x ∧ p'.copy = .both (x, p.node.coords.2) := by
  cases step with
  | copyFirst here empty => exact Or.inr (Or.inr (Or.inl ⟨rfl, rfl⟩))
  | copySecond copied => exact Or.inr (Or.inr (Or.inr ⟨_, copied, rfl⟩))
  | register here copied payload => exact Or.inr (Or.inl rfl)
  | deregister here copied payload => exact Or.inr (Or.inl rfl)
  | _ => exact Or.inl rfl

/-- An update says where the node is; the other requests say what was copied. -/
theorem Program.Step.posted {call : Call} {body : Json} (step : p.Step lib (.post call body) p') :
    (call = .update ∧ p.mover = .moved ∧ body = nodePayload call.action p.node p.publicKey) ∨
      (call ≠ .update ∧ ∃ coords, p.copy = .both coords ∧
        body = nodePayload call.action { p.node with coords } p.publicKey) := by
  cases step with
  | register here copied payload => exact Or.inr ⟨by decide, _, copied, (Except.ok.inj payload).symm⟩
  | deregister here copied payload => exact Or.inr ⟨by decide, _, copied, (Except.ok.inj payload).symm⟩
  | update alive here payload => exact Or.inl ⟨rfl, here, (Except.ok.inj payload).symm⟩

/-- A program registers once. -/
theorem Program.Step.created (step : p.Step lib label p') (h : p'.main = .created) :
    p.main = .created ∧ ∀ body, label ≠ .post .register body := by
  cases step with
  | register here copied payload => cases h
  | registered here => cases h
  | bind here => cases h
  | bindFailed here => cases h
  | quit here => cases h
  | deregister here copied payload => cases h
  | deregistered here => cases h
  | _ => exact ⟨h, fun body => nofun⟩

theorem Program.Step.of_register {body : Json} (step : p.Step lib (.post .register body) p') : p.main = .created := by
  cases step with
  | register here _ _ => exact here

theorem Program.Step.answered {nodes : List NodeInfo} (step : p.Step lib label p')
    (h : p'.fetcher = .answered nodes) : p.fetcher = .answered nodes := by
  cases step with
  | checkFetcher here runs => cases h
  | ask alive here => cases h
  | learn alive here faithful read => cases h
  | unanswered alive here garbled read => cases h
  | route alive here computed => cases h
  | _ => exact h

/-- A program learns of nodes only from the lists that it is sent. -/
theorem Program.Step.manager (step : p.Step lib label p') :
    p'.manager.nodes = p.manager.nodes ∨
      ∃ nodes ids, p.fetcher = .answered nodes ∧
        (∀ root, nodeListJson nodes = .ok root → lib.parse (lib.writeString root) = some root) ∧
        p.manager.fetchNodesFromRegistry lib ids (getNodeList lib nodes) = .ok p'.manager := by
  cases step with
  | learn alive here faithful read => exact Or.inr ⟨_, _, here, faithful, read⟩
  | unanswered alive here garbled read =>
    rw [fetchNodesFromRegistry, garbled] at read
    exact Or.inl (congrArg NetworkManager.nodes (Except.ok.inj read).symm)
  | route alive here computed => exact Or.inl (updateRoutingTable_inRange computed).1
  | _ => exact Or.inl rfl

end Programs

section Changes

/-- What a request of a node, as it was, asks for. -/
def Call.change (past : Node) (publicKey : String) : Call → Change String NodeInfo
  | .register => .put (past.registered publicKey)
  | .deregister => .drop past.name
  | .update => .amend (past.info publicKey)

variable {lib : Jsoncpp} {toStyledString : Json → String} {nodes nodes' : List NodeInfo} {response : String}

theorem Readable.asks {call : Call} {past : Node} {publicKey : String}
    (readable : Readable lib toStyledString (nodePayload call.action past publicKey))
    (portRange : INT_MIN ≤ past.port ∧ past.port ≤ INT_MAX) :
    Asks lib (toStyledString (nodePayload call.action past publicKey)) (call.change past publicKey) := by
  obtain ⟨parsed, legible⟩ := readable
  cases call with
  | register => exact asks_register parsed portRange (legible _ (Or.inl rfl)) (legible _ (Or.inr rfl))
  | deregister => exact asks_deregister parsed
  | update => exact asks_update parsed portRange

theorem handled_eq {call : Call} {past : Node} {publicKey : String}
    (readable : Readable lib toStyledString (nodePayload call.action past publicKey))
    (portRange : INT_MIN ≤ past.port ∧ past.port ≤ INT_MAX)
    (handled : processRequest lib nodes (toStyledString (nodePayload call.action past publicKey)) =
      .ok (response, nodes')) :
    nodes' = apply NodeInfo.name nodes (call.change past publicKey) := by
  obtain ⟨_, answered⟩ := (readable.asks portRange).processRequest nodes
  exact congrArg Prod.snd (Except.ok.inj (handled.symm.trans answered))

/-- How many records of a name a request about it leaves. -/
def Call.count : Call → Nat → Nat
  | register, n => n + 1
  | deregister, _ => 0
  | update, n => n

theorem length_own_change (nodes : List NodeInfo) (call : Call) (past : Node) (publicKey name : String) :
    (own NodeInfo.name name (apply NodeInfo.name nodes (call.change past publicKey))).length =
      if past.name = name then call.count (own NodeInfo.name name nodes).length
      else (own NodeInfo.name name nodes).length := by
  rw [own_apply]
  by_cases same : past.name = name
  · rw [if_pos same]
    cases call with
    | register =>
      rw [Call.change, applyOwn, if_pos (show (past.registered publicKey).name = name from same), List.length_append]
      rfl
    | deregister =>
      rw [Call.change, applyOwn, if_pos same]
      rfl
    | update =>
      rw [Call.change, applyOwn, if_pos (show (past.info publicKey).name = name from same)]
      cases own NodeInfo.name name nodes with
      | nil => rfl
      | cons first rest => rfl
  · rw [if_neg same, applyOwn_other]
    cases call with
    | register => exact same
    | deregister => exact same
    | update => exact same

theorem mem_change {call : Call} {past : Node} {publicKey : String} {info : NodeInfo}
    (member : info ∈ apply NodeInfo.name nodes (call.change past publicKey)) :
    info ∈ nodes ∨ (call = .update ∧ info = past.info publicKey) ∨
      (call = .register ∧ info = past.registered publicKey) := by
  cases call with
  | register =>
    rcases List.mem_append.mp member with old | new
    · exact Or.inl old
    · exact Or.inr (Or.inr ⟨rfl, List.mem_singleton.mp new⟩)
  | deregister => exact Or.inl (List.mem_filter.mp member).1
  | update => exact (mem_amendFirst member).imp_right fun new => Or.inl ⟨rfl, new⟩

end Changes

section Coordinates

/-- The node with its first coordinate as after `n` moves and its second as after `m`. -/
def between (node : Node) (n m : Nat) : Node :=
  { node with coords := ((node.updated n).coords.1, (node.updated m).coords.2) }

theorem between_self (node : Node) (n : Nat) : between node n n = node.updated n :=
  (node.updated_eq n).symm

theorem coords_succ {node : Node} (satellite : node.type = .satellite) (n : Nat) :
    (node.updated (n + 1)).coords =
      (moveCoord stepX (node.updated n).coords.1, moveCoord stepY (node.updated n).coords.2) := by
  have kind : (node.updated n).type = .satellite := by
    rw [Node.updated_eq]
    exact satellite
  rw [Node.updated_succ, Node.updatePosition_satellite kind]

theorem moveFirst_between (node : Node) (n m : Nat) : (between node n m).moveFirst = between node (n + 1) m := by
  by_cases satellite : node.type = .satellite
  · have moved : (between node n m).moveFirst = _ := if_pos satellite
    rw [moved, between, between, coords_succ satellite]
  · have still : (between node n m).moveFirst = between node n m := if_neg satellite
    rw [still]
    simp only [between, Node.updated_of_ne satellite]

theorem moveSecond_between (node : Node) (n m : Nat) : (between node n m).moveSecond = between node n (m + 1) := by
  by_cases satellite : node.type = .satellite
  · have moved : (between node n m).moveSecond = _ := if_pos satellite
    rw [moved, between, between, coords_succ satellite]
  · have still : (between node n m).moveSecond = between node n m := if_neg satellite
    rw [still]
    simp only [between, Node.updated_of_ne satellite]

end Coordinates

section Snapshots
variable {H : Type} (start : H → Node) (keys : H → String)

/-- The node of a program as it is between two moves, or was. -/
def Past (s : State H) (h : H) (past : Node) : Prop :=
  ∃ n i j, past = (start h).updated n ∧ (s.program h).node = between (start h) (n + i) (n + j)

/-- The node of a program with each coordinate as it is or was, but not necessarily both at the same time. -/
def Glimpse (s : State H) (h : H) (seen : Node) : Prop :=
  ∃ n m i j, seen = between (start h) n m ∧ (s.program h).node = between (start h) (n + i) (m + j)

/-- What a request says of its node: an update, which the thread that moves posts, what the node was at one time. -/
structure Asked (s : State H) (h : H) (call : Call) (asked : Node) : Prop where
  glimpse : Glimpse start s h asked
  past : call = .update → Past start s h asked

/-- What `main` has copied of the node. -/
def Copied (s : State H) (h : H) : Copy → Prop
  | .none => True
  | .first x => ∃ n i m, x = ((start h).updated n).coords.1 ∧ (s.program h).node = between (start h) (n + i) m
  | .both coords => Glimpse start s h { start h with coords }

/-- The record of a node as it is or was, or of a glimpse of it, with the coordinates of its registration rounded. -/
def Recorded (s : State H) (h : H) (info : NodeInfo) : Prop :=
  (∃ past, Past start s h past ∧ info = past.info (keys h)) ∨
    ∃ seen, Glimpse start s h seen ∧ info = seen.registered (keys h)

/-- The record of some node. -/
def Snapshot (s : State H) (info : NodeInfo) : Prop := ∃ h, Recorded start keys s h info

variable {start keys} {s : State H}

theorem Past.glimpse {h : H} {past : Node} (before : Past start s h past) : Glimpse start s h past := by
  obtain ⟨n, i, j, rfl, now⟩ := before
  exact ⟨n, n, i, j, (between_self _ n).symm, now⟩

theorem Glimpse.name {h : H} {seen : Node} (glimpse : Glimpse start s h seen) : seen.name = (start h).name := by
  obtain ⟨n, m, _, _, rfl, _⟩ := glimpse
  rfl

theorem Glimpse.port {h : H} {seen : Node} (glimpse : Glimpse start s h seen) : seen.port = (start h).port := by
  obtain ⟨n, m, _, _, rfl, _⟩ := glimpse
  rfl

/-- All records of a program show its type and address. -/
theorem Recorded.view {h : H} {info : NodeInfo} (recorded : Recorded start keys s h info) :
    info.name = (start h).name ∧ info.port = (start h).port ∧
      info.view = { (start h).view with coords := info.coords } := by
  have kind : NodeType.fromString (start h).type.toString = (start h).type := NodeType.fromString_toString _
  rcases recorded with ⟨past, was, rfl⟩ | ⟨seen, glimpse, rfl⟩
  · obtain ⟨n, m, _, _, rfl, _⟩ := was.glimpse
    exact ⟨rfl, rfl, by simp only [NodeInfo.view, Node.info, Node.view, between, kind]⟩
  · obtain ⟨n, m, _, _, rfl, _⟩ := glimpse
    exact ⟨rfl, rfl, by simp only [NodeInfo.view, Node.registered, Node.info, Node.view, between, kind]⟩

theorem Snapshot.host {info : NodeInfo} (snapshot : Snapshot start keys s info) :
    ∃ h, info.name = (start h).name ∧ info.port = (start h).port := by
  obtain ⟨h, recorded⟩ := snapshot
  exact ⟨h, recorded.view.1, recorded.view.2.1⟩

theorem Snapshot.alike (distinct : ∀ h h', (start h).name = (start h').name → h = h') {info info' : NodeInfo}
    (snapshot : Snapshot start keys s info) (snapshot' : Snapshot start keys s info') (same : info.name = info'.name) :
    View.absorb [info.view] info'.view = [info'.view] := by
  obtain ⟨h, recorded⟩ := snapshot
  obtain ⟨h', recorded'⟩ := snapshot'
  obtain ⟨name, _, shown⟩ := recorded.view
  obtain ⟨name', _, shown'⟩ := recorded'.view
  obtain rfl : h = h' := distinct h h' (name.symm.trans (same.trans name'))
  have address : info'.view.sameAddress info.view = true := by
    rw [shown, shown']
    exact decide_eq_true ⟨rfl, rfl⟩
  rw [View.absorb, List.any_cons, address, Bool.true_or, if_pos rfl, View.moveHead, shown, shown']

theorem Snapshot.inRange (ports : ∀ h, INT_MIN ≤ (start h).port ∧ (start h).port ≤ INT_MAX) {nodes : List NodeInfo}
    (snapshots : ∀ info ∈ nodes, Snapshot start keys s info) : PortsInRange nodes := by
  intro info member
  obtain ⟨h, _, port⟩ := (snapshots info member).host
  rw [port]
  exact ports h

end Snapshots

section Systems
variable {H : Type} [DecidableEq H] (start : H → Node) (keys : H → String)

/-- How many requests of a kind a program has on their way. -/
def State.posted (s : State H) (h : H) (call : Call) : Nat :=
  s.pending.countP fun post => post.caller = h ∧ post.call = call

theorem State.posted_split (s : State H) {post : Pending H} {rest : Multiset (Pending H)}
    (split : s.pending = post ::ₘ rest) (h : H) (call : Call) :
    s.posted h call = rest.countP (fun other => other.caller = h ∧ other.call = call) +
      if post.caller = h ∧ post.call = call then 1 else 0 := by
  rw [State.posted, split, Multiset.countP_cons]

/-- Nothing in the system is made up: all records and all that a program knows of others are snapshots, one a name. -/
structure Sound (s : State H) : Prop where
  now : ∀ h, ∃ n, (s.program h).node =
    between (start h) (if (s.program h).mover = .halfway then n + 1 else n) n
  key : ∀ h, (s.program h).publicKey = keys h
  copied : ∀ h, Copied start s h (s.program h).copy
  pending : ∀ post ∈ s.pending, ∃ asked, Asked start s post.caller post.call asked ∧
    post.body = nodePayload post.call.action asked (keys post.caller)
  registry : ∀ info ∈ s.registry, Snapshot start keys s info
  once : ∀ h, (own NodeInfo.name (start h).name s.registry).length + s.posted h .register ≤
    if (s.program h).main = .created then 0 else 1
  answered : ∀ h nodes, (s.program h).fetcher = .answered nodes →
    (∀ info ∈ nodes, Snapshot start keys s info) ∧ ∀ h', (own NodeInfo.name (start h').name nodes).length ≤ 1
  known : ∀ h name, (s.program h).manager.views name = [] ∨
    ∃ info, Snapshot start keys s info ∧ info.name = name ∧ (s.program h).manager.views name = [info.view]

variable {start keys} {lib : Jsoncpp} {toStyledString : Json → String} {s s' : State H} {action : Action H}

theorem set_program (s : State H) (h h' : H) (p : Program) :
    (s.set h p).program h' = if h' = h then p else s.program h' := by
  exact Function.update_apply _ _ _ _

theorem set_program_self (s : State H) (h : H) (p : Program) : (s.set h p).program h = p :=
  Function.update_self _ _ _

theorem set_set (s : State H) (h : H) (p p' : Program) : (s.set h p).set h p' = s.set h p' := by
  simp only [State.set, Function.update_idem]

/-- A step inside a program of a state that is given by its programs. -/
theorem Step.within (s : State H) {h : H} {p p' : Program} (inside : p.Step lib .silent p') :
    Step lib toStyledString (s.set h p) (.run h) (s.set h p') :=
  set_set s h p p' ▸ .run ((set_program_self s h p).symm ▸ inside)

/-- A program takes a step of its own, or is served a list. -/
theorem Step.program (step : Step lib toStyledString s action s') (h : H) :
    s'.program h = s.program h ∨ (∃ label, (s.program h).Step lib label (s'.program h)) ∨
      s'.program h = (s.program h).serve s.registry := by
  have own : ∀ {h₀ label p}, (s.program h₀).Step lib label p →
      (s.set h₀ p).program h = s.program h ∨ ∃ label, (s.program h).Step lib label ((s.set h₀ p).program h) := by
    intro h₀ label p inside
    rw [set_program]
    by_cases same : h = h₀
    · subst same
      rw [if_pos rfl]
      exact Or.inr ⟨label, inside⟩
    · rw [if_neg same]
      exact Or.inl rfl
  cases step with
  | run inside => exact (own inside).imp_right Or.inl
  | post inside => exact (own inside).imp_right Or.inl
  | resume inside none => exact (own inside).imp_right Or.inl
  | timeout inside => exact (own inside).imp_right Or.inl
  | handle split readable handled => exact Or.inl rfl
  | lose split => exact Or.inl rfl
  | @serve h₀ nodes waits readable handled =>
    have answered := (formed_list readable).processRequest s.registry
    have same : s.registry = nodes := congrArg Prod.snd (Except.ok.inj (answered.symm.trans handled))
    rw [set_program, ← same]
    by_cases here : h = h₀
    · rw [if_pos here, here]
      exact Or.inr (Or.inr rfl)
    · rw [if_neg here]
      exact Or.inl rfl

/-- The coordinates of a node go through what moves make of them. -/
theorem Step.advance (step : Step lib toStyledString s action s') {h : H} {n m : Nat}
    (now : (s.program h).node = between (start h) n m) :
    ∃ i j, (s'.program h).node = between (start h) (n + i) (m + j) := by
  rcases step.program h with same | ⟨label, inside⟩ | served
  · exact ⟨0, 0, same ▸ now⟩
  · rcases inside.node with ⟨same, _⟩ | ⟨first, _⟩ | ⟨second, _⟩
    · exact ⟨0, 0, same.trans now⟩
    · exact ⟨1, 0, first.trans (now ▸ moveFirst_between _ n m)⟩
    · exact ⟨0, 1, second.trans (now ▸ moveSecond_between _ n m)⟩
  · exact ⟨0, 0, served ▸ now⟩

theorem Step.publicKey (step : Step lib toStyledString s action s') (h : H) :
    (s'.program h).publicKey = (s.program h).publicKey := by
  rcases step.program h with same | ⟨label, inside⟩ | served
  · exact congrArg Program.publicKey same
  · exact inside.publicKey
  · exact served ▸ rfl

/-- The past grows. -/
theorem Past.step {h : H} {past : Node} (before : Past start s h past) (step : Step lib toStyledString s action s') :
    Past start s' h past := by
  obtain ⟨n, i, j, was, now⟩ := before
  obtain ⟨i', j', later⟩ := step.advance now
  exact ⟨n, i + i', j + j', was, by rw [later, Nat.add_assoc, Nat.add_assoc]⟩

theorem Glimpse.step {h : H} {seen : Node} (glimpse : Glimpse start s h seen)
    (step : Step lib toStyledString s action s') : Glimpse start s' h seen := by
  obtain ⟨n, m, i, j, was, now⟩ := glimpse
  obtain ⟨i', j', later⟩ := step.advance now
  exact ⟨n, m, i + i', j + j', was, by rw [later, Nat.add_assoc, Nat.add_assoc]⟩

theorem Asked.step {h : H} {call : Call} {asked : Node} (before : Asked start s h call asked)
    (step : Step lib toStyledString s action s') : Asked start s' h call asked :=
  ⟨before.glimpse.step step, fun update => (before.past update).step step⟩

theorem Copied.step {h : H} {copy : Copy} (before : Copied start s h copy)
    (step : Step lib toStyledString s action s') : Copied start s' h copy := by
  cases copy with
  | none => trivial
  | first x =>
    obtain ⟨n, i, m, was, now⟩ := before
    obtain ⟨i', j', later⟩ := step.advance now
    exact ⟨n, i + i', m + j', was, by rw [later, Nat.add_assoc]⟩
  | both coords => exact Glimpse.step before step

theorem Recorded.step {h : H} {info : NodeInfo} (before : Recorded start keys s h info)
    (step : Step lib toStyledString s action s') : Recorded start keys s' h info := by
  rcases before with ⟨past, was, record⟩ | ⟨seen, glimpse, record⟩
  · exact Or.inl ⟨past, was.step step, record⟩
  · exact Or.inr ⟨seen, glimpse.step step, record⟩

theorem Snapshot.step {info : NodeInfo} (before : Snapshot start keys s info)
    (step : Step lib toStyledString s action s') : Snapshot start keys s' info := by
  obtain ⟨h, recorded⟩ := before
  exact ⟨h, recorded.step step⟩

theorem Step.posted (step : Step lib toStyledString s action s') {post : Pending H} (member : post ∈ s'.pending) :
    post ∈ s.pending ∨ ∃ p, (s.program post.caller).Step lib (.post post.call post.body) p := by
  cases step with
  | run inside => exact Or.inl member
  | @post h call body p inside =>
    rcases Multiset.mem_cons.mp member with rfl | old
    · exact Or.inr ⟨p, inside⟩
    · exact Or.inl old
  | resume inside none => exact Or.inl member
  | timeout inside => exact Or.inl member
  | handle split readable handled => exact Or.inl (split ▸ Multiset.mem_cons_of_mem member)
  | lose split => exact Or.inl (split ▸ Multiset.mem_cons_of_mem member)
  | serve waits readable handled => exact Or.inl member

section Preservation
variable (ports : ∀ h, INT_MIN ≤ (start h).port ∧ (start h).port ≤ INT_MAX) (sound : Sound start keys s)
include ports sound

/-- The registry makes the change that a node has asked for. -/
theorem Sound.handled {post : Pending H} {rest : Multiset (Pending H)} {response : String} {nodes : List NodeInfo}
    (split : s.pending = post ::ₘ rest) (readable : Readable lib toStyledString post.body)
    (handled : processRequest lib s.registry (toStyledString post.body) = .ok (response, nodes)) :
    ∃ asked, Asked start s post.caller post.call asked ∧
      nodes = apply NodeInfo.name s.registry (post.call.change asked (keys post.caller)) := by
  obtain ⟨asked, request, written⟩ := sound.pending post (split ▸ Multiset.mem_cons_self post rest)
  rw [written] at readable handled
  have portRange : INT_MIN ≤ asked.port ∧ asked.port ≤ INT_MAX := request.glimpse.port ▸ ports post.caller
  exact ⟨asked, request, handled_eq readable portRange handled⟩

omit [DecidableEq H] ports sound in
/-- A request adds at most one record, and that only if it registers its node. -/
theorem Asked.length_le (keys : H → String) (distinct : ∀ h h', (start h).name = (start h').name → h = h')
    {caller : H} {call : Call} {asked : Node} (request : Asked start s caller call asked) (h : H) [Decidable (caller = h ∧ call = .register)] :
    (own NodeInfo.name (start h).name
        (apply NodeInfo.name s.registry (call.change asked (keys caller)))).length ≤
      (own NodeInfo.name (start h).name s.registry).length + if caller = h ∧ call = .register then 1 else 0 := by
  rw [length_own_change]
  by_cases same : asked.name = (start h).name
  · obtain rfl : caller = h := distinct _ _ (request.glimpse.name.symm.trans same)
    rw [if_pos same]
    cases call with
    | register =>
      rw [if_pos ⟨rfl, rfl⟩]
      exact Nat.le_refl _
    | deregister => exact Nat.zero_le _
    | update => exact Nat.le_add_right _ _
  · rw [if_neg same]
    exact Nat.le_add_right _ _

variable (step : Step lib toStyledString s action s')
include step

theorem Sound.registry_next (info : NodeInfo) (member : info ∈ s'.registry) : Snapshot start keys s' info := by
  have old : info ∈ s.registry → Snapshot start keys s' info := fun member => (sound.registry info member).step step
  have whole := step
  cases step with
  | handle split readable handled =>
    obtain ⟨asked, request, rfl⟩ := sound.handled ports split readable handled
    rcases mem_change member with before | ⟨update, record⟩ | ⟨_, record⟩
    · exact old before
    · exact ⟨_, Or.inl ⟨asked, (request.past update).step whole, record⟩⟩
    · exact ⟨_, Or.inr ⟨asked, request.glimpse.step whole, record⟩⟩
  | _ => exact old member

omit ports sound in
theorem Step.created (h : H) (created : (s'.program h).main = .created) : (s.program h).main = .created := by
  rcases step.program h with same | ⟨label, inside⟩ | served
  · exact same ▸ created
  · exact (inside.created created).1
  · rw [served] at created
    exact created

theorem Sound.once_next (distinct : ∀ h h', (start h).name = (start h').name → h = h') (h : H) :
    (own NodeInfo.name (start h).name s'.registry).length + s'.posted h .register ≤
      if (s'.program h).main = .created then 0 else 1 := by
  have before := sound.once h
  have bound : (if (s.program h).main = .created then 0 else 1) ≤
      if (s'.program h).main = .created then 0 else 1 := by
    by_cases created : (s'.program h).main = .created
    · rw [if_pos created, if_pos (step.created h created)]
    · rw [if_neg created]
      split <;> omega
  cases step with
  | run inside => exact before.trans bound
  | @post h₀ call body p inside =>
    by_cases new : h₀ = h ∧ call = .register
    · obtain ⟨rfl, rfl⟩ := new
      rw [if_pos inside.of_register] at before
      have after : (s.set h₀ p).program h₀ = p := set_program_self s h₀ p
      have registering : ¬((s.set h₀ p).program h₀).main = .created := fun created =>
        (inside.created (after ▸ created)).2 body rfl
      have one : State.posted { s.set h₀ p with pending := ⟨h₀, .register, body⟩ ::ₘ s.pending } h₀ .register =
        s.posted h₀ .register + 1 := Multiset.countP_cons_of_pos _ ⟨rfl, rfl⟩
      rw [if_neg registering, one]
      have same : (s.set h₀ p).registry = s.registry := rfl
      rw [same]
      omega
    · have same : State.posted { s.set h₀ p with pending := ⟨h₀, call, body⟩ ::ₘ s.pending } h .register =
        s.posted h .register := Multiset.countP_cons_of_neg _ new
      rw [same]
      exact before.trans bound
  | resume inside none => exact before.trans bound
  | timeout inside => exact before.trans bound
  | @handle post rest response nodes split readable handled =>
    obtain ⟨asked, request, rfl⟩ := sound.handled ports split readable handled
    have added := request.length_le keys distinct h
    have count := s.posted_split split h .register
    have fewer : (own NodeInfo.name (start h).name
          (apply NodeInfo.name s.registry (post.call.change asked (keys post.caller)))).length +
        rest.countP (fun other => other.caller = h ∧ other.call = .register) ≤
          (own NodeInfo.name (start h).name s.registry).length + s.posted h .register := by omega
    exact fewer.trans (before.trans bound)
  | @lose post rest split =>
    have count := s.posted_split split h .register
    have fewer : (own NodeInfo.name (start h).name s.registry).length +
        rest.countP (fun other => other.caller = h ∧ other.call = .register) ≤
          (own NodeInfo.name (start h).name s.registry).length + s.posted h .register := by omega
    exact fewer.trans (before.trans bound)
  | serve waits readable handled => exact before.trans bound

omit ports in
theorem Sound.answered_next (h : H)
    (nodes : List NodeInfo) (sent : (s'.program h).fetcher = .answered nodes) :
    (∀ info ∈ nodes, Snapshot start keys s' info) ∧ ∀ h', (own NodeInfo.name (start h').name nodes).length ≤ 1 := by
  have old : (s.program h).fetcher = .answered nodes →
      (∀ info ∈ nodes, Snapshot start keys s' info) ∧ ∀ h', (own NodeInfo.name (start h').name nodes).length ≤ 1 := by
    intro before
    obtain ⟨snapshots, single⟩ := sound.answered h nodes before
    exact ⟨fun info member => (snapshots info member).step step, single⟩
  rcases step.program h with same | ⟨label, inside⟩ | served
  · exact old (same ▸ sent)
  · exact old (inside.answered sent)
  · rw [served] at sent
    obtain rfl : s.registry = nodes := Fetcher.answered.inj sent
    refine ⟨fun info member => (sound.registry info member).step step, fun h' => ?_⟩
    have single := sound.once h'
    split at single <;> omega

theorem Sound.known_next (distinct : ∀ h h', (start h).name = (start h').name → h = h') (h : H) (name : String) :
    (s'.program h).manager.views name = [] ∨ ∃ info, Snapshot start keys s' info ∧ info.name = name ∧
      (s'.program h).manager.views name = [info.view] := by
  have old : (s'.program h).manager.views name = (s.program h).manager.views name →
      (s'.program h).manager.views name = [] ∨ ∃ info, Snapshot start keys s' info ∧ info.name = name ∧
        (s'.program h).manager.views name = [info.view] := by
    intro same
    rw [same]
    exact (sound.known h name).imp_right fun ⟨info, snapshot, rest⟩ => ⟨info, snapshot.step step, rest⟩
  rcases step.program h with same | ⟨label, inside⟩ | served
  · exact old (by rw [same])
  · rcases inside.manager with same | ⟨nodes, ids, sent, faithful, read⟩
    · exact old (by rw [views, views, same])
    · obtain ⟨snapshots, single⟩ := sound.answered h nodes sent
      obtain ⟨manager, again, learns⟩ := fetchNodesFromRegistry_getNodeList ids (Snapshot.inRange ports snapshots)
        faithful (s.program h).manager
      obtain rfl : manager = (s'.program h).manager := Except.ok.inj (again.symm.trans read)
      have after := learns name
      cases listed : own NodeInfo.name name nodes with
      | nil =>
        rw [listed] at after
        exact old after
      | cons info rest =>
        have member : info ∈ own NodeInfo.name name nodes := listed ▸ List.mem_cons_self
        obtain ⟨among, isName⟩ := List.mem_filter.mp member
        have named : info.name = name := of_decide_eq_true isName
        have snapshot := snapshots info among
        obtain ⟨h', host, _⟩ := snapshot.host
        have one := single h'
        rw [← host, named, listed, List.length_cons] at one
        obtain rfl : rest = [] := List.length_eq_zero_iff.mp (by omega)
        refine Or.inr ⟨info, snapshot.step step, named, ?_⟩
        rw [after, listed]
        rcases sound.known h name with none | ⟨info₀, snapshot₀, named₀, known⟩
        · rw [none]
          rfl
        · rw [known]
          exact snapshot₀.alike distinct snapshot (named₀.trans named.symm)
  · exact old (by rw [served]; rfl)

omit ports in
theorem Sound.now_next (h : H) :
    ∃ n, (s'.program h).node = between (start h) (if (s'.program h).mover = .halfway then n + 1 else n) n := by
  obtain ⟨n, place⟩ := sound.now h
  rcases step.program h with same | ⟨label, inside⟩ | served
  · exact ⟨n, by rw [same, place]⟩
  · rcases inside.node with ⟨same, halfway⟩ | ⟨first, checked, halfway⟩ | ⟨second, halfway, moved⟩
    · exact ⟨n, by rw [same, place]; simp only [halfway]⟩
    · rw [checked, if_neg (by decide)] at place
      exact ⟨n, by rw [first, place, halfway, if_pos rfl, moveFirst_between]⟩
    · rw [halfway, if_pos rfl] at place
      exact ⟨n + 1, by rw [second, place, moved, if_neg (by decide), moveSecond_between]⟩
  · exact ⟨n, by rw [served]; exact place⟩

omit ports in
theorem Sound.copied_next (h : H) : Copied start s' h (s'.program h).copy := by
  have kept := (sound.copied h).step step
  rcases step.program h with same | ⟨label, inside⟩ | served
  · exact same ▸ kept
  · rcases inside.copy with same | none | ⟨first, still⟩ | ⟨x, first, both⟩
    · exact same ▸ kept
    · rw [none]
      trivial
    · obtain ⟨n, place⟩ := sound.now h
      rw [first]
      exact ⟨_, 0, n, by rw [place]; rfl, still.trans place⟩
    · have before := sound.copied h
      rw [first] at before
      obtain ⟨n, i, m, rfl, place⟩ := before
      rw [both]
      have glimpse : Glimpse start s h { start h with coords := (_, (s.program h).node.coords.2) } :=
        ⟨n, m, i, 0, by rw [place]; rfl, place⟩
      exact glimpse.step step
  · rw [served]
    exact kept

omit ports step in
/-- What is posted was seen of the node. -/
theorem Sound.asked_of_post {h : H} {call : Call} {body : Json} {p : Program}
    (inside : (s.program h).Step lib (.post call body) p) :
    ∃ asked, Asked start s h call asked ∧ body = nodePayload call.action asked (keys h) := by
  obtain ⟨n, place⟩ := sound.now h
  rcases inside.posted with ⟨_, moved, written⟩ | ⟨other, coords, copied, written⟩
  · rw [moved, if_neg (by decide)] at place
    have past : Past start s h (s.program h).node := ⟨n, 0, 0, place.trans (between_self _ n), place⟩
    exact ⟨_, ⟨past.glimpse, fun _ => past⟩, sound.key h ▸ written⟩
  · have glimpse := sound.copied h
    rw [copied] at glimpse
    rw [place, sound.key] at written
    exact ⟨_, ⟨glimpse, fun update => absurd update other⟩, written⟩

theorem Sound.next (distinct : ∀ h h', (start h).name = (start h').name → h = h') : Sound start keys s' where
  now := sound.now_next step
  key h := (step.publicKey h).trans (sound.key h)
  copied := sound.copied_next step
  pending post member := by
    rcases step.posted member with old | ⟨p, inside⟩
    · obtain ⟨asked, request, written⟩ := sound.pending post old
      exact ⟨asked, request.step step, written⟩
    · obtain ⟨asked, request, written⟩ := sound.asked_of_post inside
      exact ⟨asked, request.step step, written⟩
  registry := sound.registry_next ports step
  once := sound.once_next ports step distinct
  answered := sound.answered_next step
  known := sound.known_next ports step distinct

end Preservation

theorem sound_initial : Sound start keys (State.initial start keys) where
  now h := ⟨0, rfl⟩
  key h := rfl
  copied h := trivial
  pending post member := (Multiset.notMem_zero post member).elim
  registry info member := absurd member List.not_mem_nil
  once h := Nat.le_refl 0
  answered h nodes sent := by cases sent
  known h name := Or.inl rfl

end Systems

namespace launch

def sat1 : Node := ⟨.satellite, "1", "sat1", "127.0.0.1", 33001, (.finite 0, .finite 0)⟩
def ground1 : Node := ⟨.ground, "2", "ground1", "127.0.0.1", 33002, (.finite 0, .finite 0)⟩

def start : Bool → Node
  | true => sat1
  | false => ground1

def keys : Bool → String
  | true => "key1"
  | false => "key2"

def request (action x y : String) : String :=
  "\x7b\n\t\"action\" : \"" ++ action ++ "\",\n\t\"ip\" : \"127.0.0.1\",\n\t\"name\" : \"sat1\",\n" ++
    "\t\"port\" : 33001,\n\t\"publicKey\" : \"key1\",\n\t\"type\" : \"Satellite\",\n" ++
    "\t\"x\" : " ++ x ++ ",\n\t\"y\" : " ++ y ++ "\n\x7d\n"

def registration : String := request "register" "0.0" "0.080000000000000002"
def move : String := request "update" "0.050000000000000003" "0.080000000000000002"

/-- What `main` sees of `sat1` if it moves in between. -/
def glimpsed : Node := { sat1 with coords := (.finite 0, sat1.updatePosition.coords.2) }

/-- The library on the first requests of `sat1`. -/
def lib : Jsoncpp where
  parse text :=
    if text = registration then some (nodePayload "register" glimpsed "key1")
    else if text = move then some (nodePayload "update" sat1.updatePosition "key1")
    else none
  writeString _ := "null"
  realToString v :=
    if v = .finite 0 then "0.0"
    else if v = sat1.updatePosition.coords.1 then "0.050000000000000003" else "0.080000000000000002"

def toStyledString (payload : Json) : String :=
  match payload.member "action" with
  | .ok (.string "register") => registration
  | _ => move

theorem legible_y : Legible lib sat1.updatePosition.coords.2 := by
  unfold Legible
  decide +kernel

theorem readable_register : Readable lib toStyledString (nodePayload "register" glimpsed "key1") := by
  have written : toStyledString (nodePayload "register" glimpsed "key1") = registration := by
    simp [toStyledString, nodePayload, Json.member, Json.lookup]
  have parsed : lib.parse registration = some (nodePayload "register" glimpsed "key1") := by simp only [lib, reduceIte]
  refine ⟨written ▸ parsed, fun v coordinate => ?_⟩
  rcases coordinate with x | y
  · obtain rfl : Binary64.finite 0 = v := Json.real.inj (Except.ok.inj x)
    have read : stod "0.0" = .ok (.finite 0) := by decide +kernel
    exact read
  · obtain rfl : sat1.updatePosition.coords.2 = v := Json.real.inj (Except.ok.inj y)
    exact legible_y

def program (main : MainPoint) (copy : Copy) (mover : Mover) (node : Node) : Program :=
  ⟨node, "key1", fresh, main, copy, mover, .idle⟩

/-- The system with `sat1` as given. -/
def alone (p : Program) : State Bool := (State.initial start keys).set true p

theorem step_alone {p p' : Program} (inside : p.Step lib .silent p') :
    Step lib toStyledString (alone p) (.run true) (alone p') :=
  .within _ inside

/-- The system when `sat1` has posted its registration, having moved between the copying of its two coordinates, and
when the registry has taken it. -/
def posted : State Bool :=
  { alone (program .registering .none .moved sat1.updatePosition) with
    pending := {⟨true, .register, nodePayload "register" glimpsed "key1"⟩} }

def taken : State Bool := { posted with registry := [glimpsed.registered "key1"], pending := 0 }

theorem run_taken {allowed : Action Bool → Prop} (inside : allowed (.run true)) (post : allowed (.post true .register))
    (handle : allowed (.handle true .register)) :
    Run (Step lib toStyledString) allowed (State.initial start keys) taken := by
  have first : Step lib toStyledString (State.initial start keys) (.run true)
      (alone (program .created (.first (.finite 0)) .idle sat1)) :=
    .run (.copyFirst (Or.inl rfl) rfl)
  have second := step_alone (p := program .created (.first (.finite 0)) .idle sat1) (.checkMover rfl rfl rfl)
  have third := step_alone (p := program .created (.first (.finite 0)) .checked sat1) (.moveFirst nofun rfl)
  have fourth := step_alone (p := program .created (.first (.finite 0)) .halfway sat1.moveFirst)
    (.moveSecond nofun rfl)
  have moves : sat1.moveFirst.moveSecond = sat1.updatePosition := sat1.updatePosition_eq.symm
  rw [program, moves] at fourth
  have fifth := step_alone (p := program .created (.first (.finite 0)) .moved sat1.updatePosition) (.copySecond rfl)
  let copied := program .created (.both (.finite 0, sat1.updatePosition.coords.2)) .moved sat1.updatePosition
  have sixth : Step lib toStyledString (alone copied) (.post true .register) posted := by
    have again : posted = { (alone copied).set true (program .registering .none .moved sat1.updatePosition) with
        pending := ⟨true, .register, nodePayload "register" glimpsed "key1"⟩ ::ₘ 0 } := by
      rw [alone, set_set]
      rfl
    rw [again]
    exact .post ((set_program_self _ true copied).symm ▸ .register rfl rfl rfl)
  have seventh : Step lib toStyledString posted (.handle true .register) taken := by
    obtain ⟨response, answered⟩ := (@Readable.asks _ _ .register _ _ readable_register (by decide)).processRequest []
    have split : posted.pending = ⟨true, .register, nodePayload "register" glimpsed "key1"⟩ ::ₘ 0 := rfl
    exact .handle split readable_register answered
  have copies := Run.step (.step (.step .refl inside first) inside second) inside third
  exact .step (.step (.step (.step copies inside fourth) inside fifth) post sixth) handle seventh

theorem start_distinct : ∀ h h', (start h).name = (start h').name → h = h' := by decide

theorem start_ports : ∀ h, INT_MIN ≤ (start h).port ∧ (start h).port ≤ INT_MAX := by decide

end launch
end Nexus.Fleet
