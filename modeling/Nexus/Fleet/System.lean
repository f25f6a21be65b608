import Nexus.Payload
import Nexus.Transition
import Mathlib.Data.Multiset.Filter

namespace Nexus.Fleet
open Entries NexusRegistryServer NetworkManager

/-- How far the thread of `main` has come. It has `left` when its node is deregistered and it waits for the others. -/
inductive MainPoint
  | created
  | registering
  | registered
  | running
  | failed
  | quitting
  | stopping
  | left
  deriving DecidableEq

/-- `isRunning`, as long as there is a process. -/
def MainPoint.isRunning : MainPoint → Bool
  | failed => false
  | quitting => false
  | stopping => false
  | left => false
  | _ => true

/-- How much of the coordinates `createNodePayload` has copied in the thread of `main`. -/
inductive Copy
  | none
  | first (x : Binary64)
  | both (coords : Binary64 × Binary64)

/-- Where the loop of `positionUpdateThread` is; `checked` is after it has read `isRunning`, and `halfway` and `moved`
are after the first and the second assignment of `updatePosition`. -/
inductive Mover
  | idle
  | checked
  | halfway
  | moved
  | waiting
  deriving DecidableEq

/-- Where the loop of `fetchNodeThread` is, with the list whose text is on its way. -/
inductive Fetcher
  | idle
  | checked
  | waiting
  | answered (nodes : List NodeInfo)
  | fetched

/-- A process of `nexus_main`. -/
structure Program where
  node : Node
  publicKey : String
  manager : NetworkManager
  main : MainPoint
  copy : Copy
  mover : Mover
  fetcher : Fetcher

/-- The requests that change the registry. -/
inductive Call
  | register
  | deregister
  | update
  deriving DecidableEq

def Call.action : Call → String
  | register => "register"
  | deregister => "deregister"
  | update => "update"

/-- What a step of a program does outside of it. -/
inductive Label
  | silent
  | post (call : Call) (body : Json)
  | resume (call : Call)

section Programs
variable (lib : Jsoncpp)

/-- One step of one thread. A coordinate is read or written as a whole, but the threads do not wait for each other
between the coordinates of a node. Otherwise calls of the network manager are atomic, and the last step of a process
that fails to bind is its end. -/
inductive Program.Step (p : Program) : Label → Program → Prop
  | copyFirst (here : p.main = .created ∨ p.main = .quitting) (empty : p.copy = .none) :
      Step p .silent { p with copy := .first p.node.coords.1 }
  | copySecond {x : Binary64} (copied : p.copy = .first x) :
      Step p .silent { p with copy := .both (x, p.node.coords.2) }
  | register {coords : Binary64 × Binary64} {body : Json} (here : p.main = .created) (copied : p.copy = .both coords)
      (payload : createNodePayload "register" { p.node with coords } p.publicKey = .ok body) :
      Step p (.post .register body) { p with main := .registering, copy := .none }
  | registered (here : p.main = .registering) : Step p (.resume .register) { p with main := .registered }
  | bind (here : p.main = .registered) : Step p .silent { p with main := .running }
  | bindFailed (here : p.main = .registered) : Step p .silent { p with main := .failed }
  | quit (here : p.main = .running) : Step p .silent { p with main := .quitting }
  | deregister {coords : Binary64 × Binary64} {body : Json} (here : p.main = .quitting)
      (copied : p.copy = .both coords)
      (payload : createNodePayload "deregister" { p.node with coords } p.publicKey = .ok body) :
      Step p (.post .deregister body) { p with main := .stopping, copy := .none }
  | deregistered (here : p.main = .stopping) : Step p (.resume .deregister) { p with main := .left }
  | checkMover (satellite : p.node.type = .satellite) (here : p.mover = .idle) (runs : p.main.isRunning) :
      Step p .silent { p with mover := .checked }
  | moveFirst (alive : p.main ≠ .failed) (here : p.mover = .checked) :
      Step p .silent { p with node := p.node.moveFirst, mover := .halfway }
  | moveSecond (alive : p.main ≠ .failed) (here : p.mover = .halfway) :
      Step p .silent { p with node := p.node.moveSecond, mover := .moved }
  | update {body : Json} (alive : p.main ≠ .failed) (here : p.mover = .moved)
      (payload : createNodePayload "update" p.node p.publicKey = .ok body) :
      Step p (.post .update body) { p with mover := .waiting }
  | updated (alive : p.main ≠ .failed) (here : p.mover = .waiting) :
      Step p (.resume .update) { p with mover := .idle }
  | checkFetcher (here : p.fetcher = .idle) (runs : p.main = .running) :
      Step p .silent { p with fetcher := .checked }
  | ask (alive : p.main ≠ .failed) (here : p.fetcher = .checked) : Step p .silent { p with fetcher := .waiting }
  | learn {nodes : List NodeInfo} {ids : Nat → String} {manager : NetworkManager} (alive : p.main ≠ .failed)
      (here : p.fetcher = .answered nodes)
      (faithful : ∀ root, nodeListJson nodes = .ok root → lib.parse (lib.writeString root) = some root)
      (read : p.manager.fetchNodesFromRegistry lib ids (getNodeList lib nodes) = .ok manager) :
      Step p .silent { p with manager, fetcher := .fetched }
  | unanswered {transfer : Transfer} {ids : Nat → String} {manager : NetworkManager} (alive : p.main ≠ .failed)
      (here : p.fetcher = .waiting ∨ ∃ nodes, p.fetcher = .answered nodes)
      (garbled : lib.parse (performCurlRequest "" transfer).2 = none)
      (read : p.manager.fetchNodesFromRegistry lib ids (performCurlRequest "" transfer).2 = .ok manager) :
      Step p .silent { p with manager, fetcher := .fetched }
  | route {manager : NetworkManager} (alive : p.main ≠ .failed) (here : p.fetcher = .fetched)
      (computed : p.manager.updateRoutingTable p.node = .ok manager) :
      Step p .silent { p with manager, fetcher := .idle }

end Programs

/-- The program while a list is on its way to it. -/
def Program.serve (p : Program) (nodes : List NodeInfo) : Program := { p with fetcher := .answered nodes }

/-- A request on its way to the registry. -/
structure Pending (H : Type) where
  caller : H
  call : Call
  body : Json

structure State (H : Type) where
  registry : List NodeInfo
  program : H → Program
  pending : Multiset (Pending H)

inductive Action (H : Type)
  | run (h : H)
  | post (h : H) (call : Call)
  | resume (h : H) (call : Call)
  | timeout (h : H) (call : Call)
  | handle (h : H) (call : Call)
  | lose (h : H) (call : Call)
  | serve (h : H)

section Systems
variable {H : Type}

/-- Before the first request. -/
def State.initial (node : H → Node) (publicKey : H → String) : State H where
  registry := []
  program h := ⟨node h, publicKey h, fresh, .created, .none, .idle, .idle⟩
  pending := 0

variable [DecidableEq H]

def State.set (s : State H) (h : H) (p : Program) : State H := { s with program := Function.update s.program h p }

/-- The body is read as it was written, and so are its coordinates. -/
def Readable (lib : Jsoncpp) (toStyledString : Json → String) (body : Json) : Prop :=
  lib.parse (toStyledString body) = some body ∧
    ∀ v, body.member "x" = .ok (.real v) ∨ body.member "y" = .ok (.real v) → Legible lib v

/-- One step of a program, or of a request on its way. A caller goes on when its request is handled or lost, or when it
has waited too long for it. -/
inductive Step (lib : Jsoncpp) (toStyledString : Json → String) (s : State H) : Action H → State H → Prop
  | run {h : H} {p : Program} (inside : (s.program h).Step lib .silent p) :
      Step lib toStyledString s (.run h) (s.set h p)
  | post {h : H} {call : Call} {body : Json} {p : Program} (inside : (s.program h).Step lib (.post call body) p) :
      Step lib toStyledString s (.post h call) { s.set h p with pending := ⟨h, call, body⟩ ::ₘ s.pending }
  | resume {h : H} {call : Call} {p : Program} (inside : (s.program h).Step lib (.resume call) p)
      (none : ∀ post ∈ s.pending, ¬(post.caller = h ∧ post.call = call)) :
      Step lib toStyledString s (.resume h call) (s.set h p)
  | timeout {h : H} {call : Call} {p : Program} (inside : (s.program h).Step lib (.resume call) p) :
      Step lib toStyledString s (.timeout h call) (s.set h p)
  | handle {post : Pending H} {rest : Multiset (Pending H)} {response : String} {nodes : List NodeInfo}
      (split : s.pending = post ::ₘ rest) (readable : Readable lib toStyledString post.body)
      (handled : processRequest lib s.registry (toStyledString post.body) = .ok (response, nodes)) :
      Step lib toStyledString s (.handle post.caller post.call) { s with registry := nodes, pending := rest }
  | lose {post : Pending H} {rest : Multiset (Pending H)} (split : s.pending = post ::ₘ rest) :
      Step lib toStyledString s (.lose post.caller post.call) { s with pending := rest }
  | serve {h : H} {nodes : List NodeInfo} (waits : (s.program h).fetcher = .waiting)
      (readable : lib.parse (toStyledString listPayload) = some listPayload)
      (handled : processRequest lib s.registry (toStyledString listPayload) = .ok (getNodeList lib nodes, nodes)) :
      Step lib toStyledString s (.serve h) (s.set h ((s.program h).serve nodes))

end Systems
end Nexus.Fleet
