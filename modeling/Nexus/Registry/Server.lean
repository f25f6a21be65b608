import Nexus.Json
import Nexus.FloatText
import Nexus.Entries

namespace Nexus
open Entries

def roundToTwoDecimalPlaces (value : Binary64) : Binary64 := (value.mul (.finite 100)).round.div (.finite 100)

/-- `std::stod`; what follows the number in the text is left unread. -/
def stod (text : String) : Except Fault Binary64 :=
  match FloatText.strtod text.toList with
  | .value v => .ok v
  | .outOfRange => .error (.thrown "stod")
  | .noConversion => .error (.thrown "stod")

structure NodeInfo where
  type : String
  name : String
  ip : String
  coords : Binary64 × Binary64
  port : Int
  publicKey : String
  deriving DecidableEq

theorem stod_natCast {n : Nat} (small : n < 2 ^ 53) : stod (toString (n : Int)) = .ok (.finite n) := by
  rw [stod, Numeral.toList_toString, FloatText.strtod_decimal small]

theorem roundToTwoDecimalPlaces_natCast {n : Nat} (small : n * 100 < 2 ^ 53) :
    roundToTwoDecimalPlaces (.finite n) = .finite n := by
  have times : (n : ℚ) * 100 = (n * 100 : Nat) := by rw [Nat.cast_mul, Nat.cast_ofNat]
  have nonneg : (0 : ℚ) ≤ (n * 100 : Nat) := Nat.cast_nonneg _
  have whole : ⌊((n * 100 : Nat) : ℚ) + 1 / 2⌋ = (n * 100 : Nat) := by
    rw [Int.floor_natCast_add]
    norm_num
  have back : (((n * 100 : Nat) : ℤ) : ℚ) / 100 = n := by
    rw [Int.cast_natCast, ← times, mul_div_cancel_right₀ _ (by norm_num)]
  rw [roundToTwoDecimalPlaces, Binary64.mul, times, Binary64.ofRat_natCast small, Binary64.round, if_pos nonneg, whole,
    Binary64.div, if_pos (by norm_num), back, Binary64.ofRat_natCast (by omega)]

namespace NexusRegistryServer

def registerNode (nodes : List NodeInfo) (node : NodeInfo) : List NodeInfo := nodes ++ [node]

def deregisterNode (nodes : List NodeInfo) (name : String) : List NodeInfo :=
  nodes.filter fun node => ¬node.name = name

/-- The loop of `updateNode`, which stops at the first node of the name. -/
def updateNode (node : NodeInfo) : List NodeInfo → List NodeInfo
  | [] => []
  | existingNode :: rest =>
    if existingNode.name = node.name then
      { existingNode with
        type := node.type
        ip := node.ip
        coords := node.coords
        port := node.port
        publicKey := node.publicKey } :: rest
    else existingNode :: updateNode node rest

def emptyNode : NodeInfo := ⟨"", "", "", (.finite 0, .finite 0), 0, ""⟩

def findNodeByName (nodes : List NodeInfo) (name : String) : NodeInfo :=
  (nodes.find? fun node => node.name = name).getD emptyNode

/-- The object that `getNodeList` makes of a node. -/
def nodeJson (node : NodeInfo) : Except Fault Json := do
  let n := Json.null
  let n ← n.set "type" (.string node.type)
  let n ← n.set "name" (.string node.name)
  let n ← n.set "ip" (.string node.ip)
  let n ← n.set "port" (.int node.port)
  let n ← n.set "x" (.real node.coords.1)
  let n ← n.set "y" (.real node.coords.2)
  n.set "publicKey" (.string node.publicKey)

def appendNode (root : Json) (node : NodeInfo) : Except Fault Json := do
  let n ← nodeJson node
  root.append n

/-- The value that `getNodeList` writes: null, not an empty array, when there is no node. -/
def nodeListJson (nodes : List NodeInfo) : Except Fault Json := nodes.foldlM appendNode .null

def getNodeList (lib : Jsoncpp) (nodes : List NodeInfo) : String :=
  match nodeListJson nodes with
  | .ok root => lib.writeString root
  | .error _ => "\x7b\x7d"

section Requests
variable (lib : Jsoncpp) (root : Json)

/-- `root[key].asString()`. -/
def stringMember (key : String) : Except Fault String := do
  let v ← root.member key
  v.asString lib

def intMember (key : String) : Except Fault Int := do
  let v ← root.member key
  v.asInt

def doubleMember (key : String) : Except Fault Binary64 := do
  let v ← root.member key
  v.asDouble

/-- The node of a register request. -/
def registeredNode : Except Fault NodeInfo := do
  let x ← stod (← stringMember lib root "x")
  let y ← stod (← stringMember lib root "y")
  let coords := (roundToTwoDecimalPlaces x, roundToTwoDecimalPlaces y)
  let type ← stringMember lib root "type"
  let name ← stringMember lib root "name"
  let ip ← stringMember lib root "ip"
  let port ← intMember root "port"
  let publicKey ← stringMember lib root "publicKey"
  pure ⟨type, name, ip, coords, port, publicKey⟩

/-- The node of an update request. -/
def updatedNode : Except Fault NodeInfo := do
  let type ← stringMember lib root "type"
  let name ← stringMember lib root "name"
  let ip ← stringMember lib root "ip"
  let x ← doubleMember root "x"
  let y ← doubleMember root "y"
  let port ← intMember root "port"
  let publicKey ← stringMember lib root "publicKey"
  pure ⟨type, name, ip, (x, y), port, publicKey⟩

/-- Registering and updating store an integer coordinate alike. -/
theorem coordinate_natCast {key : String} {n : Nat} (present : root.member key = .ok (.int n))
    (small : n * 100 < 2 ^ 53) :
    (stringMember lib root key >>= stod).map roundToTwoDecimalPlaces = .ok (.finite n) ∧
      doubleMember root key = .ok (.finite n) := by
  have text : stringMember lib root key = .ok (toString (n : Int)) := bind_eq_ok.mpr ⟨_, present, rfl⟩
  have read : (Json.int n).asDouble = .ok (.finite n) := by
    rw [Json.asDouble, Int.cast_natCast, Binary64.ofRat_natCast (by omega)]
  refine ⟨?_, bind_eq_ok.mpr ⟨_, present, read⟩⟩
  have coordinate : stringMember lib root key >>= stod = .ok (.finite n) :=
    bind_eq_ok.mpr ⟨_, text, stod_natCast (by omega)⟩
  rw [coordinate, Except.map, roundToTwoDecimalPlaces_natCast small]

end Requests

/-- The response to a request and the list that it leaves. -/
def processRequest (lib : Jsoncpp) (nodes : List NodeInfo) (request : String) :
    Except Fault (String × List NodeInfo) :=
  match lib.parse request with
  | none => .ok ("\x7b\"error\": \"Invalid JSON format\"\x7d", nodes)
  | some root => do
    let action ← stringMember lib root "action"
    if action = "register" then
      let node ← registeredNode lib root
      pure ("\x7b\"message\": \"Node registered successfully\"\x7d", registerNode nodes node)
    else if action = "deregister" then
      let name ← stringMember lib root "name"
      pure ("\x7b\"message\": \"Node deregistered successfully\"\x7d", deregisterNode nodes name)
    else if action = "list" then
      pure (getNodeList lib nodes, nodes)
    else if action = "update" then
      let node ← updatedNode lib root
      pure ("\x7b\"message\":\"Node updated successfully\"\x7d", updateNode node nodes)
    else if action = "getPublicKey" then
      let nodeName ← stringMember lib root "name"
      let node := findNodeByName nodes nodeName
      if node.publicKey.isEmpty then pure ("\x7b\"error\": \"Node not found\"\x7d", nodes)
      else pure ("\x7b\"publicKey\": \"" ++ node.publicKey ++ "\"\x7d", nodes)
    else pure ("\x7b\"error\": \"Unknown action\"\x7d", nodes)

section Actions
variable {lib : Jsoncpp} {request : String} {root : Json}

theorem processRequest_unparsed (garbled : lib.parse request = none) (nodes : List NodeInfo) :
    processRequest lib nodes request = .ok ("\x7b\"error\": \"Invalid JSON format\"\x7d", nodes) := by
  simp only [processRequest, garbled]

theorem processRequest_fails (parsed : lib.parse request = some root) {fault : Fault}
    (action : stringMember lib root "action" = .error fault) (nodes : List NodeInfo) :
    processRequest lib nodes request = .error fault := by
  simp only [processRequest, parsed, action]
  rfl

theorem processRequest_register (parsed : lib.parse request = some root)
    (action : stringMember lib root "action" = .ok "register") (nodes : List NodeInfo) :
    processRequest lib nodes request = (registeredNode lib root).map fun node =>
      ("\x7b\"message\": \"Node registered successfully\"\x7d", registerNode nodes node) := by
  simp only [processRequest, parsed, action]
  cases registeredNode lib root with
  | ok node => rfl
  | error fault => rfl

theorem processRequest_deregister (parsed : lib.parse request = some root)
    (action : stringMember lib root "action" = .ok "deregister") (nodes : List NodeInfo) :
    processRequest lib nodes request = (stringMember lib root "name").map fun name =>
      ("\x7b\"message\": \"Node deregistered successfully\"\x7d", deregisterNode nodes name) := by
  simp only [processRequest, parsed, action]
  cases stringMember lib root "name" with
  | ok name => rfl
  | error fault => rfl

theorem processRequest_list (parsed : lib.parse request = some root)
    (action : stringMember lib root "action" = .ok "list") (nodes : List NodeInfo) :
    processRequest lib nodes request = .ok (getNodeList lib nodes, nodes) := by
  simp only [processRequest, parsed, action]
  rfl

theorem processRequest_update (parsed : lib.parse request = some root)
    (action : stringMember lib root "action" = .ok "update") (nodes : List NodeInfo) :
    processRequest lib nodes request = (updatedNode lib root).map fun node =>
      ("\x7b\"message\":\"Node updated successfully\"\x7d", updateNode node nodes) := by
  simp only [processRequest, parsed, action]
  cases updatedNode lib root with
  | ok node => rfl
  | error fault => rfl

theorem processRequest_getPublicKey (parsed : lib.parse request = some root)
    (action : stringMember lib root "action" = .ok "getPublicKey") (nodes : List NodeInfo) :
    processRequest lib nodes request = (stringMember lib root "name").map fun nodeName =>
      (if (findNodeByName nodes nodeName).publicKey.isEmpty then "\x7b\"error\": \"Node not found\"\x7d"
        else "\x7b\"publicKey\": \"" ++ (findNodeByName nodes nodeName).publicKey ++ "\"\x7d", nodes) := by
  simp only [processRequest, parsed, action]
  cases stringMember lib root "name" with
  | ok nodeName =>
    by_cases empty : (findNodeByName nodes nodeName).publicKey.isEmpty
    · simp [bind, Except.bind, pure, Except.pure, Except.map, empty]
    · simp [bind, Except.bind, pure, Except.pure, Except.map, empty]
  | error fault => rfl

theorem processRequest_unknown (parsed : lib.parse request = some root) {action : String}
    (read : stringMember lib root "action" = .ok action)
    (unknown : action ∉ ["register", "deregister", "list", "update", "getPublicKey"]) (nodes : List NodeInfo) :
    processRequest lib nodes request = .ok ("\x7b\"error\": \"Unknown action\"\x7d", nodes) := by
  simp only [List.mem_cons, List.not_mem_nil, not_or] at unknown
  obtain ⟨register, deregister, list, update, getPublicKey, _⟩ := unknown
  simp only [processRequest, parsed, read, bind, Except.bind, if_neg register, if_neg deregister, if_neg list,
    if_neg update, if_neg getPublicKey]
  rfl

end Actions

/-- Requests that the server handles one after another, whoever sends them. -/
def processAll (lib : Jsoncpp) (nodes : List NodeInfo) :
    List String → Except Fault (List String × List NodeInfo)
  | [] => .ok ([], nodes)
  | request :: rest => do
    let (response, nodes) ← processRequest lib nodes request
    let (responses, nodes) ← processAll lib nodes rest
    pure (response :: responses, nodes)

end NexusRegistryServer
end Nexus
