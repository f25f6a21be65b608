import Nexus.Registry.Server

namespace Nexus
namespace NexusRegistryServer

/-- How the server reads a member of a request. -/
inductive Reading
  | text
  | numeral
  | integer
  | number

/-- The value is of a kind that can be read so. -/
def Reading.Reads (lib : Jsoncpp) (v : Json) : Reading → Prop
  | .text => ∃ s, v.asString lib = .ok s
  | .numeral => ∃ s x, v.asString lib = .ok s ∧ stod s = .ok x
  | .integer => ∃ i, v.asInt = .ok i
  | .number => ∃ x, v.asDouble = .ok x

/-- The members that an action needs. -/
def needed (action : String) : List (String × Reading) :=
  if action = "register" then
    [("x", .numeral), ("y", .numeral), ("type", .text), ("name", .text), ("ip", .text), ("port", .integer),
      ("publicKey", .text)]
  else if action = "deregister" then [("name", .text)]
  else if action = "update" then
    [("type", .text), ("name", .text), ("ip", .text), ("x", .number), ("y", .number), ("port", .integer),
      ("publicKey", .text)]
  else if action = "getPublicKey" then [("name", .text)]
  else []

def Present (lib : Jsoncpp) (members : List (String × Json)) (field : String × Reading) : Prop :=
  ∃ v, Json.lookup field.1 members = some v ∧ field.2.Reads lib v

/-- The body is an object with every member that its action needs, each of a kind that can be read. -/
def Complete (lib : Jsoncpp) (request : String) : Prop :=
  ∃ members action, lib.parse request = some (.object members) ∧
    stringMember lib (.object members) "action" = .ok action ∧
    ∀ field ∈ ("action", .text) :: needed action, Present lib members field

def IsError (response : String) : Prop := "\x7b\"error\": ".toList <+: response.toList

/-- A request is answered, and one that is not complete is answered by an error and changes nothing. -/
def AnswerLaw (lib : Jsoncpp) (nodes : List NodeInfo) (request : String) : Prop :=
  ∃ response nodes', processRequest lib nodes request = .ok (response, nodes') ∧
    (¬Complete lib request → IsError response ∧ nodes' = nodes)

/-- The body is no JSON text, or null, or an object whose action can be read and which names no action, or has all
that its action needs, or asks for the key of no name while no key is stored under the empty name. -/
def Answerable (lib : Jsoncpp) (nodes : List NodeInfo) (request : String) : Prop :=
  match lib.parse request with
  | none => True
  | some .null => True
  | some (.object members) =>
    ∃ action, stringMember lib (.object members) "action" = .ok action ∧
      (Json.lookup "action" members = none ∨ (∀ field ∈ needed action, Present lib members field) ∨
        action = "getPublicKey" ∧ Json.lookup "name" members = none ∧
          ∀ node, (nodes.find? fun node => node.name = "") = some node → node.publicKey = "")
  | some _ => False

section Reading
variable {lib : Jsoncpp} {members : List (String × Json)} {key : String}

theorem Present.stringMember (present : Present lib members (key, .text)) :
    ∃ s, NexusRegistryServer.stringMember lib (.object members) key = .ok s := by
  obtain ⟨v, found, s, read⟩ := present
  exact ⟨s, bind_eq_ok.mpr ⟨v, by rw [Json.member, found, Option.getD_some], read⟩⟩

theorem Present.intMember (present : Present lib members (key, .integer)) :
    ∃ i, NexusRegistryServer.intMember (.object members) key = .ok i := by
  obtain ⟨v, found, i, read⟩ := present
  exact ⟨i, bind_eq_ok.mpr ⟨v, by rw [Json.member, found, Option.getD_some], read⟩⟩

theorem Present.doubleMember (present : Present lib members (key, .number)) :
    ∃ x, NexusRegistryServer.doubleMember (.object members) key = .ok x := by
  obtain ⟨v, found, x, read⟩ := present
  exact ⟨x, bind_eq_ok.mpr ⟨v, by rw [Json.member, found, Option.getD_some], read⟩⟩

theorem Present.coordinate (present : Present lib members (key, .numeral)) :
    ∃ s x, NexusRegistryServer.stringMember lib (.object members) key = .ok s ∧ stod s = .ok x := by
  obtain ⟨v, found, s, x, read, value⟩ := present
  exact ⟨s, x, bind_eq_ok.mpr ⟨v, by rw [Json.member, found, Option.getD_some], read⟩, value⟩

theorem present_text_iff {v : Json} (found : Json.lookup key members = some v) :
    Present lib members (key, .text) ↔
      ∃ s, NexusRegistryServer.stringMember lib (.object members) key = .ok s := by
  refine ⟨Present.stringMember, fun ⟨s, read⟩ => ?_⟩
  obtain ⟨w, member, text⟩ := bind_eq_ok.mp read
  rw [Json.member, found, Option.getD_some] at member
  exact ⟨v, found, s, Except.ok.inj member ▸ text⟩

theorem stringMember_missing (missing : Json.lookup key members = none) :
    stringMember lib (.object members) key = .ok "" :=
  bind_eq_ok.mpr ⟨.null, by rw [Json.member, missing, Option.getD_none], rfl⟩

/-- A register request with all its members gives a node. -/
theorem registeredNode_ok (present : ∀ field ∈ needed "register", Present lib members field) :
    ∃ node, registeredNode lib (.object members) = .ok node := by
  simp only [needed, reduceIte, List.forall_mem_cons] at present
  obtain ⟨x, y, type, name, ip, port, publicKey, _⟩ := present
  obtain ⟨xText, x, xRead, xValue⟩ := x.coordinate
  obtain ⟨yText, y, yRead, yValue⟩ := y.coordinate
  obtain ⟨type, typeRead⟩ := type.stringMember
  obtain ⟨name, nameRead⟩ := name.stringMember
  obtain ⟨ip, ipRead⟩ := ip.stringMember
  obtain ⟨port, portRead⟩ := port.intMember
  obtain ⟨publicKey, publicKeyRead⟩ := publicKey.stringMember
  refine ⟨⟨type, name, ip, (roundToTwoDecimalPlaces x, roundToTwoDecimalPlaces y), port, publicKey⟩, ?_⟩
  rw [registeredNode, xRead, yRead, typeRead, nameRead, ipRead, portRead, publicKeyRead]
  simp only [bind, Except.bind, xValue, yValue]
  rfl

theorem updatedNode_ok (present : ∀ field ∈ needed "update", Present lib members field) :
    ∃ node, updatedNode lib (.object members) = .ok node := by
  simp only [needed, String.reduceEq, reduceIte, List.forall_mem_cons] at present
  obtain ⟨type, name, ip, x, y, port, publicKey, _⟩ := present
  obtain ⟨type, typeRead⟩ := type.stringMember
  obtain ⟨name, nameRead⟩ := name.stringMember
  obtain ⟨ip, ipRead⟩ := ip.stringMember
  obtain ⟨x, xRead⟩ := x.doubleMember
  obtain ⟨y, yRead⟩ := y.doubleMember
  obtain ⟨port, portRead⟩ := port.intMember
  obtain ⟨publicKey, publicKeyRead⟩ := publicKey.stringMember
  refine ⟨⟨type, name, ip, (x, y), port, publicKey⟩, ?_⟩
  rw [updatedNode, typeRead, nameRead, ipRead, xRead, yRead, portRead, publicKeyRead]
  rfl

end Reading

section Errors

theorem not_isError {response : String} (other : response.toList[2]? ≠ some 'e') : ¬IsError response := by
  rintro ⟨rest, same⟩
  rw [← same] at other
  exact other rfl

theorem not_isError_registered : ¬IsError "\x7b\"message\": \"Node registered successfully\"\x7d" :=
  not_isError (by decide)

theorem not_isError_deregistered : ¬IsError "\x7b\"message\": \"Node deregistered successfully\"\x7d" :=
  not_isError (by decide)

theorem not_isError_updated : ¬IsError "\x7b\"message\":\"Node updated successfully\"\x7d" :=
  not_isError (by decide)

theorem not_isError_publicKey (key : String) : ¬IsError ("\x7b\"publicKey\": \"" ++ key ++ "\"\x7d") := by
  apply not_isError
  rw [String.toList_append, String.toList_append]
  simp

end Errors

section Law
variable {lib : Jsoncpp} {nodes : List NodeInfo} {request : String}

/-- A response that is no error is lawful only to a complete request. -/
theorem answerLaw_iff_complete {response : String} {nodes' : List NodeInfo}
    (answered : processRequest lib nodes request = .ok (response, nodes')) (success : ¬IsError response) :
    AnswerLaw lib nodes request ↔ Complete lib request := by
  constructor
  · rintro ⟨response', after, run, law⟩
    by_contra incomplete
    rw [answered] at run
    have same : response = response' := congrArg Prod.fst (Except.ok.inj run)
    exact success (same ▸ (law incomplete).1)
  · intro complete
    exact ⟨response, nodes', answered, fun incomplete => absurd complete incomplete⟩

theorem AnswerLaw.of_error {response : String} (answered : processRequest lib nodes request = .ok (response, nodes))
    (error : IsError response) : AnswerLaw lib nodes request :=
  ⟨response, nodes, answered, fun _ => ⟨error, rfl⟩⟩

theorem not_answerLaw {fault : Fault} (fails : processRequest lib nodes request = .error fault) :
    ¬AnswerLaw lib nodes request := by
  rintro ⟨response, nodes', run, _⟩
  rw [fails] at run
  cases run

/-- A root that has no members ends the server. -/
theorem answerLaw_iff_of_closed {root : Json} {fault : Fault} (parsed : lib.parse request = some root)
    (closed : root.member "action" = .error fault) : AnswerLaw lib nodes request ↔ Answerable lib nodes request := by
  have fails : stringMember lib root "action" = .error fault := by
    rw [stringMember, closed]
    rfl
  refine iff_of_false (not_answerLaw (processRequest_fails parsed fails nodes)) ?_
  cases root with
  | null => cases closed
  | object members => cases closed
  | _ => simp only [Answerable, parsed, not_false_eq_true]

end Law

section Objects
variable {lib : Jsoncpp} {nodes : List NodeInfo} {request action : String} {members : List (String × Json)}

theorem complete_iff (parsed : lib.parse request = some (.object members))
    (read : stringMember lib (.object members) "action" = .ok action) :
    Complete lib request ↔
      Json.lookup "action" members ≠ none ∧ ∀ field ∈ needed action, Present lib members field := by
  constructor
  · rintro ⟨members', action', parsed', read', present⟩
    obtain rfl : members' = members := Json.object.inj (Option.some.inj (parsed'.symm.trans parsed))
    obtain rfl : action' = action := Except.ok.inj (read'.symm.trans read)
    obtain ⟨⟨v, found, _⟩, fields⟩ := List.forall_mem_cons.mp present
    refine ⟨fun missing => ?_, fields⟩
    rw [missing] at found
    cases found
  · rintro ⟨given, fields⟩
    obtain ⟨v, found⟩ := Option.ne_none_iff_exists'.mp given
    refine ⟨members, action, parsed, read, List.forall_mem_cons.mpr ⟨?_, fields⟩⟩
    exact (present_text_iff found).mpr ⟨action, read⟩

theorem answerable_iff (parsed : lib.parse request = some (.object members))
    (read : stringMember lib (.object members) "action" = .ok action)
    (given : Json.lookup "action" members ≠ none) :
    Answerable lib nodes request ↔ (∀ field ∈ needed action, Present lib members field) ∨
      action = "getPublicKey" ∧ Json.lookup "name" members = none ∧
        ∀ node, (nodes.find? fun node => node.name = "") = some node → node.publicKey = "" := by
  simp only [Answerable, parsed, read, Except.ok.injEq, exists_eq_left', given, false_or]

/-- An action that reads its members before it answers with success. -/
theorem answerLaw_iff_of_payload {α : Type} {payload : Except Fault α} {reply : α → String × List NodeInfo}
    (parsed : lib.parse request = some (.object members))
    (read : stringMember lib (.object members) "action" = .ok action)
    (given : Json.lookup "action" members ≠ none) (other : action ≠ "getPublicKey")
    (run : processRequest lib nodes request = payload.map reply) (success : ∀ a, ¬IsError (reply a).1)
    (enough : (∀ field ∈ needed action, Present lib members field) → ∃ a, payload = .ok a) :
    AnswerLaw lib nodes request ↔ Answerable lib nodes request := by
  have either : Answerable lib nodes request ↔ ∀ field ∈ needed action, Present lib members field := by
    rw [answerable_iff parsed read given]
    exact ⟨fun all => all.elim id fun ⟨same, _⟩ => absurd same other, Or.inl⟩
  rw [either]
  cases payload with
  | ok a =>
    rw [answerLaw_iff_complete run (success a), complete_iff parsed read]
    exact ⟨fun complete => complete.2, fun fields => ⟨given, fields⟩⟩
  | error fault =>
    refine ⟨fun law => absurd law (not_answerLaw run), fun fields => ?_⟩
    obtain ⟨a, impossible⟩ := enough fields
    cases impossible

theorem answerLaw_iff_of_nothing (parsed : lib.parse request = some (.object members))
    (read : stringMember lib (.object members) "action" = .ok action)
    (given : Json.lookup "action" members ≠ none) (nothing : needed action = []) {response : String}
    (run : processRequest lib nodes request = .ok (response, nodes)) :
    AnswerLaw lib nodes request ↔ Answerable lib nodes request := by
  have fields : ∀ field ∈ needed action, Present lib members field := by
    rw [nothing]
    exact fun field impossible => absurd impossible List.not_mem_nil
  have complete : Complete lib request := (complete_iff parsed read).mpr ⟨given, fields⟩
  exact iff_of_true ⟨response, nodes, run, fun incomplete => absurd complete incomplete⟩
    ((answerable_iff parsed read given).mpr (Or.inl fields))

/-- No key is found under a name exactly if its first entry has none. -/
theorem publicKey_isEmpty_iff {name : String} :
    (findNodeByName nodes name).publicKey.isEmpty ↔
      ∀ node, (nodes.find? fun node => node.name = name) = some node → node.publicKey = "" := by
  rw [findNodeByName, String.isEmpty_iff]
  cases nodes.find? fun node => node.name = name with
  | none => exact ⟨fun _ _ impossible => (Option.some_ne_none _ impossible.symm).elim, fun _ => rfl⟩
  | some node => exact ⟨fun keyless _ same => Option.some.inj same ▸ keyless, fun all => all node rfl⟩

theorem answerLaw_iff_getPublicKey (parsed : lib.parse request = some (.object members))
    (read : stringMember lib (.object members) "action" = .ok "getPublicKey")
    (given : Json.lookup "action" members ≠ none) :
    AnswerLaw lib nodes request ↔ Answerable lib nodes request := by
  have run := processRequest_getPublicKey parsed read nodes
  have fields : (∀ field ∈ needed "getPublicKey", Present lib members field) ↔
      Present lib members ("name", .text) := by
    simp only [needed, String.reduceEq, reduceIte, List.forall_mem_cons, List.not_mem_nil, false_imp_iff,
      implies_true, and_true]
  rw [answerable_iff parsed read given, fields]
  cases found : Json.lookup "name" members with
  | some v =>
    rw [present_text_iff found]
    cases name : stringMember lib (.object members) "name" with
    | ok nodeName =>
      have complete : Complete lib request :=
        (complete_iff parsed read).mpr ⟨given, fields.mpr ((present_text_iff found).mpr ⟨nodeName, name⟩)⟩
      rw [name] at run
      exact ⟨fun _ => Or.inl ⟨nodeName, rfl⟩, fun _ => ⟨_, _, run, fun incomplete => absurd complete incomplete⟩⟩
    | error fault =>
      rw [name] at run
      refine ⟨fun law => absurd law (not_answerLaw run), ?_⟩
      rintro (⟨nodeName, impossible⟩ | ⟨_, missing, _⟩)
      · cases impossible
      · cases missing
  | none =>
    rw [stringMember_missing found, Except.map] at run
    have absent : ¬Present lib members ("name", .text) := by
      rintro ⟨v, present, _⟩
      rw [found] at present
      cases present
    have incomplete : ¬Complete lib request := fun complete =>
      absent (fields.mp ((complete_iff parsed read).mp complete).2)
    rw [← publicKey_isEmpty_iff]
    by_cases empty : (findNodeByName nodes "").publicKey.isEmpty
    · rw [if_pos empty] at run
      exact ⟨fun _ => Or.inr ⟨rfl, rfl, empty⟩, fun _ => AnswerLaw.of_error run ⟨_, rfl⟩⟩
    · rw [if_neg empty] at run
      rw [answerLaw_iff_complete run (not_isError_publicKey _)]
      exact ⟨fun complete => absurd complete incomplete,
        fun either => either.elim (fun present => absurd present absent) fun ⟨_, _, keyless⟩ => absurd keyless empty⟩

theorem answerLaw_iff_object (parsed : lib.parse request = some (.object members)) :
    AnswerLaw lib nodes request ↔ Answerable lib nodes request := by
  cases read : stringMember lib (.object members) "action" with
  | error fault =>
    refine iff_of_false (not_answerLaw (processRequest_fails parsed read nodes)) ?_
    simp only [Answerable, parsed, read, reduceCtorEq, false_and, exists_const, not_false_eq_true]
  | ok action =>
    by_cases given : Json.lookup "action" members = none
    · have unnamed : "" ∉ ["register", "deregister", "list", "update", "getPublicKey"] := by decide
      refine iff_of_true (AnswerLaw.of_error
        (processRequest_unknown parsed (stringMember_missing given) unnamed nodes) ⟨_, rfl⟩) ?_
      simp only [Answerable, parsed, read, Except.ok.injEq, exists_eq_left', given, true_or]
    · by_cases known : action ∈ ["register", "deregister", "list", "update", "getPublicKey"]
      · simp only [List.mem_cons, List.not_mem_nil, or_false] at known
        rcases known with rfl | rfl | rfl | rfl | rfl
        · exact answerLaw_iff_of_payload parsed read given (by decide) (processRequest_register parsed read nodes)
            (fun _ => not_isError_registered) registeredNode_ok
        · refine answerLaw_iff_of_payload parsed read given (by decide) (processRequest_deregister parsed read nodes)
            (fun _ => not_isError_deregistered) fun present => (present ("name", .text) ?_).stringMember
          exact List.mem_singleton_self _
        · exact answerLaw_iff_of_nothing parsed read given rfl (processRequest_list parsed read nodes)
        · exact answerLaw_iff_of_payload parsed read given (by decide) (processRequest_update parsed read nodes)
            (fun _ => not_isError_updated) updatedNode_ok
        · exact answerLaw_iff_getPublicKey parsed read given
      · simp only [List.mem_cons, List.not_mem_nil, or_false, not_or] at known
        refine answerLaw_iff_of_nothing parsed read given ?_ (processRequest_unknown parsed read ?_ nodes)
        · rw [needed, if_neg known.1, if_neg known.2.1, if_neg known.2.2.2.1, if_neg known.2.2.2.2]
        · simpa only [List.mem_cons, List.not_mem_nil, or_false, not_or] using known

end Objects

/-- A request is answered as it should be exactly if the body is no JSON text, or null, or an object whose action can
be read and which names no action, or has all that its action needs, or asks for the key of no name while no key is
stored under the empty name. -/
theorem answerLaw_iff (lib : Jsoncpp) (nodes : List NodeInfo) (request : String) :
    AnswerLaw lib nodes request ↔ Answerable lib nodes request := by
  cases parsed : lib.parse request with
  | none =>
    have law := AnswerLaw.of_error (processRequest_unparsed parsed nodes) ⟨_, rfl⟩
    simp only [Answerable, parsed, law]
  | some root =>
    cases root with
    | null =>
      have unknown : "" ∉ ["register", "deregister", "list", "update", "getPublicKey"] := by decide
      have law := AnswerLaw.of_error (processRequest_unknown parsed rfl unknown nodes) ⟨_, rfl⟩
      simp only [Answerable, parsed, law]
    | object members => exact answerLaw_iff_object parsed
    | int v => exact answerLaw_iff_of_closed parsed rfl
    | real v => exact answerLaw_iff_of_closed parsed rfl
    | string s => exact answerLaw_iff_of_closed parsed rfl
    | boolean b => exact answerLaw_iff_of_closed parsed rfl
    | array elements => exact answerLaw_iff_of_closed parsed rfl

namespace crash

/-- The library on a body that is no object. -/
def lib : Jsoncpp where
  parse text := if text = "[]" then some (.array []) else none
  writeString _ := "null\n"
  realToString _ := "0.0"

/-- An empty array ends the server. -/
theorem not_answerLaw_array : ¬AnswerLaw lib [] "[]" := by
  have parsed : lib.parse "[]" = some (.array []) := rfl
  exact not_answerLaw (processRequest_fails parsed rfl [])

end crash
end NexusRegistryServer
end Nexus
