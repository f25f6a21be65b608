import Nexus.Fleet.Soundness
import Nexus.Registry.Http

namespace Nexus.Fleet
open Entries Node NexusRegistryServer NetworkManager JsonText

/-- A call of a client, with the connection over which its request comes to the server. -/
structure Submission where
  call : Call
  node : Node
  publicKey : String
  connection : Connection

namespace Submission

def payload (c : Submission) : Json := nodePayload c.call.action c.node c.publicKey

def change (c : Submission) : Change String NodeInfo := c.call.change c.node c.publicKey

/-- The connection carries the request of the call. -/
structure Carried (lib : Jsoncpp) (toStyledString : Json → String) (c : Submission) : Prop where
  body : byteString c.connection.request.body = toStyledString c.payload
  readable : Readable lib toStyledString c.payload
  portRange : INT_MIN ≤ c.node.port ∧ c.node.port ≤ INT_MAX

/-- The transfer of what the call posts ends well, by what libcurl says of it. -/
def Accepted (toStyledString : Json → String) (registryAddress : String) (c : Submission) (transfer : Post → Transfer) :
    Prop :=
  ∃ httpCode received, httpCode < 400 ∧
    transfer ⟨registryAddress ++ "/" ++ c.call.action, toStyledString c.payload⟩ = .done httpCode received

/-- The call returns, and says that it was a success, if it says anything, exactly if its transfer ended well. -/
def Reports (toStyledString : Json → String) (registryAddress : String) (c : Submission) (transfer : Post → Transfer) :
    Prop :=
  match c.call with
  | .register => ∃ success, registerNodeWithRegistry toStyledString registryAddress transfer c.node c.publicKey =
      .ok success ∧ (success ↔ c.Accepted toStyledString registryAddress transfer)
  | .deregister => deregisterNodeWithRegistry toStyledString registryAddress transfer c.node c.publicKey = .ok ()
  | .update => ∃ success, updateNodeInRegistry toStyledString registryAddress transfer c.node c.publicKey =
      .ok success ∧ (success ↔ c.Accepted toStyledString registryAddress transfer)

end Submission

section Runs
variable {lib : Jsoncpp} {toStyledString : Json → String} {c : Submission}

theorem performCurlRequest_iff (transfer : Transfer) :
    (performCurlRequest "" transfer).1 ↔ ∃ httpCode received, httpCode < 400 ∧ transfer = .done httpCode received := by
  cases transfer with
  | notPrepared => exact ⟨nofun, fun ⟨_, _, _, other⟩ => nomatch other⟩
  | failed received => exact ⟨nofun, fun ⟨_, _, _, other⟩ => nomatch other⟩
  | done httpCode received =>
    have code : (performCurlRequest "" (.done httpCode received)).1 = !decide (400 ≤ httpCode) := rfl
    rw [code, Bool.not_eq_true', decide_eq_false_iff_not, not_le]
    constructor
    · exact fun low => ⟨_, _, low, rfl⟩
    · rintro ⟨_, _, low, ⟨⟩⟩
      exact low

theorem Submission.reports (c : Submission) (registryAddress : String) (transfer : Post → Transfer) :
    c.Reports toStyledString registryAddress transfer := by
  have posted : ∀ action, nodePost toStyledString registryAddress action c.node c.publicKey =
      .ok ⟨registryAddress ++ "/" ++ action, toStyledString (nodePayload action c.node c.publicKey)⟩ := by
    intro action
    rw [nodePost, createNodePayload_eq]
    rfl
  unfold Reports Accepted payload
  cases c.call with
  | register =>
    refine ⟨_, ?_, performCurlRequest_iff _⟩
    rw [registerNodeWithRegistry, posted]
    rfl
  | deregister =>
    rw [deregisterNodeWithRegistry, posted]
    rfl
  | update =>
    refine ⟨_, ?_, performCurlRequest_iff _⟩
    rw [updateNodeInRegistry, posted]
    rfl

/-- What the server does with a call, whichever way its request arrives. -/
theorem Submission.Carried.handleClient (carried : c.Carried lib toStyledString) (reads : ReadsObjects lib)
    (nodes : List NodeInfo) :
    ∃ response, NexusRegistryServer.handleClient lib nodes c.connection.chunks =
        .ok (writeToSocket response, if c.connection.Whole then apply NodeInfo.name nodes c.change else nodes) ∧
      (¬c.connection.Whole → response = "\x7b\"error\": \"Invalid JSON format\"\x7d") := by
  by_cases whole : c.connection.Whole
  · obtain ⟨response, answered⟩ := (carried.readable.asks carried.portRange).processRequest nodes
    have same : lib.parse (byteString c.connection.object) = lib.parse (toStyledString c.payload) := by
      rw [← carried.body, c.connection.body, parse_object reads c.connection (List.prefix_refl _)]
    have handled : processRequest lib nodes (byteString c.connection.object) =
        .ok (response, apply NodeInfo.name nodes c.change) := (processRequest_congr same nodes).trans answered
    refine ⟨response, ?_, fun cut => absurd whole cut⟩
    rw [handleClient_whole reads whole, handled, if_pos whole]
    rfl
  · refine ⟨"\x7b\"error\": \"Invalid JSON format\"\x7d", ?_, fun _ => rfl⟩
    rw [handleClient_part reads whole, if_neg whole]

/-- Over connections of any kind the registry ends up with what those calls have made of it whose requests came in one
piece; the others get an error as their answer. A call reports how its transfer ended, not what the answer was. -/
theorem handleClients_calls (lib : Jsoncpp) (toStyledString : Json → String) (reads : ReadsObjects lib)
    (calls : List Submission) (carried : ∀ c ∈ calls, c.Carried lib toStyledString) (nodes : List NodeInfo) :
    (∃ responses, handleClients lib nodes (calls.map fun c => c.connection.chunks) =
        .ok (responses.map writeToSocket,
          applyAll NodeInfo.name nodes ((calls.filter fun c => c.connection.Whole).map Submission.change)) ∧
      List.Forall₂ (fun c response => ¬c.connection.Whole → response = "\x7b\"error\": \"Invalid JSON format\"\x7d")
        calls responses) ∧
      ∀ c ∈ calls, ∀ registryAddress transfer, c.Reports toStyledString registryAddress transfer := by
  refine ⟨?_, fun c _ => c.reports⟩
  induction calls generalizing nodes with
  | nil => exact ⟨[], rfl, .nil⟩
  | cons c calls ih =>
    obtain ⟨here, later⟩ := List.forall_mem_cons.mp carried
    obtain ⟨response, handled, told⟩ := here.handleClient reads nodes
    obtain ⟨responses, rest, others⟩ :=
      ih later (if c.connection.Whole then apply NodeInfo.name nodes c.change else nodes)
    refine ⟨response :: responses, ?_, .cons told others⟩
    have split :
      applyAll NodeInfo.name nodes (((c :: calls).filter fun c => c.connection.Whole).map Submission.change) =
        applyAll NodeInfo.name (if c.connection.Whole then apply NodeInfo.name nodes c.change else nodes)
          ((calls.filter fun c => c.connection.Whole).map Submission.change) := by
      by_cases whole : c.connection.Whole
      · rw [if_pos whole,
          List.filter_cons_of_pos (p := fun c : Submission => decide c.connection.Whole) (decide_eq_true whole)]
        rfl
      · have skip : ¬decide c.connection.Whole = true := fun same => whole (of_decide_eq_true same)
        rw [if_neg whole, List.filter_cons_of_neg (p := fun c : Submission => decide c.connection.Whole) skip]
    rw [split]
    exact bind_eq_ok.mpr ⟨_, handled, bind_eq_ok.mpr ⟨_, rest, rfl⟩⟩

end Runs

namespace launch

/-- A member on a line of its own. -/
theorem member_line {key text later : List Char} {v : JsonValue} {members : List (List Char × JsonValue)}
    (plain : key.all fun c => Unescaped c) (value : Denotes text v) (rest : Members later members) :
    Members (['\n', '\t'] ++ '"' :: (key ++ '"' :: ([' '] ++ ':' :: ([' '] ++ (text ++ ([] ++ ',' :: later))))))
      ((key, v) :: members) :=
  .more (forall_mem_of_all (by decide)) (.of_unescaped (unescaped_of_all plain)) (forall_mem_of_all (by decide))
    (forall_mem_of_all (by decide)) value (forall_mem_of_all rfl) rest

theorem denotes_word {word : List Char} (plain : word.all fun c => Unescaped c) :
    Denotes ('"' :: (word ++ ['"'])) (.string word) :=
  .string (.of_unescaped (unescaped_of_all plain))

theorem denotes_registration :
    ∃ members, Denotes (byteString (ascii registration).dropLast).toList (.object members) := by
  have digit : Digits ['0'] := ⟨List.cons_ne_nil _ _, forall_mem_of_all (by decide)⟩
  have fraction : Digits "080000000000000002".toList := ⟨by decide, forall_mem_of_all (by decide)⟩
  have second : Denotes "0.080000000000000002".toList (.number "0.080000000000000002".toList) :=
    .number ⟨[], ['0'], '.' :: "080000000000000002".toList, [], by decide, by decide, Or.inl rfl,
      Or.inr ⟨_, fraction, rfl⟩, Or.inl rfl⟩
  have digits : Digits "33001".toList := ⟨by decide, forall_mem_of_all (by decide)⟩
  have zero : Denotes "0.0".toList (.number "0.0".toList) :=
    .number ⟨[], ['0'], ['.', '0'], [], by decide, by decide, Or.inl rfl, Or.inr ⟨['0'], digit, rfl⟩, Or.inl rfl⟩
  have port : Denotes "33001".toList (.number "33001".toList) :=
    .number ⟨[], "33001".toList, [], [], by decide, by decide, Or.inr ⟨digits, by decide⟩, Or.inl rfl, Or.inl rfl⟩
  have last : Members (['\n', '\t'] ++ '"' :: (['y'] ++ '"' :: ([' '] ++ ':' :: ([' '] ++
      ("0.080000000000000002".toList ++ ['\n'])))))
      [(['y'], .number "0.080000000000000002".toList)] :=
    .last (forall_mem_of_all (by decide)) (.of_unescaped (unescaped_of_all (by decide))) (forall_mem_of_all (by decide))
      (forall_mem_of_all (by decide)) second (forall_mem_of_all (by decide))
  have inside := @member_line "action".toList _ _ _ _ (by decide) (@denotes_word "register".toList (by decide))
    (@member_line "ip".toList _ _ _ _ (by decide) (@denotes_word "127.0.0.1".toList (by decide))
    (@member_line "name".toList _ _ _ _ (by decide) (@denotes_word "sat1".toList (by decide))
    (@member_line "port".toList _ _ _ _ (by decide) port
    (@member_line "publicKey".toList _ _ _ _ (by decide) (@denotes_word "key1".toList (by decide))
    (@member_line "type".toList _ _ _ _ (by decide) (@denotes_word "Satellite".toList (by decide))
    (@member_line "x".toList _ _ _ _ (by decide) zero last))))))
  obtain ⟨text, members, same, inside⟩ : ∃ text members,
      (byteString (ascii registration).dropLast).toList = '\x7b' :: (text ++ ['\x7d']) ∧ Members text members :=
    ⟨_, _, by decide +kernel, inside⟩
  exact ⟨members, same ▸ .object inside⟩

def registering : HttpRequest where
  requestLine := ascii "POST /register HTTP/1.1"
  headers := [ascii "Host: 127.0.0.1:5001", ascii "Accept: */*", ascii "Content-Type: application/json",
    ascii "Content-Length: 170"]
  body := ascii registration
  plain := by decide +kernel
  sized := ⟨ascii "Content-Length: 170", by decide, ascii "Content-Length", [32], [], by decide +kernel, by decide,
    fun b blank => Or.inl (List.mem_singleton.mp blank)⟩

/-- The registration of `sat1` over a connection that carries it in some chunks. -/
def registrationOver (chunks : List (List UInt8)) (split : chunks.flatten = registering.text) : Submission :=
  ⟨.register, glimpsed, "key1",
    ⟨registering, (ascii registration).dropLast, [10], chunks, by decide +kernel, denotes_registration,
      forall_mem_of_all (by decide), split⟩⟩

def known (text : String) : Option Json :=
  if text = byteString (ascii registration).dropLast then some (nodePayload "register" glimpsed "key1") else none

/-- The library on this request. -/
def reader : Jsoncpp := { lib with parse := fun text => known (trimmed text) }

theorem parse_reader (text : String) : reader.parse text = known (trimmed text) := by
  simp only [reader]

theorem reads : ReadsObjects reader := by
  refine @ReadsObjects.of_trimmed _ known (fun text v found => ?_) parse_reader
  by_cases same : text = byteString (ascii registration).dropLast
  · subst same
    exact denotes_registration
  · rw [known, if_neg same] at found
    cases found

theorem written : toStyledString (nodePayload "register" glimpsed "key1") = registration := by
  simp [toStyledString, nodePayload, Json.member, Json.lookup]

theorem readable_reader : Readable reader toStyledString (nodePayload "register" glimpsed "key1") := by
  have text : trimmed registration = byteString (ascii registration).dropLast := by decide +kernel
  refine ⟨?_, fun v coordinate => ?_⟩
  · rw [written, parse_reader, known, if_pos text]
  · have legible := readable_register.2 v coordinate
    unfold Legible at legible ⊢
    simpa only [reader] using legible

theorem carried (chunks : List (List UInt8)) (split : chunks.flatten = registering.text) :
    (registrationOver chunks split).Carried reader toStyledString where
  body := by
    have bytes : byteString (ascii registration) = registration := by decide +kernel
    have body : (registrationOver chunks split).connection.request.body = ascii registration := by
      simp only [registrationOver, registering]
    have payload : (registrationOver chunks split).payload = nodePayload "register" glimpsed "key1" := rfl
    rw [body, payload, bytes, written]
  readable := by
    unfold registrationOver
    exact readable_reader
  portRange := (by decide : INT_MIN ≤ glimpsed.port ∧ glimpsed.port ≤ INT_MAX)

def inOne : Submission := registrationOver [registering.text] (List.append_nil _)
def inTwo : Submission := registrationOver [registering.head, registering.body] (congrArg _ (List.append_nil _))

/-- Of two registrations the second comes in two pieces, and is lost. -/
theorem handleClients_calls_registered :
    (∃ responses, handleClients reader [] ([inOne, inTwo].map fun c => c.connection.chunks) =
        .ok (responses.map writeToSocket, [glimpsed.registered "key1"]) ∧
      List.Forall₂ (fun c response => ¬c.connection.Whole → response = "\x7b\"error\": \"Invalid JSON format\"\x7d")
        [inOne, inTwo] responses) ∧
      ∀ c ∈ [inOne, inTwo], ∀ registryAddress transfer, c.Reports toStyledString registryAddress transfer := by
  have one : inOne.connection.Whole := by decide +kernel
  have two : ¬inTwo.connection.Whole := by decide +kernel
  have told := handleClients_calls reader toStyledString reads [inOne, inTwo]
    (List.forall_mem_cons.mpr ⟨carried _ _, List.forall_mem_singleton.mpr (carried _ _)⟩) []
  rwa [List.filter_cons_of_pos (p := fun c : Submission => decide c.connection.Whole) (decide_eq_true one),
    List.filter_cons_of_neg (p := fun c : Submission => decide c.connection.Whole) (by simpa using two)] at told

end launch
end Nexus.Fleet
