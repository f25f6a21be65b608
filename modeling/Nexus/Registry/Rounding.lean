import Nexus.Registry.Arithmetic
import Mathlib.Data.List.Induction

namespace Nexus
open Entries

namespace NexusRegistryServer

/-- What a client says of a node, its coordinates exact. -/
structure Payload where
  type : String
  name : String
  ip : String
  port : Int
  publicKey : String
  x : ℚ
  y : ℚ

/-- The node of a payload with its coordinates stored so. -/
def Payload.node (payload : Payload) (stored : ℚ → ℚ) : NodeInfo :=
  ⟨payload.type, payload.name, payload.ip, (.finite (stored payload.x), .finite (stored payload.y)), payload.port,
    payload.publicKey⟩

/-- A number of a JSON text. -/
inductive Number : Json → ℚ → Prop
  | int (n : Int) : Number (.int n) n
  | real (q : ℚ) : Number (.real (.finite q)) q

structure Carries (lib : Jsoncpp) (root : Json) (payload : Payload) : Prop where
  type : stringMember lib root "type" = .ok payload.type
  name : stringMember lib root "name" = .ok payload.name
  ip : stringMember lib root "ip" = .ok payload.ip
  port : intMember root "port" = .ok payload.port
  publicKey : stringMember lib root "publicKey" = .ok payload.publicKey
  x : ∃ v, root.member "x" = .ok v ∧ Number v payload.x
  y : ∃ v, root.member "y" = .ok v ∧ Number v payload.y

/-- The text is a request for the action with the payload. -/
def Sends (lib : Jsoncpp) (request action : String) (payload : Payload) : Prop :=
  ∃ root, lib.parse request = some root ∧ stringMember lib root "action" = .ok action ∧ Carries lib root payload

/-- A register or update request carries a payload. -/
def Formed (lib : Jsoncpp) (request : String) : Prop :=
  ∀ root, lib.parse request = some root →
    stringMember lib root "action" = .ok "register" ∨ stringMember lib root "action" = .ok "update" →
    ∃ payload, Carries lib root payload

section Payloads
variable {lib : Jsoncpp} {root : Json} {payload : Payload} {request : String}

theorem Number.exact {v : Json} {q : ℚ} (number : Number v q) :
    (Arithmetic.exact lib).ofText v = .ok (.finite q) ∧ (Arithmetic.exact lib).ofNumber v = .ok (.finite q) := by
  cases number with
  | int n => exact ⟨rfl, rfl⟩
  | real q => exact ⟨rfl, rfl⟩

theorem Sends.formed {action : String} (sends : Sends lib request action payload) : Formed lib request := by
  obtain ⟨root, parsed, _, carries⟩ := sends
  intro other reparsed _
  cases parsed.symm.trans reparsed
  exact ⟨payload, carries⟩

theorem Carries.registered (carries : Carries lib root payload) :
    registeredWith (.exact lib) lib root = .ok (payload.node fun q => roundHalfAway (q * 100) / 100) := by
  obtain ⟨vx, memberX, numberX⟩ := carries.x
  obtain ⟨vy, memberY, numberY⟩ := carries.y
  simp only [registeredWith, memberX, memberY, ok_bind, numberX.exact.1, numberY.exact.1, carries.type, carries.name,
    carries.ip, carries.port, carries.publicKey]
  rfl

theorem Carries.updated (carries : Carries lib root payload) :
    updatedWith (.exact lib) lib root = .ok (payload.node id) := by
  obtain ⟨vx, memberX, numberX⟩ := carries.x
  obtain ⟨vy, memberY, numberY⟩ := carries.y
  simp only [updatedWith, memberX, memberY, ok_bind, numberX.exact.2, numberY.exact.2, carries.type, carries.name,
    carries.ip, carries.port, carries.publicKey]
  rfl

theorem Sends.registers (sends : Sends lib request "register" payload) (nodes : List NodeInfo) :
    ∃ response, handle (.exact lib) lib nodes request =
      .ok (response, nodes ++ [payload.node fun q => roundHalfAway (q * 100) / 100]) := by
  obtain ⟨root, parsed, action, carries⟩ := sends
  rw [handle_register parsed action, carries.registered]
  exact ⟨_, rfl⟩

theorem Sends.updates (sends : Sends lib request "update" payload) (nodes : List NodeInfo) :
    ∃ response, handle (.exact lib) lib nodes request =
      .ok (response, amendFirst NodeInfo.name (payload.node id) nodes) := by
  obtain ⟨root, parsed, action, carries⟩ := sends
  rw [handle_update parsed action, carries.updated, ← updateNode_eq]
  exact ⟨_, rfl⟩

end Payloads

/-- Registering the payload creates the entry of its name that updating with it leaves. -/
def StoredAlike (arithmetic : Arithmetic) (lib : Jsoncpp) (nodes : List NodeInfo)
    (registration update name : String) : Prop :=
  ∃ response response' created nodes',
    handle arithmetic lib nodes registration = .ok (response, nodes ++ [created]) ∧
      handle arithmetic lib nodes update = .ok (response', nodes') ∧ own NodeInfo.name name nodes' = [created]

/-- Both coordinates of the payload are multiples of 0.01. -/
def Payload.Rounded (payload : Payload) : Prop := Hundredths payload.x ∧ Hundredths payload.y

theorem Payload.node_rounded_eq_iff (payload : Payload) :
    payload.node id = payload.node (fun q => roundHalfAway (q * 100) / 100) ↔ payload.Rounded := by
  simp only [Payload.node, Payload.Rounded, NodeInfo.mk.injEq, Prod.mk.injEq, Binary64.finite.injEq, id, true_and,
    and_true, eq_comm (a := payload.x), eq_comm (a := payload.y), rounded_eq_iff]

theorem storedAlike_iff_rounded {lib : Jsoncpp} {payload : Payload} {nodes : List NodeInfo}
    {registration update : String} (registers : Sends lib registration "register" payload)
    (updates : Sends lib update "update" payload)
    (single : (own NodeInfo.name payload.name nodes).length = 1) :
    StoredAlike (.exact lib) lib nodes registration update payload.name ↔ payload.Rounded := by
  obtain ⟨response, registered⟩ := registers.registers nodes
  obtain ⟨response', updated⟩ := updates.updates nodes
  obtain ⟨old, alone⟩ := List.length_eq_one_iff.mp single
  have after : own NodeInfo.name payload.name (amendFirst NodeInfo.name (payload.node id) nodes) = [payload.node id] := by
    rw [own_amendFirst, alone]
    exact if_pos rfl
  rw [← payload.node_rounded_eq_iff]
  constructor
  · rintro ⟨_, _, created, nodes', first, second, entry⟩
    rw [registered] at first
    rw [updated] at second
    cases second
    have appended := List.append_cancel_left (congrArg Prod.snd (Except.ok.inj first))
    rw [List.singleton_inj.mp appended]
    exact List.singleton_inj.mp (after.symm.trans entry)
  · intro same
    exact ⟨response, response', _, _, registered, updated, same ▸ after⟩

/-- All stored coordinates are multiples of 0.01. -/
def RoundedEntries (nodes : List NodeInfo) : Prop :=
  ∀ node ∈ nodes, ∃ x y, node.coords = (.finite x, .finite y) ∧ Hundredths x ∧ Hundredths y

/-- In every state that the requests lead through, all stored coordinates are multiples of 0.01. -/
def KeepsRounded (arithmetic : Arithmetic) (lib : Jsoncpp) (history : List String) : Prop :=
  ∀ before, before <+: history → ∀ nodes, handleAll arithmetic lib [] before = .ok nodes → RoundedEntries nodes

/-- Every update of a node that is in the list then gives it multiples of 0.01. -/
def UpdatesRounded (arithmetic : Arithmetic) (lib : Jsoncpp) (history : List String) : Prop :=
  ∀ before request, before ++ [request] <+: history → ∀ nodes payload,
    handleAll arithmetic lib [] before = .ok nodes → Sends lib request "update" payload →
    payload.name ∈ nodes.map NodeInfo.name → payload.Rounded

section Runs
variable {lib : Jsoncpp} {request : String} {nodes nodes' : List NodeInfo} {history : List String}

theorem handleAll_snoc {arithmetic : Arithmetic} {before : List String} :
    handleAll arithmetic lib [] (before ++ [request]) = .ok nodes' ↔
      ∃ nodes response, handleAll arithmetic lib [] before = .ok nodes ∧
        handle arithmetic lib nodes request = .ok (response, nodes') := by
  rw [handleAll, List.foldlM_append, bind_eq_ok]
  constructor
  · rintro ⟨nodes, run, step⟩
    rw [List.foldlM_cons] at step
    obtain ⟨after, step, done⟩ := bind_eq_ok.mp step
    obtain ⟨⟨response, left⟩, step, last⟩ := bind_eq_ok.mp step
    cases done
    cases last
    exact ⟨nodes, response, run, step⟩
  · rintro ⟨nodes, response, run, step⟩
    refine ⟨nodes, run, ?_⟩
    rw [List.foldlM_cons, step]
    rfl

theorem RoundedEntries.node {payload : Payload} {stored : ℚ → ℚ} (rounded : RoundedEntries nodes)
    (member : payload.node stored ∈ nodes) : Hundredths (stored payload.x) ∧ Hundredths (stored payload.y) := by
  obtain ⟨x, y, coords, first, second⟩ := rounded _ member
  cases coords
  exact ⟨first, second⟩

/-- A request keeps the coordinates rounded unless it updates a node with others. -/
theorem RoundedEntries.handle (rounded : RoundedEntries nodes) (formed : Formed lib request) {response : String}
    (answered : handle (.exact lib) lib nodes request = .ok (response, nodes'))
    (updates : ∀ payload, Sends lib request "update" payload → payload.name ∈ nodes.map NodeInfo.name →
      payload.Rounded) : RoundedEntries nodes' := by
  by_cases other : NoCoordinates lib request
  · rw [handle_other other] at answered
    exact fun node member => rounded node (processRequest_other other answered member)
  obtain ⟨root, parsed, either⟩ := exists_coordinates other
  obtain ⟨payload, carries⟩ := formed root parsed either
  rcases either with register | update
  · obtain ⟨_, registered⟩ := Sends.registers ⟨root, parsed, register, carries⟩ nodes
    rw [registered] at answered
    cases answered
    intro node member
    rcases List.mem_append.mp member with old | new
    · exact rounded node old
    · rw [List.mem_singleton.mp new]
      exact ⟨_, _, rfl, rounded_hundredths _, rounded_hundredths _⟩
  · have sends : Sends lib request "update" payload := ⟨root, parsed, update, carries⟩
    obtain ⟨_, updated⟩ := sends.updates nodes
    rw [updated] at answered
    cases answered
    by_cases present : payload.name ∈ nodes.map NodeInfo.name
    · intro node member
      rcases mem_amendFirst member with old | rfl
      · exact rounded node old
      · exact ⟨_, _, rfl, updates payload sends present⟩
    · rwa [amendFirst_absent present]

/-- The coordinates of a run stay rounded exactly as long as its updates of known nodes carry rounded ones. -/
theorem keepsRounded_iff (formed : ∀ request ∈ history, Formed lib request) :
    KeepsRounded (.exact lib) lib history ↔ UpdatesRounded (.exact lib) lib history := by
  constructor
  · intro keeps before request earlier nodes payload run sends present
    obtain ⟨response, updated⟩ := sends.updates nodes
    have rounded := keeps _ earlier _ (handleAll_snoc.mpr ⟨nodes, response, run, updated⟩)
    exact rounded.node (mem_amendFirst_self present)
  · intro updates before
    induction before using List.reverseRecOn with
    | nil =>
      intro _ nodes run
      cases run
      exact fun node member => absurd member List.not_mem_nil
    | append_singleton before request ih =>
      intro earlier nodes' run
      obtain ⟨nodes, response, run, step⟩ := handleAll_snoc.mp run
      have rounded := ih ((List.prefix_append before [request]).trans earlier) nodes run
      have member : request ∈ history := earlier.subset (List.mem_append_right before List.mem_cons_self)
      exact rounded.handle (formed request member) step fun payload sends present =>
        updates before request earlier nodes payload run sends present

end Runs

/-- Registering and updating store a payload alike exactly if its coordinates are multiples of 0.01, and a run keeps
all coordinates so exactly if its updates of known nodes do. -/
theorem storedAlike_iff (lib : Jsoncpp) {payload : Payload} {nodes : List NodeInfo} {registration update : String}
    {history : List String} (registers : Sends lib registration "register" payload)
    (updates : Sends lib update "update" payload) (single : (own NodeInfo.name payload.name nodes).length = 1)
    (formed : ∀ request ∈ history, Formed lib request) :
    (StoredAlike (.exact lib) lib nodes registration update payload.name ↔ payload.Rounded) ∧
      (KeepsRounded (.exact lib) lib history ↔ UpdatesRounded (.exact lib) lib history) :=
  ⟨storedAlike_iff_rounded registers updates single, keepsRounded_iff formed⟩

namespace drifting

def payload (x : ℚ) : Payload := ⟨"Satellite", "sat1", "127.0.0.1", 33001, "key", x, 0⟩

def root (action : String) (x : ℚ) : Json :=
  .object [("action", .string action), ("ip", .string "127.0.0.1"), ("name", .string "sat1"), ("port", .int 33001),
    ("publicKey", .string "key"), ("type", .string "Satellite"), ("x", .real (.finite x)), ("y", .int 0)]

def request (action x : String) : String :=
  "\x7b\"action\":\"" ++ action ++ "\",\"ip\":\"127.0.0.1\",\"name\":\"sat1\",\"port\":33001," ++
    "\"publicKey\":\"key\",\"type\":\"Satellite\",\"x\":" ++ x ++ ",\"y\":0\x7d"

/-- The library on the requests with 0.125 and 0.25. -/
def lib : Jsoncpp where
  parse text :=
    if text = request "register" "0.125" then some (root "register" (1 / 8))
    else if text = request "update" "0.125" then some (root "update" (1 / 8))
    else if text = request "register" "0.25" then some (root "register" (1 / 4))
    else if text = request "update" "0.25" then some (root "update" (1 / 4))
    else none
  writeString _ := "null"
  realToString v := if v = .finite (1 / 8) then "0.125" else "0.25"

theorem carries (action : String) (x : ℚ) : Carries lib (root action x) (payload x) where
  type := rfl
  name := rfl
  ip := rfl
  port := rfl
  publicKey := rfl
  x := ⟨_, rfl, .real x⟩
  y := ⟨_, rfl, .int 0⟩

theorem sends_register_eighth : Sends lib (request "register" "0.125") "register" (payload (1 / 8)) :=
  ⟨_, rfl, rfl, carries "register" (1 / 8)⟩

theorem sends_update_eighth : Sends lib (request "update" "0.125") "update" (payload (1 / 8)) :=
  ⟨_, rfl, rfl, carries "update" (1 / 8)⟩

theorem sends_register_quarter : Sends lib (request "register" "0.25") "register" (payload (1 / 4)) :=
  ⟨_, rfl, rfl, carries "register" (1 / 4)⟩

theorem sends_update_quarter : Sends lib (request "update" "0.25") "update" (payload (1 / 4)) :=
  ⟨_, rfl, rfl, carries "update" (1 / 4)⟩

/-- The entry that registering 0.125 creates. -/
def registered : NodeInfo := (payload (1 / 8)).node fun q => roundHalfAway (q * 100) / 100

/-- A node that is updated with 0.25 is stored as one that registers with it. -/
theorem storedAlike_iff_quarter :
    (StoredAlike (.exact lib) lib [registered] (request "register" "0.25") (request "update" "0.25") "sat1" ↔
        (payload (1 / 4)).Rounded) ∧
      (KeepsRounded (.exact lib) lib [request "register" "0.25", request "update" "0.25"] ↔
        UpdatesRounded (.exact lib) lib [request "register" "0.25", request "update" "0.25"]) := by
  refine storedAlike_iff lib sends_register_quarter sends_update_quarter (by decide) fun text member => ?_
  rcases List.mem_pair.mp member with rfl | rfl
  · exact sends_register_quarter.formed
  · exact sends_update_quarter.formed

theorem not_rounded_eighth : ¬(payload (1 / 8)).Rounded := by
  rintro ⟨⟨k, same⟩, _⟩
  have double : (1 / 8 : ℚ) = k / 100 := same
  have whole : (25 : ℚ) = (2 * k : ℤ) := by
    push_cast
    linarith
  have parity : 25 = 2 * k := by exact_mod_cast whole
  omega

/-- A node that is updated with 0.125 is not stored as one that registers with it, and the list then holds a coordinate
that is no multiple of 0.01. -/
theorem not_storedAlike :
    Sends lib (request "register" "0.125") "register" (payload (1 / 8)) ∧
      Sends lib (request "update" "0.125") "update" (payload (1 / 8)) ∧
      ¬StoredAlike (.exact lib) lib [registered] (request "register" "0.125") (request "update" "0.125") "sat1" ∧
      ¬KeepsRounded (.exact lib) lib [request "register" "0.125", request "update" "0.125"] := by
  refine ⟨sends_register_eighth, sends_update_eighth, fun alike => ?_, fun keeps => ?_⟩
  · exact not_rounded_eighth ((storedAlike_iff_rounded sends_register_eighth sends_update_eighth (by decide)).mp alike)
  · have formed : ∀ text ∈ [request "register" "0.125", request "update" "0.125"], Formed lib text := by
      intro text member
      rcases List.mem_pair.mp member with rfl | rfl
      · exact sends_register_eighth.formed
      · exact sends_update_eighth.formed
    obtain ⟨_, first⟩ := sends_register_eighth.registers []
    have run : handleAll (.exact lib) lib [] ([] ++ [request "register" "0.125"]) = .ok [registered] :=
      handleAll_snoc.mpr ⟨[], _, rfl, first⟩
    exact not_rounded_eighth ((keepsRounded_iff formed).mp keeps _ _ (List.prefix_refl _) _ _ run sends_update_eighth
      (List.mem_singleton.mpr rfl))

end drifting
end NexusRegistryServer
end Nexus
