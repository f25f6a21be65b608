import Nexus.Registry.Requests

namespace Nexus
open Entries

namespace NexusRegistryServer

/-- The name that a request is about. -/
def Request.name? : Request → Option String
  | .alter change => some (changed NodeInfo.name change)
  | .list => none
  | .getPublicKey name => some name

section Frame
variable {nodes nodes' : List NodeInfo} {k : String}

theorem Request.own_apply_other {request : Request} (other : request.name? ≠ some k) (nodes : List NodeInfo) :
    own NodeInfo.name k (request.apply nodes) = own NodeInfo.name k nodes := by
  cases request with
  | alter change =>
    have apart : changed NodeInfo.name change ≠ k := fun equal => other (congrArg some equal)
    exact (own_apply k nodes change).trans (applyOwn_other apart _)
  | list => rfl
  | getPublicKey name => rfl

theorem Request.own_apply_congr {request : Request}
    (same : own NodeInfo.name k nodes = own NodeInfo.name k nodes') :
    own NodeInfo.name k (request.apply nodes) = own NodeInfo.name k (request.apply nodes') := by
  cases request with
  | alter change => exact (own_apply k nodes change).trans (same ▸ (own_apply k nodes' change).symm)
  | list => exact same
  | getPublicKey name => exact same

theorem Request.own_applyAll_congr (requests : List Request)
    (same : own NodeInfo.name k nodes = own NodeInfo.name k nodes') :
    own NodeInfo.name k (Request.applyAll nodes requests) =
      own NodeInfo.name k (Request.applyAll nodes' requests) := by
  induction requests generalizing nodes nodes' with
  | nil => exact same
  | cons request requests ih => exact ih (Request.own_apply_congr same)

/-- The response about a name depends on the entries of that name alone. -/
theorem Request.response_congr {lib : Jsoncpp} {request : Request} (about : request.name? = some k)
    (same : own NodeInfo.name k nodes = own NodeInfo.name k nodes') :
    request.response lib nodes = request.response lib nodes' := by
  cases request with
  | alter change =>
    cases change with
    | put node => rfl
    | amend node => rfl
    | drop name => rfl
  | list => cases about
  | getPublicKey name =>
    have name_eq : name = k := Option.some.inj about
    simp only [Request.response, findNodeByName_eq, name_eq, same]

theorem Request.own_apply_comm {request request' : Request} (different : request.name? ≠ request'.name?)
    (k : String) (nodes : List NodeInfo) :
    own NodeInfo.name k (request'.apply (request.apply nodes)) =
      own NodeInfo.name k (request.apply (request'.apply nodes)) := by
  by_cases here : request.name? = some k
  · have other : request'.name? ≠ some k := fun equal => different (here.trans equal.symm)
    rw [own_apply_other other]
    exact own_apply_congr (own_apply_other other nodes).symm
  · rw [own_apply_other here]
    exact own_apply_congr (own_apply_other here nodes)

end Frame

/-- Requests about different names get the same responses in either order and leave every name the same entries,
and no request that follows tells the two orders apart when it looks for a node. -/
theorem processAll_comm (lib : Jsoncpp) (nodes : List NodeInfo) (text text' : String) (request request' : Request)
    (name name' : String) (formed : WellFormed lib text request) (formed' : WellFormed lib text' request')
    (about : request.name? = some name) (about' : request'.name? = some name') (different : name ≠ name') :
    ∃ response response' after after',
      processAll lib nodes [text, text'] = .ok ([response, response'], after) ∧
      processAll lib nodes [text', text] = .ok ([response', response], after') ∧
      (∀ k, own NodeInfo.name k after = own NodeInfo.name k after') ∧ after.Perm after' ∧
      ∀ texts requests, List.Forall₂ (WellFormed lib) texts requests →
        ∃ responses responses' later later', processAll lib after texts = .ok (responses, later) ∧
          processAll lib after' texts = .ok (responses', later') ∧
          ∀ k, findNodeByName later k = findNodeByName later' k := by
  have apart : request.name? ≠ request'.name? := by
    rw [about, about']
    exact fun equal => different (Option.some.inj equal)
  have other : request.name? ≠ some name' := about' ▸ apart
  have other' : request'.name? ≠ some name := about ▸ apart.symm
  have same : ∀ k, own NodeInfo.name k (request'.apply (request.apply nodes)) =
      own NodeInfo.name k (request.apply (request'.apply nodes)) := fun k => Request.own_apply_comm apart k nodes
  have second : request'.response lib (request.apply nodes) = request'.response lib nodes :=
    Request.response_congr about' (Request.own_apply_other other nodes)
  have second' : request.response lib (request'.apply nodes) = request.response lib nodes :=
    Request.response_congr about (Request.own_apply_other other' nodes)
  refine ⟨request.response lib nodes, request'.response lib nodes, _, _, ?_, ?_, same, perm_of_own same, ?_⟩
  · rw [← second]
    exact bind_eq_ok.mpr ⟨_, formed.processRequest nodes,
      bind_eq_ok.mpr ⟨_, bind_eq_ok.mpr ⟨_, formed'.processRequest _, rfl⟩, rfl⟩⟩
  · rw [← second']
    exact bind_eq_ok.mpr ⟨_, formed'.processRequest nodes,
      bind_eq_ok.mpr ⟨_, bind_eq_ok.mpr ⟨_, formed.processRequest _, rfl⟩, rfl⟩⟩
  · intro texts requests follow
    obtain ⟨responses, run⟩ := processAll_formed follow (request'.apply (request.apply nodes))
    obtain ⟨responses', run'⟩ := processAll_formed follow (request.apply (request'.apply nodes))
    refine ⟨responses, responses', _, _, run, run', fun k => ?_⟩
    rw [findNodeByName_eq, findNodeByName_eq, Request.own_applyAll_congr requests (same k)]

namespace neighbours

/-- The library on a request of either of two nodes. -/
def lib : Jsoncpp where
  parse text :=
    if text = "\x7b\"action\":\"deregister\",\"name\":\"sat1\"\x7d" then
      some (.object [("action", .string "deregister"), ("name", .string "sat1")])
    else if text = "\x7b\"action\":\"getPublicKey\",\"name\":\"sat2\"\x7d" then
      some (.object [("action", .string "getPublicKey"), ("name", .string "sat2")])
    else none
  writeString _ := "null\n"
  realToString _ := "0.0"

/-- One node leaves while the key of another is asked for. -/
theorem processAll_comm_leaving :
    ∃ response response' after after',
      processAll lib [restart.node 33001]
          ["\x7b\"action\":\"deregister\",\"name\":\"sat1\"\x7d", "\x7b\"action\":\"getPublicKey\",\"name\":\"sat2\"\x7d"] =
        .ok ([response, response'], after) ∧
      processAll lib [restart.node 33001]
          ["\x7b\"action\":\"getPublicKey\",\"name\":\"sat2\"\x7d", "\x7b\"action\":\"deregister\",\"name\":\"sat1\"\x7d"] =
        .ok ([response', response], after') ∧
      (∀ k, own NodeInfo.name k after = own NodeInfo.name k after') ∧ after.Perm after' ∧
      ∀ texts requests, List.Forall₂ (WellFormed lib) texts requests →
        ∃ responses responses' later later', processAll lib after texts = .ok (responses, later) ∧
          processAll lib after' texts = .ok (responses', later') ∧
          ∀ k, findNodeByName later k = findNodeByName later' k := by
  have parsed : lib.parse "\x7b\"action\":\"deregister\",\"name\":\"sat1\"\x7d" =
    some (.object [("action", .string "deregister"), ("name", .string "sat1")]) := rfl
  have parsed' : lib.parse "\x7b\"action\":\"getPublicKey\",\"name\":\"sat2\"\x7d" =
    some (.object [("action", .string "getPublicKey"), ("name", .string "sat2")]) := rfl
  exact processAll_comm lib _ _ _ (.alter (.drop "sat1")) (.getPublicKey "sat2") "sat1" "sat2"
    (.alter (.deregister parsed (by decide) (by decide))) (.getPublicKey parsed' (by decide) (by decide))
    rfl rfl (by decide)

end neighbours
end NexusRegistryServer
end Nexus
