import Nexus.JsonText
import Nexus.Client
import Nexus.Registry.Requests

namespace Nexus
open JsonText

namespace NexusRegistryServer

/-- The response with a key. -/
def keyBody (k : String) : String := "\x7b\"publicKey\": \"" ++ k ++ "\"\x7d"

/-- An object whose only member is a key. -/
def keyObject (k : String) : JsonValue := .object [("publicKey".toList, .string k.toList)]

/-- The characters of a key that JSON does not require to be escaped. -/
def Plain (k : String) : Prop := ∀ c ∈ k.toList, Unescaped c

section Text

theorem toList_keyBody (k : String) :
    (keyBody k).toList =
      '\x7b' :: '"' :: ("publicKey".toList ++ '"' :: ':' :: ' ' :: '"' :: (k.toList ++ ['"', '\x7d'])) := by
  show ("\x7b\"publicKey\": \"" ++ k ++ "\"\x7d").toList = _
  simp

/-- A response that denotes its key shows the key as it is. -/
theorem plain_of_document {k : String} (document : Document (keyBody k).toList (keyObject k)) : Plain k := by
  obtain ⟨outer, text, outer', whole, skip, denotes, skip'⟩ := document
  rw [toList_keyBody] at whole
  obtain ⟨before, key, between, lead, value, after, rfl, skipBefore, chars, skipBetween, skipLead, string,
    skipAfter⟩ := denotes.of_object_singleton
  obtain ⟨inside, rfl, keyChars⟩ := string.of_string
  obtain rfl : outer = [] := skip.closed (by decide) whole.symm
  simp only [List.nil_append, List.cons_append, List.append_assoc, List.cons.injEq, true_and] at whole
  obtain rfl : before = [] := skipBefore.closed (by decide) whole.symm
  simp only [List.nil_append, List.cons.injEq, true_and] at whole
  obtain ⟨_, whole⟩ := chars.closed (unescaped_of_all (by decide)) whole.symm
  obtain rfl : between = [] := skipBetween.closed (by decide) whole
  simp only [List.nil_append, List.cons.injEq, true_and] at whole
  cases lead with
  | nil => cases whole
  | cons c more =>
    rw [List.cons_append] at whole
    obtain ⟨_, whole⟩ := List.cons.inj whole
    obtain rfl : more = [] :=
      Blank.closed (fun d member => skipLead d (List.mem_cons_of_mem c member)) (by decide) whole
    -- what is left is as long as the key, so no character of it is escaped
    have size := congrArg List.length whole
    simp only [List.nil_append, List.length_cons, List.length_append, List.length_nil] at size
    exact (keyChars.eq_of_length (by omega)).2

theorem document_of_plain {k : String} (plain : Plain k) : Document (keyBody k).toList (keyObject k) := by
  have blank : Blank [] := fun c impossible => absurd impossible List.not_mem_nil
  have space : Blank [' '] := fun c member => List.mem_singleton.mp member ▸ List.mem_cons_self
  have name : Chars "publicKey".toList "publicKey".toList := .of_unescaped (unescaped_of_all (by decide))
  have inside := Members.last blank name blank space (.string (Chars.of_unescaped plain)) blank
  refine ⟨[], _, [], ?_, blank, .object inside, blank⟩
  rw [toList_keyBody]
  simp only [List.nil_append, List.append_nil, List.cons_append, List.append_assoc]

theorem document_iff (k : String) : Document (keyBody k).toList (keyObject k) ↔ Plain k :=
  ⟨plain_of_document, document_of_plain⟩

end Text

/-- The response is a JSON document with the key as its only member, and a client reads the key from it. -/
def KeyLaw (lib : Jsoncpp) (nodes : List NodeInfo) (request name k : String) : Prop :=
  ∃ body, processRequest lib nodes request = .ok (body, nodes) ∧ Document body.toList (keyObject k) ∧
    NetworkManager.getNodePublicKey lib name body = .ok k

theorem processRequest_keyBody {lib : Jsoncpp} {nodes : List NodeInfo} {request name k : String}
    (formed : WellFormed lib request (.getPublicKey name)) (stored : (findNodeByName nodes name).publicKey = k)
    (some_key : k ≠ "") : processRequest lib nodes request = .ok (keyBody k, nodes) := by
  have filled : ¬(findNodeByName nodes name).publicKey.isEmpty := by
    rw [stored, String.isEmpty_iff]
    exact some_key
  rw [formed.processRequest, Request.response, if_neg filled, stored]
  rfl

/-- The key that a client reads is the registered one, out of a valid document, exactly if no character of it needs
an escape. The library has to read the response only if it is a valid document. -/
theorem keyLaw_iff (lib : Jsoncpp) (nodes : List NodeInfo) (request name k : String)
    (formed : WellFormed lib request (.getPublicKey name)) (stored : (findNodeByName nodes name).publicKey = k)
    (some_key : k ≠ "")
    (reads : Document (keyBody k).toList (keyObject k) →
      lib.parse (keyBody k) = some (.object [("publicKey", .string k)])) :
    KeyLaw lib nodes request name k ↔ Plain k := by
  have answered := processRequest_keyBody formed stored some_key
  rw [← document_iff]
  constructor
  · rintro ⟨body, run, document, _⟩
    obtain rfl : keyBody k = body := congrArg Prod.fst (Except.ok.inj (answered.symm.trans run))
    exact document
  · intro document
    refine ⟨keyBody k, answered, document, ?_⟩
    rw [NetworkManager.getNodePublicKey, reads document]
    rfl

namespace keys

/-- A key in the format that `getPublicKey` of the crypto manager gives it. -/
def pem : String := "-----BEGIN PUBLIC KEY-----\nMCowBQYDK2VwAyEA\n-----END PUBLIC KEY-----\n"

def node (k : String) : NodeInfo := ⟨"Satellite", "sat1", "127.0.0.1", (.finite 0, .finite 0), 33001, k⟩

/-- The library on the question for the key of `sat1` and on a response to it. -/
def lib : Jsoncpp where
  parse text :=
    if text = keyBody "key" then some (.object [("publicKey", .string "key")])
    else if text = restart.request "getPublicKey" 33001 then some (restart.payload "getPublicKey" 33001)
    else none
  writeString _ := "null"
  realToString _ := "0.0"

theorem formed : WellFormed lib (restart.request "getPublicKey" 33001) (.getPublicKey "sat1") := by
  have parsed : lib.parse (restart.request "getPublicKey" 33001) = some (restart.payload "getPublicKey" 33001) := rfl
  exact .getPublicKey parsed (by decide) (by decide)

theorem keyLaw_iff_plain :
    KeyLaw lib [node "key"] (restart.request "getPublicKey" 33001) "sat1" "key" ↔ Plain "key" :=
  keyLaw_iff lib _ _ _ _ formed (by decide) (by decide) fun _ => rfl

/-- The line breaks of a key make the response invalid. -/
theorem not_keyLaw_pem : ¬KeyLaw lib [node pem] (restart.request "getPublicKey" 33001) "sat1" pem := by
  rintro ⟨body, run, document, _⟩
  have answered : processRequest lib [node pem] (restart.request "getPublicKey" 33001) = .ok (keyBody pem, _) :=
    processRequest_keyBody formed (by decide) (by decide)
  obtain rfl : keyBody pem = body := congrArg Prod.fst (Except.ok.inj (answered.symm.trans run))
  have plain := plain_of_document document
  exact absurd (plain '\n' (by decide)) (by decide)

end keys

end NexusRegistryServer
end Nexus
