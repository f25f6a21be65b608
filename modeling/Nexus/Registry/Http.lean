import Nexus.JsonNesting
import Nexus.Registry.Server
import Nexus.Registry.Socket
import Nexus.TextMessages
import Mathlib.Data.List.DropRight

namespace Nexus
open Occurrence Node JsonText

/-- The string of some bytes, one character a byte. -/
def byteString (bytes : List UInt8) : String := String.ofList (bytes.map fun b => Char.ofNat b.toNat)

/-- A request whose body is an object and blanks after it, with the chunks in which it arrives. -/
structure Connection where
  request : HttpRequest
  object : List UInt8
  blank : List UInt8
  chunks : List (List UInt8)
  body : request.body = object ++ blank
  denotes : ∃ members, Denotes (byteString object).toList (.object members)
  blanks : ∀ b ∈ blank, b ∈ [32, 9, 10, 13]
  split : chunks.flatten = request.text

/-- The first chunk has all of the object within the size of the buffer. -/
def Connection.Whole (c : Connection) : Prop :=
  c.request.head.length + c.object.length ≤ (recv 4095 c.chunks).length ∧ 0 ∉ c.object

instance (c : Connection) : Decidable c.Whole := inferInstanceAs (Decidable (_ ∧ _))

namespace NexusRegistryServer

def writeToSocket (response : String) : List UInt8 :=
  ascii ("HTTP/1.1 200 OK\r\n" ++ "Content-Type: application/json\r\n" ++ "Content-Length: " ++
    toString response.length ++ "\r\n" ++ "\r\n" ++ response)

/-- What is written to the client, and the list that stays. -/
def handleClient (lib : Jsoncpp) (nodes : List NodeInfo) (chunks : List (List UInt8)) :
    Except Fault (List UInt8 × List NodeInfo) := do
  let request := byteString (readFromSocket chunks)
  let (response, nodes) ← processRequest lib nodes request
  pure (writeToSocket response, nodes)

/-- Clients that are handled one after another. -/
def handleClients (lib : Jsoncpp) (nodes : List NodeInfo) :
    List (List (List UInt8)) → Except Fault (List (List UInt8) × List NodeInfo)
  | [] => .ok ([], nodes)
  | chunks :: rest => do
    let (answer, nodes) ← handleClient lib nodes chunks
    let (answers, nodes) ← handleClients lib nodes rest
    pure (answer :: answers, nodes)

/-- The library reads an object with blanks after it as it reads the object, and nothing that ends inside of it. -/
structure ReadsObjects (lib : Jsoncpp) : Prop where
  blanks {object blank : List Char} {members : List (List Char × JsonValue)}
    (denotes : Denotes object (.object members)) (skip : Blank blank) :
    lib.parse (String.ofList (object ++ blank)) = lib.parse (String.ofList object)
  inside {object start : List Char} {members : List (List Char × JsonValue)}
    (denotes : Denotes object (.object members)) (before : start <+: object) (proper : start ≠ object) :
    lib.parse (String.ofList start) = none

section Answers

/-- The lines before the body of an answer. -/
def answerLines (response : String) : List (List UInt8) :=
  [ascii "HTTP/1.1 200 OK", ascii "Content-Type: application/json",
    ascii "Content-Length: " ++ ascii (toString response.length)]

/-- An answer is framed by the length of its body. -/
theorem writeToSocket_eq (response : String) :
    writeToSocket response = closeLines (answerLines response) ++ crlf ++ ascii response ∧
      ∃ line ∈ answerLines response, ContentLength line (ascii response).length := by
  have size : (ascii response).length = response.length := by rw [ascii, List.length_map, String.length_toList]
  constructor
  · have first : ascii "HTTP/1.1 200 OK\r\n" = ascii "HTTP/1.1 200 OK" ++ crlf := by decide
    have second : ascii "Content-Type: application/json\r\n" = ascii "Content-Type: application/json" ++ crlf := by
      decide
    have lineEnd : ascii "\r\n" = crlf := by decide
    simp only [writeToSocket, ascii_append, first, second, lineEnd, closeLines, answerLines, List.map_cons,
      List.map_nil, List.flatten_cons, List.flatten_nil, List.append_assoc, List.append_nil]
  · refine ⟨_, List.mem_cons_of_mem _ (List.mem_cons_of_mem _ (List.mem_singleton_self _)), ascii "Content-Length",
      [32], [], ?_, by decide, fun b blank => Or.inl (List.mem_singleton.mp blank)⟩
    have start : ascii "Content-Length: " = ascii "Content-Length" ++ ascii ":" ++ [32] := by decide
    rw [size, start, List.append_nil]

end Answers

section Requests
variable {lib : Jsoncpp}

theorem toNat_ofNat_byte (b : UInt8) : (Char.ofNat b.toNat).toNat = b.toNat := by
  have small := b.toNat_lt
  have valid : b.toNat.isValidChar := Or.inl (by omega)
  rw [Char.ofNat, dif_pos valid]
  rfl

theorem byteString_inj {bytes bytes' : List UInt8} (same : byteString bytes = byteString bytes') : bytes = bytes' := by
  have chars := congrArg String.toList same
  rw [byteString, byteString, String.toList_ofList, String.toList_ofList] at chars
  refine List.map_injective_iff.mpr (fun b b' equal => ?_) chars
  have number := congrArg Char.toNat equal
  rw [toNat_ofNat_byte, toNat_ofNat_byte] at number
  exact UInt8.toNat_inj.mp number

theorem processRequest_congr {request request' : String} (same : lib.parse request = lib.parse request')
    (nodes : List NodeInfo) : processRequest lib nodes request = processRequest lib nodes request' := by
  unfold processRequest
  rw [same]

section Reading
variable (c : Connection)

theorem zero_notMem_blank : 0 ∉ c.blank := fun member => absurd (c.blanks 0 member) (by decide)

theorem object_ne_nil : c.object ≠ [] := by
  obtain ⟨members, object⟩ := c.denotes
  intro empty
  rw [empty] at object
  cases object

theorem recv_isPrefix : recv 4095 c.chunks <+: c.request.text := by
  have split := c.split
  cases arrived : c.chunks with
  | nil => exact List.nil_prefix
  | cons chunk rest =>
    rw [arrived] at split
    exact (List.take_prefix 4095 chunk).trans ⟨rest.flatten, split⟩

/-- The part of the first chunk that is looked at. -/
theorem read_eq : readFromSocket c.chunks =
    ((recv 4095 c.chunks).takeWhile fun b => b ≠ 0).drop c.request.head.length := by
  have split := c.split
  cases arrived : c.chunks with
  | nil =>
    have some_byte : c.request.head ≠ [] := List.append_ne_nil_of_right_ne_nil _ (List.cons_ne_nil 13 [10])
    rw [arrived] at split
    exact absurd split.symm (List.append_ne_nil_of_left_ne_nil some_byte c.request.body)
  | cons chunk rest =>
    rw [arrived] at split
    exact readFromSocket_eq ⟨rest.flatten, split⟩ rest

theorem read_isPrefix : readFromSocket c.chunks <+: c.object ++ c.blank := by
  have dropped := ((List.takeWhile_prefix fun b => b ≠ 0).trans (recv_isPrefix c)).drop c.request.head.length
  rwa [HttpRequest.text, List.drop_left, c.body, ← read_eq c] at dropped

/-- A whole object is read with some of the blanks after it. -/
theorem read_whole (whole : c.Whole) : ∃ blank, blank <+: c.blank ∧ readFromSocket c.chunks = c.object ++ blank := by
  obtain ⟨enough, clean⟩ := whole
  have noZero : ∀ b ∈ recv 4095 c.chunks, b ≠ 0 := by
    rintro b member rfl
    have inside := (recv_isPrefix c).subset member
    rw [HttpRequest.text, c.body, List.mem_append, List.mem_append] at inside
    rcases inside with head | object | blank
    · exact zero_notMem_head c.request head
    · exact clean object
    · exact zero_notMem_blank c blank
  have all : ((recv 4095 c.chunks).takeWhile fun b => b ≠ 0) = recv 4095 c.chunks :=
    List.takeWhile_eq_self_iff.mpr fun b member => decide_eq_true (noZero b member)
  have long : c.object.length ≤ (readFromSocket c.chunks).length := by
    rw [read_eq c, all, List.length_drop]
    omega
  obtain ⟨rest, split⟩ := read_isPrefix c
  obtain ⟨blank, found⟩ := List.prefix_of_prefix_length_le (List.prefix_append c.object c.blank) ⟨rest, split⟩ long
  refine ⟨blank, ⟨rest, ?_⟩, found.symm⟩
  rw [← found, List.append_assoc] at split
  exact List.append_cancel_left split

/-- An object that does not come whole is not read to its end. -/
theorem read_part (cut : ¬c.Whole) : readFromSocket c.chunks <+: c.object ∧ readFromSocket c.chunks ≠ c.object := by
  have short : (readFromSocket c.chunks).length < c.object.length := by
    by_contra long
    have inside := List.prefix_of_prefix_length_le (List.prefix_append c.object c.blank) (read_isPrefix c)
      (Nat.le_of_not_lt long)
    refine cut ⟨?_, fun zero => ?_⟩
    · have some_byte := List.length_pos_iff.mpr (object_ne_nil c)
      have looked := (List.takeWhile_prefix (l := recv 4095 c.chunks) fun b => b ≠ 0).length_le
      rw [read_eq c, List.length_drop] at long
      omega
    · have member := inside.subset zero
      rw [read_eq c] at member
      simpa using List.mem_takeWhile_imp (List.mem_of_mem_drop member)
  refine ⟨List.prefix_of_prefix_length_le (read_isPrefix c) (List.prefix_append c.object c.blank) short.le,
    fun equal => ?_⟩
  rw [equal] at short
  exact Nat.lt_irrefl _ short

end Reading

theorem byteString_append (bytes bytes' : List UInt8) :
    byteString (bytes ++ bytes') = String.ofList ((byteString bytes).toList ++ (byteString bytes').toList) := by
  simp only [byteString, String.toList_ofList, List.map_append]

section Handling
variable {c : Connection}

theorem parse_object (reads : ReadsObjects lib) (c : Connection) {blank : List UInt8} (start : blank <+: c.blank) :
    lib.parse (byteString (c.object ++ blank)) = lib.parse (byteString c.object) := by
  obtain ⟨members, object⟩ := c.denotes
  have skip : Blank (byteString blank).toList := by
    intro d member
    rw [byteString, String.toList_ofList] at member
    obtain ⟨b, inside, rfl⟩ := List.mem_map.mp member
    have kind : ∀ b ∈ [(32 : UInt8), 9, 10, 13], Char.ofNat b.toNat ∈ [' ', '\t', '\n', '\r'] :=
      forall_mem_of_all (by decide)
    exact kind b (c.blanks b (start.subset inside))
  rw [byteString_append, reads.blanks object skip, String.ofList_toList]

/-- A request is answered as its object is, if that comes whole, and otherwise with an error. -/
theorem handleClient_whole (reads : ReadsObjects lib) (whole : c.Whole) (nodes : List NodeInfo) :
    handleClient lib nodes c.chunks = (processRequest lib nodes (byteString c.object)).map
      fun done => (writeToSocket done.1, done.2) := by
  obtain ⟨blank, start, read⟩ := read_whole c whole
  have same : lib.parse (byteString (readFromSocket c.chunks)) = lib.parse (byteString c.object) := by
    rw [read, parse_object reads c start]
  rw [handleClient, processRequest_congr same]
  cases processRequest lib nodes (byteString c.object) with
  | error fault => rfl
  | ok done => rfl

theorem handleClient_part (reads : ReadsObjects lib) (cut : ¬c.Whole) (nodes : List NodeInfo) :
    handleClient lib nodes c.chunks =
      .ok (writeToSocket "\x7b\"error\": \"Invalid JSON format\"\x7d", nodes) := by
  obtain ⟨start, other⟩ := read_part c cut
  obtain ⟨members, object⟩ := c.denotes
  have before : (byteString (readFromSocket c.chunks)).toList <+: (byteString c.object).toList := by
    rw [byteString, byteString, String.toList_ofList, String.toList_ofList]
    exact start.map _
  have garbled := reads.inside object before fun same => other (byteString_inj (String.toList_inj.mp same))
  rw [String.ofList_toList] at garbled
  rw [handleClient, processRequest_unparsed garbled]
  rfl

end Handling

/-- The answers to some connections, given the responses to the requests that came whole. -/
def answers : List Connection → List String → List (List UInt8)
  | [], _ => []
  | c :: connections, responses =>
    if c.Whole then
      match responses with
      | [] => []
      | response :: responses => writeToSocket response :: answers connections responses
    else writeToSocket "\x7b\"error\": \"Invalid JSON format\"\x7d" :: answers connections responses

/-- However the requests are split into chunks: those of which the first chunk has the whole object are processed in
order, and the others are answered with an error and leave no trace, whatever part of them was read. Every answer is
framed by its length. -/
theorem handleClients_eq (lib : Jsoncpp) (reads : ReadsObjects lib) (connections : List Connection)
    (nodes : List NodeInfo) :
    handleClients lib nodes (connections.map Connection.chunks) =
        (processAll lib nodes ((connections.filter fun c => c.Whole).map fun c => byteString c.object)).map
          (fun done => (answers connections done.1, done.2)) ∧
      ∀ response, writeToSocket response = closeLines (answerLines response) ++ crlf ++ ascii response ∧
        ∃ line ∈ answerLines response, ContentLength line (ascii response).length := by
  refine ⟨?_, writeToSocket_eq⟩
  induction connections generalizing nodes with
  | nil => rfl
  | cons c connections ih =>
    by_cases whole : c.Whole
    · rw [List.map_cons, handleClients, handleClient_whole reads whole,
        List.filter_cons_of_pos (p := fun c : Connection => decide c.Whole) (decide_eq_true whole), List.map_cons,
        processAll]
      cases processRequest lib nodes (byteString c.object) with
      | error fault => rfl
      | ok first =>
        obtain ⟨response, nodes'⟩ := first
        simp only [Except.map, ok_bind, pure, Except.pure, ih nodes']
        cases processAll lib nodes' ((connections.filter fun c => c.Whole).map fun c => byteString c.object) with
        | error fault => rfl
        | ok done =>
          simp only [ok_bind, answers, if_pos whole]
    · have skip : ¬decide c.Whole = true := fun same => whole (of_decide_eq_true same)
      rw [List.map_cons, handleClients, handleClient_part reads whole,
        List.filter_cons_of_neg (p := fun c : Connection => decide c.Whole) skip, ok_bind]
      simp only [ih nodes]
      cases processAll lib nodes ((connections.filter fun c => c.Whole).map fun c => byteString c.object) with
      | error fault => rfl
      | ok done => simp only [Except.map, ok_bind, answers, if_neg whole, pure, Except.pure]

/-- The text without the blanks at its end. -/
def trimmed (text : String) : String :=
  String.ofList (text.toList.rdropWhile fun c => c ∈ [' ', '\t', '\n', '\r'])

/-- A library of this kind, made of one that knows some texts of objects. -/
theorem ReadsObjects.of_trimmed {known : String → Option Json}
    (objects : ∀ text v, known text = some v → ∃ members, Denotes text.toList (.object members))
    (same : ∀ text, lib.parse text = known (trimmed text)) : ReadsObjects lib where
  blanks {object blank _} _ skip := by
    have passed : ∀ c ∈ blank.reverse, decide (c ∈ [' ', '\t', '\n', '\r']) = true :=
      fun c member => decide_eq_true (skip c (List.mem_reverse.mp member))
    rw [same, same, trimmed, trimmed, String.toList_ofList, String.toList_ofList, List.rdropWhile, List.reverse_append,
      List.dropWhile_append_of_pos passed, List.rdropWhile]
  inside {object start _} denotes before proper := by
    rw [same]
    cases found : known (trimmed (String.ofList start)) with
    | none => rfl
    | some v =>
      obtain ⟨_, denotes'⟩ := objects _ v found
      rw [trimmed, String.toList_ofList, String.toList_ofList] at denotes'
      have shorter := List.rdropWhile_prefix (fun c => decide (c ∈ [' ', '\t', '\n', '\r'])) start
      have equal := denotes'.eq_of_isPrefix denotes (shorter.trans before)
      exact absurd (before.eq_of_length_le (equal ▸ shorter.length_le)) proper

end Requests

namespace posting

/-- The library on a request with the body `\x7b\x7d`. -/
def lib : Jsoncpp where
  parse text := if trimmed text = "\x7b\x7d" then some (.object []) else none
  writeString _ := "null"
  realToString _ := "0.0"

theorem denotes_body : Denotes "\x7b\x7d".toList (.object []) :=
  .emptyObject fun _ none => absurd none List.not_mem_nil

theorem reads : ReadsObjects lib := by
  refine @ReadsObjects.of_trimmed _ (fun text => if text = "\x7b\x7d" then some (.object []) else none) ?_ fun _ => rfl
  intro text v found
  by_cases same : text = "\x7b\x7d"
  · exact ⟨[], same ▸ denotes_body⟩
  · exact absurd found (by simp [same])

theorem denotes_request : ∃ members, Denotes (byteString request.body).toList (.object members) := by
  have text : byteString request.body = "\x7b\x7d" := by decide
  exact ⟨[], text ▸ denotes_body⟩

/-- The request in one piece, and in two. -/
def once : Connection :=
  ⟨request, request.body, [], [request.text], rfl, denotes_request, forall_mem_of_all rfl, by decide⟩

def twice : Connection :=
  ⟨request, request.body, [], [request.head, request.body], rfl, denotes_request, forall_mem_of_all rfl, by decide⟩

theorem handleClients_eq_posting :
    handleClients lib [] ([once, twice].map Connection.chunks) =
        (processAll lib [] (([once, twice].filter fun c => c.Whole).map fun c => byteString c.object)).map
          (fun done => (answers [once, twice] done.1, done.2)) ∧
      ∀ response, writeToSocket response = closeLines (answerLines response) ++ crlf ++ ascii response ∧
        ∃ line ∈ answerLines response, ContentLength line (ascii response).length :=
  handleClients_eq lib reads [once, twice] []

end posting
end NexusRegistryServer
end Nexus
