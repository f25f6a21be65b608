import Nexus.Occurrence
import Nexus.Node

namespace Nexus
open Occurrence Node

/-- The bytes of a line end. -/
def crlf : List UInt8 := [13, 10]

def toLower (b : UInt8) : UInt8 := if 65 ≤ b ∧ b ≤ 90 then b + 32 else b

/-- A header line that gives the length of the body. -/
def ContentLength (line : List UInt8) (n : Nat) : Prop :=
  ∃ name before after, line = name ++ ascii ":" ++ before ++ ascii (toString n) ++ after ∧
    name.map toLower = ascii "content-length" ∧ ∀ b ∈ before ++ after, b = 32 ∨ b = 9

/-- A request of which no line before the empty one is empty or holds a byte that no such line may hold. -/
structure HttpRequest where
  requestLine : List UInt8
  headers : List (List UInt8)
  body : List UInt8
  plain : ∀ line ∈ requestLine :: headers, line ≠ [] ∧ ∀ b ∈ line, b ≠ 0 ∧ b ≠ 10 ∧ b ≠ 13
  sized : ∃ line ∈ headers, ContentLength line body.length

def closeLines (lines : List (List UInt8)) : List UInt8 := (lines.map fun line => line ++ crlf).flatten

namespace HttpRequest

/-- What comes before the body, with the empty line. -/
def head (r : HttpRequest) : List UInt8 := closeLines (r.requestLine :: r.headers) ++ crlf

def text (r : HttpRequest) : List UInt8 := r.head ++ r.body

end HttpRequest

/-- What one call of `recv` gives of the chunks that arrive; an empty result is an end of the stream. -/
def recv (size : Nat) : List (List UInt8) → List UInt8
  | [] => []
  | chunk :: _ => chunk.take size

namespace NexusRegistryServer

def readFromSocket (chunks : List (List UInt8)) : List UInt8 :=
  let buffer := recv (4096 - 1) chunks
  if buffer.length ≤ 0 then []
  else
    -- a string made of a buffer ends at its first zero byte
    let request := buffer.takeWhile fun b => b ≠ 0
    match find [13, 10, 13, 10] request with
    | some bodyPos => request.drop (bodyPos + 4)
    | none => []

section Headers

theorem closeLines_cons (line : List UInt8) (lines : List (List UInt8)) :
    closeLines (line :: lines) = line ++ 13 :: 10 :: closeLines lines := by
  rw [closeLines, List.map_cons, List.flatten_cons, List.append_assoc]
  rfl

/-- The first empty line is the one that closes the headers. -/
theorem find_closeLines {lines : List (List UInt8)} (some_line : lines ≠ [])
    (plain : ∀ line ∈ lines, line ≠ [] ∧ ∀ b ∈ line, b ≠ 0 ∧ b ≠ 10 ∧ b ≠ 13) (tail : List UInt8) :
    ∃ i, find [13, 10, 13, 10] (closeLines lines ++ (crlf ++ tail)) = some i ∧ i + 2 = (closeLines lines).length := by
  induction lines with
  | nil => exact absurd rfl some_line
  | cons line lines ih =>
    obtain ⟨⟨_, free⟩, later⟩ := List.forall_mem_cons.mp plain
    have noReturn : (13 : UInt8) ∉ line := fun inside => (free 13 inside).2.2 rfl
    rw [closeLines_cons, List.append_assoc, find_append noReturn, List.length_append, List.length_cons,
      List.length_cons, List.cons_append, List.cons_append]
    cases lines with
    | nil =>
      have here : find [13, 10, 13, 10] (13 :: 10 :: (closeLines [] ++ (crlf ++ tail))) = some 0 :=
        find_of_prefix ⟨tail, rfl⟩
      refine ⟨line.length, ?_, rfl⟩
      rw [here, Option.map_some, Nat.zero_add]
    | cons next lines =>
      obtain ⟨i, found, place⟩ := ih (List.cons_ne_nil _ _) later
      obtain ⟨⟨some_byte, nextFree⟩, _⟩ := List.forall_mem_cons.mp later
      obtain ⟨b, rest, rfl⟩ := List.exists_cons_of_ne_nil some_byte
      have other : b ≠ 13 := (nextFree b List.mem_cons_self).2.2
      have skip : find [13, 10, 13, 10] (13 :: 10 :: (closeLines ((b :: rest) :: lines) ++ (crlf ++ tail))) =
          some (i + 2) := by
        rw [find, if_neg, find, if_neg, found]
        · rfl
        · exact fun start => absurd (List.cons_prefix_cons.mp start).1 (by decide)
        · intro start
          rw [closeLines_cons, List.cons_append, List.cons_append] at start
          simp only [List.cons_prefix_cons] at start
          exact other start.2.2.1.symm
      refine ⟨i + 2 + line.length, ?_, by omega⟩
      rw [skip, Option.map_some]

end Headers

section Reading
variable {r : HttpRequest}

theorem find_text (r : HttpRequest) : ∃ i, find [13, 10, 13, 10] r.text = some i ∧ i + 4 = r.head.length := by
  obtain ⟨i, found, place⟩ := find_closeLines (List.cons_ne_nil _ _) r.plain r.body
  refine ⟨i, ?_, ?_⟩
  · rw [HttpRequest.text, HttpRequest.head, List.append_assoc, found]
  · rw [HttpRequest.head, List.length_append, ← place]
    rfl

theorem zero_notMem_head (r : HttpRequest) : 0 ∉ r.head := by
  intro inside
  rw [HttpRequest.head, List.mem_append, closeLines, List.mem_flatten] at inside
  rcases inside with ⟨closed, member, inside⟩ | impossible
  · obtain ⟨line, here, rfl⟩ := List.mem_map.mp member
    rcases List.mem_append.mp inside with plain | impossible
    · exact ((r.plain line here).2 0 plain).1 rfl
    · exact absurd impossible (by decide)
  · exact absurd impossible (by decide)

/-- Of any first part of a request, what follows the empty line is kept. -/
theorem readFromSocket_eq {chunk : List UInt8} (start : chunk <+: r.text) (rest : List (List UInt8)) :
    readFromSocket (chunk :: rest) = ((chunk.take 4095).takeWhile fun b => b ≠ 0).drop r.head.length := by
  obtain ⟨i, found, place⟩ := find_text r
  have part : ((chunk.take 4095).takeWhile fun b => b ≠ 0) <+: r.text :=
    (List.takeWhile_prefix _).trans ((List.take_prefix 4095 chunk).trans start)
  have received : recv (4096 - 1) (chunk :: rest) = chunk.take 4095 := rfl
  simp only [readFromSocket, received]
  by_cases empty : (chunk.take 4095).length ≤ 0
  · rw [if_pos empty, List.eq_nil_of_length_eq_zero (Nat.le_zero.mp empty), List.takeWhile_nil, List.drop_nil]
  · rw [if_neg empty]
    rcases find_part part found (List.cons_ne_nil _ _) with whole | ⟨none, short⟩
    · rw [whole, ← place]
    · rw [none, List.drop_eq_nil_of_le]
      exact Nat.le_of_lt (place ▸ short)

theorem takeWhile_text (clean : 0 ∉ r.body) : (r.text.takeWhile fun b => b ≠ 0) = r.text := by
  rw [List.takeWhile_eq_self_iff]
  intro b inside
  rw [decide_eq_true_eq]
  rintro rfl
  rcases List.mem_append.mp inside with head | body
  · exact zero_notMem_head r head
  · exact clean body

end Reading

/-- The body is read exactly if it is empty or the whole request comes in one piece of at most 4095 bytes and the
body has no zero byte. -/
theorem readFromSocket_eq_body_iff (r : HttpRequest) (chunks : List (List UInt8)) (split : chunks.flatten = r.text)
    (filled : ∀ chunk ∈ chunks, chunk ≠ []) :
    readFromSocket chunks = r.body ↔
      r.body = [] ∨ chunks = [r.text] ∧ r.text.length ≤ 4095 ∧ 0 ∉ r.body := by
  cases chunks with
  | nil =>
    have some_byte : r.head ≠ [] := List.append_ne_nil_of_right_ne_nil _ (List.cons_ne_nil 13 [10])
    exact absurd split.symm (List.append_ne_nil_of_left_ne_nil some_byte r.body)
  | cons chunk rest =>
    have start : chunk <+: r.text := ⟨rest.flatten, split⟩
    rw [readFromSocket_eq start]
    have cut : ((chunk.take 4095).takeWhile fun b => b ≠ 0) <+: chunk.take 4095 := List.takeWhile_prefix _
    have received : chunk.take 4095 <+: chunk := List.take_prefix 4095 chunk
    have size : r.text.length = r.head.length + r.body.length := List.length_append
    constructor
    · intro same
      by_cases empty : r.body = []
      · exact Or.inl empty
      have positive : 0 < r.body.length := List.length_pos_iff.mpr empty
      have rest_size := congrArg List.length same
      rw [List.length_drop] at rest_size
      have whole : ((chunk.take 4095).takeWhile fun b => b ≠ 0) = r.text :=
        (cut.trans (received.trans start)).eq_of_length_le (by omega)
      have one : chunk = r.text := start.eq_of_length_le (whole ▸ (cut.trans received).length_le)
      refine Or.inr ⟨?_, ?_, fun zero => ?_⟩
      · rw [one] at split ⊢
        have nothing : rest.flatten = [] := List.append_right_eq_self.mp split
        have none : rest = [] := List.eq_nil_iff_forall_not_mem.mpr fun later inside =>
          filled later (List.mem_cons_of_mem _ inside) (List.flatten_eq_nil_iff.mp nothing later inside)
        rw [none]
      · have few := cut.length_le
        rw [whole, List.length_take] at few
        omega
      · have member : (0 : UInt8) ∈ (chunk.take 4095).takeWhile fun b => b ≠ 0 :=
          whole ▸ List.mem_append_right r.head zero
        simpa using List.mem_takeWhile_imp member
    · rintro (empty | ⟨single, few, clean⟩)
      · have short := (cut.trans (received.trans start)).length_le
        rw [empty, List.drop_eq_nil_of_le]
        rw [size, empty] at short
        exact short
      · rw [(List.cons_eq_cons.mp single).1, List.take_of_length_le few, takeWhile_text clean, HttpRequest.text,
          List.drop_left]

namespace posting

/-- A request with the body `\x7b\x7d`. -/
def request : HttpRequest where
  requestLine := ascii "POST / HTTP/1.1"
  headers := [ascii "Content-Length: 2"]
  body := ascii "\x7b\x7d"
  plain := by decide +kernel
  sized := ⟨_, List.mem_singleton_self _, ascii "Content-Length", [32], [], by decide, by decide,
    fun b blank => Or.inl (List.mem_singleton.mp blank)⟩

theorem readFromSocket_eq_body_iff_split :
    readFromSocket [request.head, request.body] = request.body ↔
      request.body = [] ∨ [request.head, request.body] = [request.text] ∧ request.text.length ≤ 4095 ∧
        0 ∉ request.body :=
  readFromSocket_eq_body_iff request _ (by decide) (by decide)

/-- Headers and body in two pieces: the body is lost. -/
theorem readFromSocket_split :
    [request.head, request.body].flatten = request.text ∧
      readFromSocket [request.head, request.body] ≠ request.body := by
  decide

end posting
end NexusRegistryServer
end Nexus
