import Nexus.InputStream
import Nexus.Node

namespace Nexus
open InputStream Node

/-- `isspace` of the default locale. -/
def isspace (b : UInt8) : Bool := b = 32 || (9 ≤ b && b ≤ 13)

def newline : UInt8 := 10

/-- What one round of `handleInput` does. -/
inductive Done
  | sendMessage (targetName message : List UInt8)
  | sendFile (targetName fileName : List UInt8)
  | listNodes
  | printCommands
  | error (text : String)
  | quit
  deriving DecidableEq

/-- The variables of `handleInput` and its input. -/
structure Prompt where
  command : List UInt8
  targetName : List UInt8
  message : List UInt8
  cin : InputStream UInt8
  deriving DecidableEq

namespace Prompt

/-- Before the first round. -/
def start (text : List UInt8) : Prompt := ⟨[], [], [], .good text⟩

/-- One round of the loop. After an unknown command the commands are printed too. -/
def next (p : Prompt) : Done × Prompt :=
  let (command, cin) := p.cin.word isspace p.command
  if command = ascii "message" then
    let (targetName, cin) := cin.word isspace p.targetName
    let cin := cin.skipLine newline
    let (message, cin) := cin.line newline p.message
    (if message ≠ [] then .sendMessage targetName message else .error "Message cannot be empty.",
      ⟨command, targetName, message, cin⟩)
  else if command = ascii "file" then
    let (targetName, cin) := cin.word isspace p.targetName
    let cin := cin.skipLine newline
    let (message, cin) := cin.word isspace p.message
    (if message = [] then .error "File name cannot be empty." else .sendFile targetName message,
      ⟨command, targetName, message, cin⟩)
  else
    (if command = ascii "list" then .listNodes
      else if command = ascii "q" then .quit
      else if command = ascii "help" then .printCommands
      else .error "Unknown command.", { p with command, cin })

end Prompt

/-- What a number of rounds do, and whether the loop is left then. -/
def handleInput : Nat → Prompt → List Done × Bool
  | 0, _ => ([], false)
  | rounds + 1, p =>
    if p.next.1 = .quit then ([], true)
    else (p.next.1 :: (handleInput rounds p.next.2).1, (handleInput rounds p.next.2).2)

/-- The name of a target, with whatever else stands on its line. -/
def Target (targetName text rest : List UInt8) : Prop :=
  ∃ after other, Ahead isspace targetName text after ∧ Line newline other after rest

/-- How a text starts that has something done. -/
inductive Typed : Done → List UInt8 → List UInt8 → Prop
  | message {a b c d targetName message} (command : Ahead isspace (ascii "message") a b)
      (target : Target targetName b c) (line : Line newline message c d) (nonempty : message ≠ []) :
      Typed (.sendMessage targetName message) a d
  | emptyMessage {a b c d targetName} (command : Ahead isspace (ascii "message") a b)
      (target : Target targetName b c) (line : Line newline [] c d) : Typed (.error "Message cannot be empty.") a d
  | file {a b c d targetName fileName} (command : Ahead isspace (ascii "file") a b)
      (target : Target targetName b c) (name : Ahead isspace fileName c d) : Typed (.sendFile targetName fileName) a d
  | list {a b} (command : Ahead isspace (ascii "list") a b) : Typed .listNodes a b
  | help {a b} (command : Ahead isspace (ascii "help") a b) : Typed .printCommands a b
  | unknown {a b w} (command : Ahead isspace w a b)
      (other : w ∉ ["message", "file", "list", "q", "help"].map ascii) : Typed (.error "Unknown command.") a b

/-- A text that has some things done and then says `q`. -/
inductive Script : List Done → List UInt8 → Prop
  | quit {text rest} (command : Ahead isspace (ascii "q") text rest) : Script [] text
  | next {done dones text rest} (typed : Typed done text rest) (script : Script dones rest) :
      Script (done :: dones) text

section Rounds
variable {done : Done} {dones : List Done} {text rest : List UInt8} {p : Prompt}

theorem Typed.length_lt (typed : Typed done text rest) : rest.length < text.length := by
  cases typed with
  | message command target line nonempty =>
    obtain ⟨after, other, word, past⟩ := target
    exact line.length_lt.trans (past.length_lt.trans (word.length_lt.trans command.length_lt))
  | emptyMessage command target line =>
    obtain ⟨after, other, word, past⟩ := target
    exact line.length_lt.trans (past.length_lt.trans (word.length_lt.trans command.length_lt))
  | file command target name =>
    obtain ⟨after, other, word, past⟩ := target
    exact name.length_lt.trans (past.length_lt.trans (word.length_lt.trans command.length_lt))
  | list command => exact command.length_lt
  | help command => exact command.length_lt
  | unknown command => exact command.length_lt

theorem Target.suffix {targetName : List UInt8} (target : Target targetName text rest) : rest <:+ text := by
  obtain ⟨after, other, word, past⟩ := target
  exact past.suffix.trans word.suffix

theorem Typed.suffix (typed : Typed done text rest) : rest <:+ text := by
  cases typed with
  | message command target line nonempty => exact line.suffix.trans (target.suffix.trans command.suffix)
  | emptyMessage command target line => exact line.suffix.trans (target.suffix.trans command.suffix)
  | file command target name => exact name.suffix.trans (target.suffix.trans command.suffix)
  | list command => exact command.suffix
  | help command => exact command.suffix
  | unknown command => exact command.suffix

theorem ne_nil_of_shorter (shorter : rest.length < text.length) : text ≠ [] :=
  List.ne_nil_of_length_pos (by omega)

theorem Script.ne_nil (script : Script dones text) : text ≠ [] := by
  cases script with
  | quit command => exact List.ne_nil_of_length_pos (by have := command.length_lt; omega)
  | next typed => exact List.ne_nil_of_length_pos (by have := typed.length_lt; omega)

theorem Typed.ne_quit (typed : Typed done text rest) : done ≠ .quit := by
  cases typed with
  | message | emptyMessage | file | list | help | unknown => exact Done.noConfusion

theorem Target.ne_nil {targetName : List UInt8} (target : Target targetName text rest) : text ≠ [] := by
  obtain ⟨after, other, word, -⟩ := target
  exact ne_nil_of_shorter word.length_lt

/-- The target is read from a good stream, and the rest of its line is passed. -/
theorem Target.reads {targetName : List UInt8} (target : Target targetName text rest) (old : List UInt8) :
    ∃ after, (good text).word isspace old = (targetName, good after) ∧ (good after).skipLine newline = good rest := by
  obtain ⟨after, other, word, past⟩ := target
  exact ⟨after, word.reads (ne_nil_of_shorter past.length_lt) old, skipLine_eq_good.mpr ⟨after, other, rfl, past⟩⟩

theorem Typed.next (typed : Typed done text rest) (more : rest ≠ []) (stream : p.cin = good text) :
    p.next.1 = done ∧ p.next.2.cin = good rest := by
  obtain ⟨command', targetName', message', cin⟩ := p
  obtain rfl : cin = good text := stream
  cases typed with
  | message command target line nonempty =>
    have first := command.reads target.ne_nil command'
    obtain ⟨after, second, third⟩ := target.reads targetName'
    have fourth := line.reads message'
    simp [Prompt.next, first, second, third, fourth, nonempty]
  | emptyMessage command target line =>
    have first := command.reads target.ne_nil command'
    obtain ⟨after, second, third⟩ := target.reads targetName'
    have fourth := line.reads message'
    simp [Prompt.next, first, second, third, fourth]
  | file command target name =>
    have first := command.reads target.ne_nil command'
    obtain ⟨after, second, third⟩ := target.reads targetName'
    have fourth := name.reads more message'
    obtain ⟨-, -, -, nonempty, -⟩ := name
    have other : ascii "file" ≠ ascii "message" := by decide
    simp [Prompt.next, first, second, third, fourth, nonempty, other]
  | list command =>
    have first := command.reads more command'
    have other : ascii "list" ≠ ascii "message" ∧ ascii "list" ≠ ascii "file" := by decide
    simp [Prompt.next, first, other]
  | help command =>
    have first := command.reads more command'
    have other : ascii "help" ∉ ["message", "file", "list", "q"].map ascii := by decide
    simp only [List.map_cons, List.map_nil, List.mem_cons, not_or] at other
    simp [Prompt.next, first, other]
  | unknown command other =>
    have first := command.reads more command'
    simp only [List.map_cons, List.map_nil, List.mem_cons, not_or] at other
    simp [Prompt.next, first, other]

theorem target_of_skipLine {cin : InputStream UInt8} {old : List UInt8}
    (past : (cin.word isspace old).2.skipLine newline = good rest) :
    ∃ text, cin = good text ∧ Target (cin.word isspace old).1 text rest := by
  obtain ⟨after, other, read, line⟩ := skipLine_eq_good.mp past
  obtain ⟨text, stream, word, -⟩ := word_eq_good.mp (Prod.ext rfl read)
  exact ⟨text, stream, after, other, word, line⟩

/-- What a round has done with a stream that is still good, was typed. -/
theorem next_typed (stays : p.next.1 ≠ .quit) (stream : p.next.2.cin = good rest) :
    ∃ text, p.cin = good text ∧ Typed p.next.1 text rest := by
  rcases word_cases isspace p.command p.cin with ⟨text, w, after, cin, command, read⟩ | read
  · refine ⟨text, cin, ?_⟩
    by_cases isMessage : w = ascii "message"
    · subst isMessage
      simp only [Prompt.next, read, if_true] at stream ⊢
      obtain ⟨c, past, line⟩ := line_eq_good.mp (Prod.ext rfl stream)
      obtain ⟨b, start, target⟩ := target_of_skipLine past
      obtain ⟨rfl, -⟩ := afterWord_eq_good.mp start
      split
      next nonempty => exact .message command target line nonempty
      next empty =>
        have none := not_not.mp empty
        exact .emptyMessage command target (by rw [← none]; exact line)
    by_cases isFile : w = ascii "file"
    · subst isFile
      have other : ascii "file" ≠ ascii "message" := by decide
      simp only [Prompt.next, read, if_true, if_neg other] at stream ⊢
      obtain ⟨c, past, name, -⟩ := word_eq_good.mp (Prod.ext rfl stream)
      obtain ⟨b, start, target⟩ := target_of_skipLine past
      obtain ⟨rfl, -⟩ := afterWord_eq_good.mp start
      have nonempty := name
      obtain ⟨-, -, -, nonempty, -⟩ := nonempty
      rw [if_neg nonempty]
      exact .file command target name
    · simp only [Prompt.next, read, if_neg isMessage, if_neg isFile] at stream stays ⊢
      obtain ⟨rfl, -⟩ := afterWord_eq_good.mp stream
      split
      next isList => exact .list (isList ▸ command)
      next isList =>
        split
        next isQuit => exact absurd (by rw [if_neg isList, if_pos isQuit]) stays
        next isQuit =>
          split
          next isHelp => exact .help (isHelp ▸ command)
          next isHelp => exact .unknown command (by simp [isMessage, isFile, isList, isQuit, isHelp])
  · have ended : p.next.2.cin = ended := by
      simp only [Prompt.next, read]
      split_ifs <;> rfl
    rw [ended] at stream
    cases stream

theorem next_quit : p.next.1 = .quit ↔ p.next.2.command = ascii "q" := by
  have apart : ascii "message" ≠ ascii "q" ∧ ascii "file" ≠ ascii "q" ∧ ascii "list" ≠ ascii "q" := by decide
  simp only [Prompt.next]
  split_ifs <;> simp_all

theorem Script.handleInput (script : Script dones text) (stream : p.cin = good text) :
    handleInput (dones.length + 1) p = (dones, true) := by
  induction script generalizing p with
  | @quit text rest command =>
    have read := command.word p.command
    have quits : p.next.1 = .quit := by
      rw [next_quit]
      simp only [Prompt.next, stream, read]
      split_ifs <;> rfl
    rw [Nexus.handleInput, if_pos quits]
  | next typed script ih =>
    obtain ⟨first, stream⟩ := typed.next script.ne_nil stream
    rw [List.length_cons, Nexus.handleInput, first, if_neg typed.ne_quit, ih stream]

theorem script_of_handleInput {rounds : Nat} (fresh : p.command ≠ ascii "q")
    (quits : handleInput rounds p = (dones, true)) : ∃ text, p.cin = good text ∧ Script dones text := by
  induction rounds generalizing dones p with
  | zero => cases quits
  | succ rounds ih =>
    rw [handleInput] at quits
    by_cases last : p.next.1 = .quit
    · rw [if_pos last] at quits
      cases quits
      have command : (p.cin.word isspace p.command).1 = ascii "q" := by
        rw [← next_quit.mp last]
        simp only [Prompt.next]
        split_ifs <;> rfl
      rcases word_cases isspace p.command p.cin with ⟨text, w, rest, stream, ahead, read⟩ | read
      · rw [read] at command
        obtain rfl : w = ascii "q" := command
        exact ⟨text, stream, .quit ahead⟩
      · rw [read] at command
        exact (fresh command).elim
    · rw [if_neg last] at quits
      obtain ⟨rfl, later⟩ := Prod.mk.inj quits
      obtain ⟨rest, stream, script⟩ := ih (fun command => last (next_quit.mpr command)) (Prod.ext rfl later)
      obtain ⟨text, stream, typed⟩ := next_typed last stream
      exact ⟨text, stream, .next typed script⟩

/-- The loop does some things and is left, exactly if the text has them done and then says `q`. -/
theorem handleInput_quits_iff (text : List UInt8) (dones : List Done) :
    (∃ rounds, handleInput rounds (.start text) = (dones, true)) ↔ Script dones text := by
  constructor
  · rintro ⟨rounds, quits⟩
    have fresh : (Prompt.start text).command ≠ ascii "q" := show [] ≠ ascii "q" by decide
    obtain ⟨_, stream, script⟩ := script_of_handleInput fresh quits
    cases stream
    exact script
  · intro script
    exact ⟨_, script.handleInput rfl⟩

theorem next_again (finished : p.next.2.cin = ended) : p.next.2.next = (p.next.1, p.next.2) := by
  simp only [Prompt.next] at finished ⊢
  generalize p.cin.word isspace p.command = first at finished ⊢
  obtain ⟨command, cin⟩ := first
  by_cases isMessage : command = ascii "message"
  · simp only [isMessage, if_true] at finished ⊢
    simp only [finished, word_ended, skipLine_ended, line_ended, if_true]
  by_cases isFile : command = ascii "file"
  · have other : ascii "file" ≠ ascii "message" := by decide
    simp only [isFile, if_neg other, if_true] at finished ⊢
    simp only [finished, word_ended, skipLine_ended, if_true, if_neg other]
  · simp only [if_neg isMessage, if_neg isFile] at finished ⊢
    simp only [finished, word_ended, if_neg isMessage, if_neg isFile]

theorem handleInput_again (again : p.next = (done, p)) (stays : done ≠ .quit) (rounds : Nat) :
    handleInput rounds p = (List.replicate rounds done, false) := by
  induction rounds with
  | zero => rfl
  | succ rounds ih => rw [handleInput, again, if_neg stays, ih, List.replicate_succ]

/-- Once the input has ended, every round does what the round before it did. -/
theorem handleInput_ended (finished : p.next.2.cin = ended) (stays : p.next.1 ≠ .quit) (rounds : Nat) :
    handleInput (rounds + 1) p = (List.replicate (rounds + 1) p.next.1, false) := by
  rw [handleInput, if_neg stays, handleInput_again (next_again finished) stays, List.replicate_succ]

theorem next_ne_quit (stays : ∀ rounds, (handleInput rounds p).2 = false) : p.next.1 ≠ .quit := by
  intro quits
  have left := stays 1
  rw [handleInput, if_pos quits] at left
  cases left

/-- A loop that is never left has met the end of its input after a round for every character. -/
theorem handleInput_settles {size : Nat} (stays : ∀ rounds, (handleInput rounds p).2 = false)
    (short : ∀ text, p.cin = good text → text.length ≤ size) :
    ∃ dones done, dones.length = size + 1 ∧ dones.getLast? = some done ∧
      ∀ rounds, handleInput (size + 1 + rounds) p = (dones ++ List.replicate rounds done, false) := by
  induction size generalizing p with
  | zero =>
    have first := next_ne_quit stays
    cases stream : p.next.2.cin with
    | ended =>
      refine ⟨[p.next.1], p.next.1, rfl, rfl, fun rounds => ?_⟩
      rw [Nat.zero_add, Nat.add_comm, handleInput_ended stream first, List.replicate_succ]
      rfl
    | good rest =>
      obtain ⟨text, start, typed⟩ := next_typed first stream
      have shorter := typed.length_lt
      have bound := short text start
      omega
  | succ size ih =>
    have first := next_ne_quit stays
    have stays' : ∀ rounds, (handleInput rounds p.next.2).2 = false := by
      intro rounds
      have later := stays (rounds + 1)
      rwa [handleInput, if_neg first] at later
    have short' : ∀ rest, p.next.2.cin = good rest → rest.length ≤ size := by
      intro rest stream
      obtain ⟨text, start, typed⟩ := next_typed first stream
      have shorter := typed.length_lt
      have bound := short text start
      omega
    obtain ⟨dones, done, length, last, run⟩ := ih stays' short'
    refine ⟨p.next.1 :: dones, done, by rw [List.length_cons, length], ?_, fun rounds => ?_⟩
    · rw [List.getLast?_cons, last]
      rfl
    · have split : size + 1 + 1 + rounds = size + 1 + rounds + 1 := by omega
      rw [split, handleInput, if_neg first, run]
      rfl

/-- No script is without a `q`. -/
theorem Script.mem_q (script : Script dones text) : 113 ∈ text := by
  induction script with
  | quit command =>
    obtain ⟨blanks, rfl, -⟩ := command
    exact List.mem_append_right _ (List.mem_append_left _ (by decide))
  | next typed script ih => exact typed.suffix.subset ih

/-- Without a `q` the loop does one thing again and again after the input has ended. -/
theorem handleInput_repeats (text : List UInt8) (unfinished : ∀ dones, ¬Script dones text) :
    ∃ dones done, dones.length = text.length + 1 ∧ dones.getLast? = some done ∧
      ∀ rounds, handleInput (text.length + 1 + rounds) (.start text) =
        (dones ++ List.replicate rounds done, false) := by
  refine handleInput_settles (fun rounds => ?_) (fun text' same => by cases same; rfl)
  rw [Bool.eq_false_iff]
  intro quits
  exact unfinished _ ((handleInput_quits_iff text _).mp ⟨rounds, Prod.ext rfl quits⟩)
end Rounds

section Typing

/-- Two lines that end before a `q`. -/
def greeting : List UInt8 := ascii "message sat3\nhello\n"

theorem handleInput_repeats_greeting :
    (∀ dones, ¬Script dones greeting) ∧
    ∃ dones done, dones.length = greeting.length + 1 ∧ dones.getLast? = some done ∧
      ∀ rounds, handleInput (greeting.length + 1 + rounds) (.start greeting) =
        (dones ++ List.replicate rounds done, false) := by
  have unfinished : ∀ dones, ¬Script dones greeting :=
    fun dones script => absurd script.mem_q (by decide)
  exact ⟨unfinished, handleInput_repeats greeting unfinished⟩

example : handleInput 3 (.start greeting) = (List.replicate 3 (.sendMessage (ascii "sat3") (ascii "hello")), false) := by
  decide

end Typing
end Nexus
