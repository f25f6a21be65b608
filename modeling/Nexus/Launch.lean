import Nexus.Client
import Nexus.Movement
import Nexus.Registry.Server

namespace Nexus
open FloatText

/-- `std::stoi`; what follows the number in the text is left unread. -/
def stoi (text : String) : Except Fault Int :=
  let (negative, rest) := sign (text.toList.dropWhile isSpace)
  let digits := (spanDigits decimalDigit rest).1
  let value : Int := if negative then -(digitsValue 10 digits : Int) else digitsValue 10 digits
  if digits = [] then .error (.thrown "stoi")
  else if -2 ^ 31 ≤ value ∧ value < 2 ^ 31 then .ok value
  else .error (.thrown "stoi")

/-- The variables that `main` reads its arguments into. -/
structure Arguments where
  nodeType : String
  name : String
  ip : String
  port : Int
  coords : Binary64 × Binary64
  deriving DecidableEq

namespace Arguments

def initial : Arguments := ⟨"", "", "", 0, (.finite 0, .finite 0)⟩

/-- What a flag has its value assigned to; `none` for an unknown flag. -/
def assign (a : Arguments) (flag : String) : Option (String → Except Fault Arguments) :=
  if flag = "-node" then some fun value => .ok { a with nodeType := value }
  else if flag = "-name" then some fun value => .ok { a with name := value }
  else if flag = "-ip" then some fun value => .ok { a with ip := value }
  else if flag = "-port" then some fun value => (stoi value).map fun port => { a with port }
  else if flag = "-x" then some fun value => (stod value).map fun x => { a with coords := (x, a.coords.2) }
  else if flag = "-y" then some fun value => (stod value).map fun y => { a with coords := (a.coords.1, y) }
  else none

/-- The loop over `argv`, which ends with a null pointer; `none` after an unknown flag. -/
def read (a : Arguments) : List String → Except Fault (Option Arguments)
  | [] => .ok (some a)
  | flag :: rest =>
    match a.assign flag with
    | none => .ok none
    | some take =>
      match rest with
      | [] => .error .nullPointer
      | value :: rest =>
        match take value with
        | .ok a => a.read rest
        | .error fault => .error fault

end Arguments

/-- How `main` goes on after its arguments. -/
inductive Launch
  | exit (code : Nat)
  | node (node : Node)
  deriving DecidableEq

/-- `main` up to the node that it registers; `id` is its generated identifier. -/
def launch (argv : List String) (id : String) : Except Fault Launch :=
  if argv.length ≠ 13 then .ok (.exit 1)
  else do
    match ← Arguments.initial.read argv.tail with
    | none => pure (.exit 2)
    | some a =>
      match NodeType.fromString a.nodeType with
      | .unknown => pure (.exit 3)
      | .ground => pure (.node (Node.updatePosition ⟨.ground, id, a.name, a.ip, a.port, a.coords⟩))
      | .satellite => pure (.node ⟨.satellite, id, a.name, a.ip, a.port, a.coords⟩)

namespace Arguments

/-- The last value that is given for a flag. -/
def given (flag : String) : List (String × String) → Option String
  | [] => none
  | p :: rest => (given flag rest).or (if p.1 = flag then some p.2 else none)

def Valid (p : String × String) : Prop :=
  p.1 ∈ ["-node", "-name", "-ip"] ∨ p.1 = "-port" ∧ (∃ port, stoi p.2 = .ok port) ∨
    p.1 ∈ ["-x", "-y"] ∧ ∃ coord, stod p.2 = .ok coord

/-- Every variable has the last value that is given for it, or keeps its value. -/
@[mk_iff]
structure Settled (pairs : List (String × String)) (a b : Arguments) : Prop where
  valid : ∀ p ∈ pairs, Valid p
  nodeType : b.nodeType = (given "-node" pairs).getD a.nodeType
  name : b.name = (given "-name" pairs).getD a.name
  ip : b.ip = (given "-ip" pairs).getD a.ip
  port : (given "-port" pairs).elim (.ok a.port) stoi = .ok b.port
  x : (given "-x" pairs).elim (.ok a.coords.1) stod = .ok b.coords.1
  y : (given "-y" pairs).elim (.ok a.coords.2) stod = .ok b.coords.2

section Reading
variable {a b : Arguments} {p : String × String} {pairs : List (String × String)}

theorem assign_of_valid (valid : Valid p) : ∃ take c, a.assign p.1 = some take ∧ take p.2 = .ok c := by
  obtain ⟨flag, value⟩ := p
  rcases valid with text | ⟨isPort, n, number⟩ | ⟨isCoord, v, number⟩
  · simp only [List.mem_cons, List.not_mem_nil, or_false] at text
    rcases text with rfl | rfl | rfl
    · exact ⟨_, _, rfl, rfl⟩
    · exact ⟨_, _, rfl, rfl⟩
    · exact ⟨_, _, rfl, rfl⟩
  · obtain rfl : flag = "-port" := isPort
    exact ⟨_, { a with port := n }, rfl, by rw [number]; rfl⟩
  · simp only [List.mem_cons, List.not_mem_nil, or_false] at isCoord
    rcases isCoord with rfl | rfl
    · exact ⟨_, { a with coords := (v, a.coords.2) }, rfl, by rw [number]; rfl⟩
    · exact ⟨_, { a with coords := (a.coords.1, v) }, rfl, by rw [number]; rfl⟩

theorem assign_cases {c : Arguments} {take : String → Except Fault Arguments} (known : a.assign p.1 = some take)
    (taken : take p.2 = .ok c) :
    p.1 = "-node" ∧ c = { a with nodeType := p.2 } ∨ p.1 = "-name" ∧ c = { a with name := p.2 } ∨
    p.1 = "-ip" ∧ c = { a with ip := p.2 } ∨
    (∃ port, p.1 = "-port" ∧ stoi p.2 = .ok port ∧ c = { a with port }) ∨
    (∃ x, p.1 = "-x" ∧ stod p.2 = .ok x ∧ c = { a with coords := (x, a.coords.2) }) ∨
    ∃ y, p.1 = "-y" ∧ stod p.2 = .ok y ∧ c = { a with coords := (a.coords.1, y) } := by
  unfold assign at known
  split_ifs at known with isNode isName isIp isPort isX isY
  · cases known
    cases taken
    exact .inl ⟨isNode, rfl⟩
  · cases known
    cases taken
    exact .inr (.inl ⟨isName, rfl⟩)
  · cases known
    cases taken
    exact .inr (.inr (.inl ⟨isIp, rfl⟩))
  · cases known
    obtain ⟨port, number, rfl⟩ := map_eq_ok.mp taken
    exact .inr (.inr (.inr (.inl ⟨port, isPort, number, rfl⟩)))
  · cases known
    obtain ⟨x, number, rfl⟩ := map_eq_ok.mp taken
    exact .inr (.inr (.inr (.inr (.inl ⟨x, isX, number, rfl⟩))))
  · cases known
    obtain ⟨y, number, rfl⟩ := map_eq_ok.mp taken
    exact .inr (.inr (.inr (.inr (.inr ⟨y, isY, number, rfl⟩))))

theorem apply_getD {α β : Type} {f : α → β} {v : α} {r : β} (first : f v = r) (o : Option α) :
    f (o.getD v) = o.elim r f := by
  cases o with
  | none => exact first
  | some => rfl

/-- Values given later are settled on what an assignment leaves. -/
theorem settled_cons {c : Arguments} {take : String → Except Fault Arguments} (known : a.assign p.1 = some take)
    (taken : take p.2 = .ok c) : Settled (p :: pairs) a b ↔ Settled pairs c b := by
  obtain ⟨flag, value⟩ := p
  rw [settled_iff, settled_iff, List.forall_mem_cons]
  simp only [given, Valid]
  rcases assign_cases known taken with ⟨rfl, rfl⟩ | ⟨rfl, rfl⟩ | ⟨rfl, rfl⟩ | ⟨port, rfl, number, rfl⟩ |
    ⟨x, rfl, number, rfl⟩ | ⟨y, rfl, number, rfl⟩
  · simp
  · simp
  · simp
  · simp [number, apply_getD number]
  · simp [number, apply_getD number]
  · simp [number, apply_getD number]

theorem settled_nil : Settled [] a b ↔ b = a := by
  rw [settled_iff]
  obtain ⟨nodeType, name, ip, port, x, y⟩ := a
  obtain ⟨nodeType', name', ip', port', x', y'⟩ := b
  simp only [given, List.not_mem_nil, Option.getD_none, Option.elim_none, Except.ok.injEq, mk.injEq, Prod.mk.injEq]
  constructor
  · rintro ⟨-, rfl, rfl, rfl, rfl, rfl, rfl⟩
    simp
  · rintro ⟨rfl, rfl, rfl, rfl, rfl, rfl⟩
    simp

/-- What the loop reads of pairs of a flag and a value. -/
theorem read_pairs (a : Arguments) (pairs : List (String × String)) :
    a.read (pairs.flatMap fun p => [p.1, p.2]) = .ok (some b) ↔ Settled pairs a b := by
  induction pairs generalizing a with
  | nil =>
    rw [settled_nil, List.flatMap_nil, read, Except.ok.injEq, Option.some.injEq, eq_comm]
  | cons p pairs ih =>
    rw [List.flatMap_cons, List.cons_append, read]
    cases known : a.assign p.1 with
    | none =>
      refine iff_of_false (fun impossible => nomatch impossible) fun settled => ?_
      obtain ⟨take, c, found, -⟩ := assign_of_valid (settled.valid p List.mem_cons_self)
      rw [known] at found
      cases found
    | some take =>
      cases taken : take p.2 with
      | ok c => simpa only [List.cons_append, List.nil_append, taken, settled_cons known taken] using ih c
      | error fault =>
        simp only [List.cons_append, taken]
        refine iff_of_false (fun impossible => nomatch impossible) fun settled => ?_
        obtain ⟨take', c, found, result⟩ := assign_of_valid (settled.valid p List.mem_cons_self)
        rw [known] at found
        cases found
        rw [taken] at result
        cases result

/-- Whatever the loop reads are pairs of a flag and a value. -/
theorem pairs_of_read {args : List String} (run : a.read args = .ok (some b)) :
    ∃ pairs : List (String × String), args = pairs.flatMap fun p => [p.1, p.2] := by
  fun_induction read a args with
  | case1 => exact ⟨[], rfl⟩
  | case2 => cases run
  | case3 => cases run
  | case4 a flag take known value rest c taken ih =>
    obtain ⟨pairs, rfl⟩ := ih run
    exact ⟨(flag, value) :: pairs, rfl⟩
  | case5 => cases run

theorem stoi_ne_nullPointer (text : String) : stoi text ≠ .error .nullPointer := by
  unfold stoi
  intro null
  dsimp only at null
  split_ifs at null <;> cases null

theorem stod_ne_nullPointer (text : String) : stod text ≠ .error .nullPointer := by
  unfold stod
  intro null
  split at null
  · cases null
  · cases null
  · cases null

theorem assign_ne_nullPointer {take : String → Except Fault Arguments} {flag : String}
    (known : a.assign flag = some take) (value : String) : take value ≠ .error .nullPointer := by
  have mapped : ∀ {α : Type} {x : Except Fault α} (f : α → Arguments), x ≠ .error .nullPointer →
      x.map f ≠ .error .nullPointer := by
    intro α x f other null
    cases x with
    | error fault => exact other (by simpa [Except.map] using null)
    | ok => cases null
  unfold assign at known
  split_ifs at known
  · cases known
    exact nofun
  · cases known
    exact nofun
  · cases known
    exact nofun
  · cases known
    exact mapped _ (stoi_ne_nullPointer value)
  · cases known
    exact mapped _ (stod_ne_nullPointer value)
  · cases known
    exact mapped _ (stod_ne_nullPointer value)

/-- The loop does not read past its arguments where they come in twos. -/
theorem read_ne_nullPointer {args : List String} (even : args.length % 2 = 0) :
    a.read args ≠ .error .nullPointer := by
  fun_induction read a args with
  | case1 => exact nofun
  | case2 => exact nofun
  | case3 => cases even
  | case4 a flag take known value rest c taken ih =>
    rw [List.length_cons, List.length_cons] at even
    exact ih (by omega)
  | case5 a flag take known value rest fault taken =>
    intro null
    cases null
    exact assign_ne_nullPointer known value taken

end Reading
end Arguments
open Arguments

theorem length_pairs (pairs : List (String × String)) :
    (pairs.flatMap fun p => [p.1, p.2]).length = 2 * pairs.length := by
  induction pairs with
  | nil => rfl
  | cons p pairs ih =>
    rw [List.flatMap_cons, List.length_append, ih, List.length_cons, List.length_cons, List.length_cons, List.length_nil]
    omega

/-- The node of what was read; a ground node does not move. -/
theorem launch_of_read {program : String} {args : List String} {a : Arguments} (size : args.length = 12)
    (run : initial.read args = .ok (some a)) (id : String) (node : Node) :
    launch (program :: args) id = .ok (.node node) ↔ NodeType.fromString a.nodeType ≠ .unknown ∧
      node = ⟨NodeType.fromString a.nodeType, id, a.name, a.ip, a.port, a.coords⟩ := by
  have enough : ¬(program :: args).length ≠ 13 := by simp [size]
  rw [launch, if_neg enough, List.tail_cons, run, ok_bind]
  cases type : NodeType.fromString a.nodeType with
  | unknown => simp [pure, Except.pure, type]
  | ground => simp [pure, Except.pure, type, Node.updatePosition, eq_comm]
  | satellite => simp [pure, Except.pure, type, eq_comm]

/-- A node is started exactly for six pairs of a known flag and a value, in any order, whose numbers
can all be read; of every flag the last value counts. No argument is read that is not there. -/
theorem launch_eq_node_iff (argv : List String) (id : String) :
    (∀ node, launch argv id = .ok (.node node) ↔ ∃ program pairs a,
      argv = program :: pairs.flatMap (fun p => [p.1, p.2]) ∧ pairs.length = 6 ∧ Settled pairs initial a ∧
      NodeType.fromString a.nodeType ≠ .unknown ∧
      node = ⟨NodeType.fromString a.nodeType, id, a.name, a.ip, a.port, a.coords⟩) ∧
    launch argv id ≠ .error .nullPointer := by
  refine ⟨fun node => ⟨fun started => ?_, ?_⟩, fun null => ?_⟩
  · by_cases size : argv.length = 13
    · obtain ⟨program, args, rfl⟩ := List.exists_cons_of_length_eq_add_one size
      have few : args.length = 12 := by simpa using size
      cases run : initial.read args with
      | error fault =>
        rw [launch, if_neg (not_not.mpr size), List.tail_cons, run] at started
        cases started
      | ok found =>
        cases found with
        | none =>
          rw [launch, if_neg (not_not.mpr size), List.tail_cons, run] at started
          cases started
        | some a =>
          obtain ⟨pairs, rfl⟩ := pairs_of_read run
          rw [length_pairs] at few
          exact ⟨program, pairs, a, rfl, by omega, (read_pairs initial pairs).mp run,
            (launch_of_read (by rw [length_pairs, few]) run id node).mp started⟩
    · rw [launch, if_pos size] at started
      cases started
  · rintro ⟨program, pairs, a, rfl, six, settled, type⟩
    exact (launch_of_read (by rw [length_pairs, six]) ((read_pairs initial pairs).mpr settled) id node).mpr type
  · by_cases size : argv.length = 13
    · have even : argv.tail.length % 2 = 0 := by rw [List.length_tail, size]
      rw [launch, if_neg (not_not.mpr size)] at null
      cases run : initial.read argv.tail with
      | error fault =>
        rw [run] at null
        cases null
        exact read_ne_nullPointer even run
      | ok found =>
        rw [run] at null
        cases found with
        | none => cases null
        | some a =>
          rw [ok_bind] at null
          dsimp only at null
          split at null
          · cases null
          · cases null
          · cases null
    · rw [launch, if_pos size] at null
      cases null

end Nexus
