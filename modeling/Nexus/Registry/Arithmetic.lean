import Nexus.Registry.AsMap

namespace Nexus
open Entries

/-- The nearest integer, of two the one further from zero. -/
def roundHalfAway (q : ℚ) : ℤ := if 0 ≤ q then ⌊q + 1 / 2⌋ else ⌈q - 1 / 2⌉

theorem round_finite (q : ℚ) : (Binary64.finite q).round = .finite (roundHalfAway q) := rfl

theorem roundHalfAway_near {q : ℚ} {k : ℤ} (near : |q - k| < 1 / 2) : roundHalfAway q = k := by
  obtain ⟨lower, upper⟩ := abs_lt.mp near
  unfold roundHalfAway
  split
  · rw [Int.floor_eq_iff]
    constructor <;> linarith
  · rw [Int.ceil_eq_iff]
    constructor <;> linarith

theorem roundHalfAway_intCast (k : ℤ) : roundHalfAway k = k :=
  roundHalfAway_near (by rw [sub_self, abs_zero]; norm_num)

/-- A multiple of 0.01. -/
def Hundredths (q : ℚ) : Prop := ∃ k : ℤ, q = k / 100

theorem rounded_hundredths (q : ℚ) : Hundredths (roundHalfAway (q * 100) / 100) :=
  ⟨roundHalfAway (q * 100), rfl⟩

theorem rounded_eq_iff (q : ℚ) : (roundHalfAway (q * 100) : ℚ) / 100 = q ↔ Hundredths q := by
  constructor
  · intro same
    exact same ▸ rounded_hundredths q
  · rintro ⟨k, rfl⟩
    rw [div_mul_cancel₀ _ (by norm_num), roundHalfAway_intCast]

section Doubles
open Binary64
variable {k : ℤ}

theorem nearest_hundredths (nonzero : k ≠ 0) : |nearest (k / 100) * 100 - k| ≤ |(k : ℚ)| / 2 ^ 53 := by
  have least : (1 : ℚ) ≤ |(k : ℚ)| := by exact_mod_cast Int.one_le_abs nonzero
  have size : |(k : ℚ) / 100| = |(k : ℚ)| / 100 := by rw [abs_div, abs_of_pos (by norm_num : (0 : ℚ) < 100)]
  have large : 1 / 128 ≤ |(k : ℚ) / 100| := by
    rw [size]
    linarith
  have error := nearest_error_le large
  have factor : nearest (k / 100) * 100 - k = (nearest (k / 100) - k / 100) * 100 := by ring
  rw [factor, abs_mul, abs_of_pos (by norm_num : (0 : ℚ) < 100)]
  rw [size] at error
  linarith

/-- Multiplied by 100, the double nearest to a multiple of 0.01 is close to an integer again. -/
theorem nearest_scaled_hundredths (nonzero : k ≠ 0) (small : |k| ≤ 2 ^ 50) :
    |nearest (nearest (k / 100) * 100) - k| < 1 / 2 := by
  have least : (1 : ℚ) ≤ |(k : ℚ)| := by exact_mod_cast Int.one_le_abs nonzero
  have most : |(k : ℚ)| ≤ 2 ^ 50 := by exact_mod_cast small
  have first := nearest_hundredths nonzero
  have above := abs_sub_abs_le_abs_sub (nearest (k / 100) * 100) (k : ℚ)
  have below := abs_sub_abs_le_abs_sub (k : ℚ) (nearest (k / 100) * 100)
  rw [abs_sub_comm] at below
  have large : 1 / 128 ≤ |nearest (k / 100) * 100| := by linarith
  have second := nearest_error_le large
  have triangle := abs_sub_le (nearest (nearest (k / 100) * 100)) (nearest (k / 100) * 100) (k : ℚ)
  linarith

/-- The double nearest to a multiple of 0.01 is registered as it is. -/
theorem roundToTwoDecimalPlaces_hundredths (small : |k| ≤ 2 ^ 50) :
    roundToTwoDecimalPlaces (ofRat (k / 100)) = ofRat (k / 100) := by
  rcases eq_or_ne k 0 with rfl | nonzero
  · rw [Int.cast_zero, zero_div, ofRat_zero]
    exact_mod_cast roundToTwoDecimalPlaces_natCast (by norm_num : 0 * 100 < 2 ^ 53)
  have most : |(k : ℚ)| ≤ 2 ^ 50 := by exact_mod_cast small
  have first := nearest_hundredths nonzero
  have second := nearest_scaled_hundredths nonzero small
  have value : ofRat (k / 100) = finite (nearest (k / 100)) := by
    refine ofRat_of_lt ?_
    have bound := abs_sub_abs_le_abs_sub (nearest (k / 100) * 100) (k : ℚ)
    rw [abs_mul, abs_of_pos (by norm_num : (0 : ℚ) < 100)] at bound
    linarith
  have product : ofRat (nearest (k / 100) * 100) = finite (nearest (nearest (k / 100) * 100)) := by
    refine ofRat_of_lt ?_
    have bound := abs_sub_abs_le_abs_sub (nearest (nearest (k / 100) * 100)) (k : ℚ)
    linarith
  calc roundToTwoDecimalPlaces (ofRat (k / 100))
      = (finite (nearest (nearest (k / 100) * 100))).round.div (finite 100) := by
        rw [value, roundToTwoDecimalPlaces, mul, product]
    _ = (finite k).div (finite 100) := by rw [round_finite, roundHalfAway_near second]
    _ = ofRat (k / 100) := by rw [div, if_pos (by norm_num)]

/-- Other doubles are not: 0.125 is not what a node with it is registered with. -/
example : roundToTwoDecimalPlaces (finite (1 / 8)) ≠ finite (1 / 8) := by decide +kernel

end Doubles

namespace NexusRegistryServer

/-- How the server computes with a coordinate: `std::stod` of its text, `asDouble` and the rounding. -/
structure Arithmetic where
  ofText : Json → Except Fault Binary64
  ofNumber : Json → Except Fault Binary64
  roundToTwoDecimalPlaces : Binary64 → Binary64

/-- The arithmetic of `double`. -/
def Arithmetic.double (lib : Jsoncpp) : Arithmetic where
  ofText v := do
    let text ← v.asString lib
    stod text
  ofNumber := Json.asDouble
  roundToTwoDecimalPlaces := Nexus.roundToTwoDecimalPlaces

/-- The arithmetic of exact rationals, in which a number is its own text. -/
def Arithmetic.exact (lib : Jsoncpp) : Arithmetic where
  ofText
    | .int n => .ok (.finite n)
    | .real v => .ok v
    | v => do
      let text ← v.asString lib
      match FloatText.decimalValue text.toList with
      | some q => .ok (.finite q)
      | none => .error (.thrown "stod")
  ofNumber
    | .int n => .ok (.finite n)
    | v => v.asDouble
  roundToTwoDecimalPlaces
    | .finite q => .finite (roundHalfAway (q * 100) / 100)
    | v => v

section Handling
variable (arithmetic : Arithmetic) (lib : Jsoncpp)

/-- `registeredNode` over an arithmetic. -/
def registeredWith (root : Json) : Except Fault NodeInfo := do
  let x ← arithmetic.ofText (← root.member "x")
  let y ← arithmetic.ofText (← root.member "y")
  let coords := (arithmetic.roundToTwoDecimalPlaces x, arithmetic.roundToTwoDecimalPlaces y)
  let type ← stringMember lib root "type"
  let name ← stringMember lib root "name"
  let ip ← stringMember lib root "ip"
  let port ← intMember root "port"
  let publicKey ← stringMember lib root "publicKey"
  pure ⟨type, name, ip, coords, port, publicKey⟩

/-- `updatedNode` over an arithmetic. -/
def updatedWith (root : Json) : Except Fault NodeInfo := do
  let type ← stringMember lib root "type"
  let name ← stringMember lib root "name"
  let ip ← stringMember lib root "ip"
  let x ← arithmetic.ofNumber (← root.member "x")
  let y ← arithmetic.ofNumber (← root.member "y")
  let port ← intMember root "port"
  let publicKey ← stringMember lib root "publicKey"
  pure ⟨type, name, ip, (x, y), port, publicKey⟩

/-- `processRequest` over an arithmetic. -/
def handle (nodes : List NodeInfo) (request : String) : Except Fault (String × List NodeInfo) :=
  match lib.parse request with
  | none => processRequest lib nodes request
  | some root => do
    let action ← stringMember lib root "action"
    if action = "register" then
      let node ← registeredWith arithmetic lib root
      pure ("\x7b\"message\": \"Node registered successfully\"\x7d", registerNode nodes node)
    else if action = "update" then
      let node ← updatedWith arithmetic lib root
      pure ("\x7b\"message\":\"Node updated successfully\"\x7d", updateNode node nodes)
    else processRequest lib nodes request

/-- The list that requests leave. -/
def handleAll (nodes : List NodeInfo) (requests : List String) : Except Fault (List NodeInfo) :=
  requests.foldlM (fun nodes request => do
    let (_, nodes) ← handle arithmetic lib nodes request
    pure nodes) nodes

theorem registeredWith_double (root : Json) : registeredWith (.double lib) lib root = registeredNode lib root := by
  simp only [registeredWith, registeredNode, stringMember, Arithmetic.double, bind_assoc]

theorem updatedWith_double (root : Json) : updatedWith (.double lib) lib root = updatedNode lib root := by
  simp only [updatedWith, updatedNode, doubleMember, Arithmetic.double, bind_assoc]

end Handling

section Actions
variable {arithmetic : Arithmetic} {lib : Jsoncpp} {request : String} {root : Json}

theorem handle_register (parsed : lib.parse request = some root)
    (action : stringMember lib root "action" = .ok "register") (nodes : List NodeInfo) :
    handle arithmetic lib nodes request = (registeredWith arithmetic lib root).map fun node =>
      ("\x7b\"message\": \"Node registered successfully\"\x7d", registerNode nodes node) := by
  simp only [handle, parsed, action]
  cases registeredWith arithmetic lib root with
  | ok node => rfl
  | error fault => rfl

theorem handle_update (parsed : lib.parse request = some root)
    (action : stringMember lib root "action" = .ok "update") (nodes : List NodeInfo) :
    handle arithmetic lib nodes request = (updatedWith arithmetic lib root).map fun node =>
      ("\x7b\"message\":\"Node updated successfully\"\x7d", updateNode node nodes) := by
  simp only [handle, parsed, action]
  cases updatedWith arithmetic lib root with
  | ok node => rfl
  | error fault => rfl

/-- The request neither registers nor updates a node. -/
def NoCoordinates (lib : Jsoncpp) (request : String) : Prop :=
  ∀ root, lib.parse request = some root →
    stringMember lib root "action" ≠ .ok "register" ∧ stringMember lib root "action" ≠ .ok "update"

theorem exists_coordinates (others : ¬NoCoordinates lib request) :
    ∃ root, lib.parse request = some root ∧
      (stringMember lib root "action" = .ok "register" ∨ stringMember lib root "action" = .ok "update") := by
  by_contra none
  refine others fun root parsed => ⟨fun register => ?_, fun update => ?_⟩
  · exact none ⟨root, parsed, Or.inl register⟩
  · exact none ⟨root, parsed, Or.inr update⟩

/-- No other request depends on the arithmetic. -/
theorem handle_other (other : NoCoordinates lib request) (nodes : List NodeInfo) :
    handle arithmetic lib nodes request = processRequest lib nodes request := by
  cases parsed : lib.parse request with
  | none => simp only [handle, parsed]
  | some root =>
    obtain ⟨notRegister, notUpdate⟩ := other root parsed
    cases action : stringMember lib root "action" with
    | error fault =>
      rw [processRequest_fails parsed action]
      simp only [handle, parsed, action]
      rfl
    | ok name =>
      rw [action] at notRegister notUpdate
      have register : name ≠ "register" := fun same => notRegister (congrArg Except.ok same)
      have update : name ≠ "update" := fun same => notUpdate (congrArg Except.ok same)
      simp only [handle, parsed, action, ok_bind, if_neg register, if_neg update]

/-- Over the arithmetic of `double` this is the server. -/
theorem handle_double (nodes : List NodeInfo) :
    handle (.double lib) lib nodes request = processRequest lib nodes request := by
  by_cases other : NoCoordinates lib request
  · exact handle_other other nodes
  · obtain ⟨root, parsed, register | update⟩ := exists_coordinates other
    · rw [handle_register parsed register, processRequest_register parsed register, registeredWith_double]
    · rw [handle_update parsed update, processRequest_update parsed update, updatedWith_double]

/-- Requests that neither register nor update bring no entry into the list. -/
theorem processRequest_other (other : NoCoordinates lib request) {response : String} {nodes nodes' : List NodeInfo}
    (answered : processRequest lib nodes request = .ok (response, nodes')) : nodes' ⊆ nodes := by
  cases parsed : lib.parse request with
  | none =>
    rw [processRequest_unparsed parsed] at answered
    cases answered
    exact List.Subset.refl nodes
  | some root =>
    obtain ⟨notRegister, notUpdate⟩ := other root parsed
    cases action : stringMember lib root "action" with
    | error fault =>
      rw [processRequest_fails parsed action] at answered
      cases answered
    | ok name =>
      rw [action, ne_eq, Except.ok.injEq] at notRegister notUpdate
      by_cases deregister : name = "deregister"
      · rw [processRequest_deregister parsed (deregister ▸ action)] at answered
        obtain ⟨gone, _, same⟩ := map_eq_ok.mp answered
        cases same
        exact fun node member => (List.mem_filter.mp member).1
      by_cases list : name = "list"
      · rw [processRequest_list parsed (list ▸ action)] at answered
        cases answered
        exact List.Subset.refl nodes
      by_cases getPublicKey : name = "getPublicKey"
      · rw [processRequest_getPublicKey parsed (getPublicKey ▸ action)] at answered
        obtain ⟨asked, _, same⟩ := map_eq_ok.mp answered
        cases same
        exact List.Subset.refl nodes
      have unknown : name ∉ ["register", "deregister", "list", "update", "getPublicKey"] := by
        simp [notRegister, deregister, list, notUpdate, getPublicKey]
      rw [processRequest_unknown parsed action unknown] at answered
      cases answered
      exact List.Subset.refl nodes

/-- Where the numbers are the doubles nearest to multiples of 0.01, and are written so that they read back, a node is
registered and updated alike. -/
theorem registeredNode_eq_updatedNode {x y : ℤ} (smallX : |x| ≤ 2 ^ 50) (smallY : |y| ≤ 2 ^ 50)
    (memberX : root.member "x" = .ok (.real (.ofRat (x / 100))))
    (memberY : root.member "y" = .ok (.real (.ofRat (y / 100))))
    (writtenX : stod (lib.realToString (.ofRat (x / 100))) = .ok (.ofRat (x / 100)))
    (writtenY : stod (lib.realToString (.ofRat (y / 100))) = .ok (.ofRat (y / 100))) :
    registeredNode lib root = updatedNode lib root := by
  rw [← registeredWith_double, ← updatedWith_double]
  simp only [registeredWith, updatedWith, memberX, memberY, ok_bind, Arithmetic.double, Json.asString, writtenX,
    writtenY, Json.asDouble, roundToTwoDecimalPlaces_hundredths smallX, roundToTwoDecimalPlaces_hundredths smallY]

end Actions
end NexusRegistryServer
end Nexus
