import Nexus.NodeList

namespace Nexus

namespace NetworkManager
variable (lib : Jsoncpp)

/-- The fields that an entry has to have. -/
def complete (members : List (String × Json)) : Bool :=
  (Json.lookup "name" members).isSome && (Json.lookup "ip" members).isSome && (Json.lookup "port" members).isSome

/-- Every field that is read is of a kind that the library converts; a missing one reads as its default. -/
def convertible (members : List (String × Json)) : Bool :=
  ((Json.lookup "x" members).getD (.real (.finite 0))).asDouble.isOk &&
    ((Json.lookup "y" members).getD (.real (.finite 0))).asDouble.isOk &&
    (((Json.lookup "type" members).getD .null).asString lib).isOk &&
    (((Json.lookup "name" members).getD .null).asString lib).isOk &&
    (((Json.lookup "ip" members).getD .null).asString lib).isOk &&
    ((Json.lookup "port" members).getD .null).asInt.isOk

/-- An entry that describes a node. -/
def wellFormed (entry : Json) : Bool :=
  match entry with
  | .object members => complete members && convertible lib members
  | _ => false

/-- The loop of `fetchNodesFromRegistry` over the entries of an array. -/
def mergeEntries (ids : Nat → String) (nm : NetworkManager) (entries : List Json) : Except Fault NetworkManager :=
  entries.zipIdx.foldlM (fetchEntry lib ids) nm

/-- The entries that describe nodes, each with its place in the array. -/
def kept (entries : List Json) : List (Json × Nat) := entries.zipIdx.filter fun entry => wellFormed lib entry.1

/-- The ids drawn for the nodes of an array, as they fall to the entries that are left without the others. -/
def idsKept (ids : Nat → String) (entries : List Json) (k : Nat) : String :=
  ids (((kept lib entries).map Prod.snd).getD k 0)

variable {lib} {ids : Nat → String} {nm : NetworkManager}

theorem isOk_iff {ε α : Type} {x : Except ε α} : x.isOk = true ↔ ∃ a, x = .ok a := by
  cases x with
  | error fault => simp [Except.isOk, Except.toBool]
  | ok a => simp [Except.isOk, Except.toBool]

theorem isOk_bind {ε α β : Type} {x : Except ε α} {f : α → Except ε β} {b : Bool} (rest : ∀ a, (f a).isOk = b) :
    (x >>= f).isOk = (x.isOk && b) := by
  cases x with
  | error fault => rfl
  | ok a => exact rest a

theorem parseNodeFromJson_incomplete {members : List (String × Json)} (missing : complete members = false)
    (id : String) : parseNodeFromJson lib id (.object members) = .ok none := by
  have skipped : (!(Json.lookup "name" members).isSome || !(Json.lookup "ip" members).isSome ||
      !(Json.lookup "port" members).isSome) = true := by
    rw [← Bool.not_and, ← Bool.not_and, Bool.not_eq_true']
    exact missing
  show (if _ then _ else _) = _
  rw [if_pos skipped]
  rfl

/-- A complete entry is read without an exception exactly when all its fields convert. -/
theorem isOk_parseNodeFromJson {members : List (String × Json)} (whole : complete members = true) (id : String) :
    (parseNodeFromJson lib id (.object members)).isOk = convertible lib members := by
  have present : (!(Json.lookup "name" members).isSome || !(Json.lookup "ip" members).isSome ||
      !(Json.lookup "port" members).isSome) = false := by
    rw [← Bool.not_and, ← Bool.not_and, Bool.not_eq_false']
    exact whole
  have read : parseNodeFromJson lib id (.object members) = (do
      let x ← ((Json.lookup "x" members).getD (.real (.finite 0))).asDouble
      let y ← ((Json.lookup "y" members).getD (.real (.finite 0))).asDouble
      let type ← ((Json.lookup "type" members).getD .null).asString lib
      let name ← ((Json.lookup "name" members).getD .null).asString lib
      let ip ← ((Json.lookup "ip" members).getD .null).asString lib
      let port ← ((Json.lookup "port" members).getD .null).asInt
      pure (some ⟨NodeType.fromString type, id, name, ip, port, (x, y)⟩)) := by
    show (if _ then _ else _) = _
    rw [if_neg (Bool.eq_false_iff.mp present)]
    rfl
  rw [read]
  refine (isOk_bind fun x => isOk_bind fun y => isOk_bind fun type => isOk_bind fun name => isOk_bind fun ip =>
    isOk_bind (b := true) fun port => rfl).trans ?_
  rw [convertible, Bool.and_true]
  simp only [Bool.and_assoc]

theorem readEntry_malformed {entry : Json × Nat} (malformed : wellFormed lib entry.1 = false)
    {found : Option Node} (read : readEntry lib ids entry = .ok found) : found = none := by
  obtain ⟨nodeJson, place⟩ := entry
  cases nodeJson with
  | object members =>
    cases whole : complete members with
    | false =>
      have skipped : readEntry lib ids (.object members, place) = .ok none := parseNodeFromJson_incomplete whole _
      exact (Except.ok.inj (skipped.symm.trans read)).symm
    | true =>
      have converted := @isOk_parseNodeFromJson lib members whole (ids place)
      have refused : convertible lib members = false := by
        simpa [wellFormed, whole] using malformed
      have fine : parseNodeFromJson lib (ids place) (.object members) = .ok found := read
      rw [fine, refused] at converted
      cases converted
  | _ => exact (Except.ok.inj read).symm

theorem isOk_readEntry (entry : Json × Nat) : (readEntry lib ids entry).isOk = true ↔
    ∀ members, entry.1 = .object members → complete members = true → convertible lib members = true := by
  obtain ⟨nodeJson, place⟩ := entry
  cases nodeJson with
  | object members =>
    constructor
    · intro fine members same whole
      cases same
      rw [← isOk_parseNodeFromJson whole (ids place)]
      exact fine
    · intro converts
      show (parseNodeFromJson lib (ids place) (.object members)).isOk = true
      cases whole : complete members with
      | false => rw [parseNodeFromJson_incomplete whole]; rfl
      | true => rw [isOk_parseNodeFromJson whole, converts members rfl whole]
  | _ => exact ⟨fun _ members other => (by cases other), fun _ => rfl⟩

/-- Entries that are skipped leave nothing behind. -/
theorem mapM_filter_reduceOption {entries : List (Json × Nat)} {found : List (Option Node)}
    (read : entries.mapM (readEntry lib ids) = .ok found) :
    ∃ found', (entries.filter fun entry => wellFormed lib entry.1).mapM (readEntry lib ids) = .ok found' ∧
      found'.reduceOption = found.reduceOption := by
  induction entries generalizing found with
  | nil => exact ⟨[], rfl, by cases read; rfl⟩
  | cons entry rest ih =>
    rw [List.mapM_cons] at read
    obtain ⟨first, here, read⟩ := bind_eq_ok.mp read
    obtain ⟨others, later, read⟩ := bind_eq_ok.mp read
    cases read
    obtain ⟨others', later', same⟩ := ih later
    cases formed : wellFormed lib entry.1 with
    | true =>
      refine ⟨first :: others', ?_, ?_⟩
      · rw [List.filter_cons, if_pos formed, List.mapM_cons, here, ok_bind, later', ok_bind]
        rfl
      · cases first with
        | none => exact same
        | some node => rw [List.reduceOption_cons_of_some, List.reduceOption_cons_of_some, same]
    | false =>
      obtain rfl := readEntry_malformed formed here
      exact ⟨others', by rw [List.filter_cons, if_neg (Bool.eq_false_iff.mp formed), later'], same⟩

theorem mapM_zipIdx {entries : List (Json × Nat)} {ids' : Nat → String} {n : Nat}
    (drawn : ∀ k entry, entries[k]? = some entry → ids' (n + k) = ids entry.2) :
    ((entries.map Prod.fst).zipIdx n).mapM (readEntry lib ids') = entries.mapM (readEntry lib ids) := by
  induction entries generalizing n with
  | nil => rw [List.map_nil, List.zipIdx_nil, List.mapM_nil, List.mapM_nil]
  | cons entry rest ih =>
    have first : readEntry lib ids' (entry.1, n) = readEntry lib ids entry := by
      have id := drawn 0 entry rfl
      unfold readEntry
      simp only [← id, Nat.add_zero]
    have later := ih (n := n + 1) fun k other member => by
      rw [Nat.add_assoc, Nat.add_comm 1 k]
      exact drawn (k + 1) other member
    rw [List.map_cons, List.zipIdx_cons, List.mapM_cons, List.mapM_cons, first, later]

theorem map_fst_kept (entries : List Json) : (kept lib entries).map Prod.fst = entries.filter (wellFormed lib) := by
  have places : (entries.zipIdx.map Prod.fst).filter (wellFormed lib) = (kept lib entries).map Prod.fst := List.filter_map
  rw [← places, List.zipIdx_map_fst]

/-- The loop over the entries that describe nodes reads what the whole loop keeps. -/
theorem mergeEntries_filter (nm : NetworkManager) (entries : List Json) :
    mergeEntries lib (idsKept lib ids entries) nm (entries.filter (wellFormed lib)) =
      (kept lib entries).mapM (readEntry lib ids) >>= fun found => .ok (nm.addNodes found.reduceOption) := by
  have drawn : ∀ k entry, (kept lib entries)[k]? = some entry → idsKept lib ids entries (0 + k) = ids entry.2 := by
    intro k entry member
    rw [idsKept, Nat.zero_add, List.getD_eq_getElem?_getD, List.getElem?_map, member]
    rfl
  rw [mergeEntries, ← map_fst_kept, foldlM_fetchEntry, mapM_zipIdx drawn]

theorem mergeEntries_ok {entries : List Json} {nm' : NetworkManager} (run : mergeEntries lib ids nm entries = .ok nm') :
    (∀ members, Json.object members ∈ entries → complete members = true → convertible lib members = true) ∧
      mergeEntries lib (idsKept lib ids entries) nm (entries.filter (wellFormed lib)) = .ok nm' := by
  rw [mergeEntries, foldlM_fetchEntry] at run
  obtain ⟨found, read, same⟩ := bind_eq_ok.mp run
  refine ⟨fun members member whole => ?_, ?_⟩
  · obtain ⟨k, atK⟩ := List.mem_iff_getElem?.mp member
    obtain ⟨node, _, fine⟩ := (mem_of_mapM read).1 (.object members, k) (List.mem_zipIdx_iff_getElem?.mpr atK)
    exact (isOk_readEntry (.object members, k)).mp (isOk_iff.mpr ⟨node, fine⟩) members rfl whole
  · obtain ⟨found', read', equal⟩ := mapM_filter_reduceOption read
    rw [mergeEntries_filter]
    refine bind_eq_ok.mpr ⟨found', read', ?_⟩
    rw [equal]
    exact same

/-- A loop over entries that all convert ends without an exception. -/
theorem mergeEntries_total {entries : List Json} (nm : NetworkManager) (converts : ∀ members,
    Json.object members ∈ entries → complete members = true → convertible lib members = true) :
    ∃ nm', mergeEntries lib ids nm entries = .ok nm' := by
  have each : ∀ entry ∈ entries.zipIdx, ∃ found, readEntry lib ids entry = .ok found := by
    intro entry member
    refine isOk_iff.mp ((isOk_readEntry entry).mpr fun members same whole => converts members ?_ whole)
    rw [← same]
    exact List.mem_of_getElem? (List.mem_zipIdx_iff_getElem?.mp member)
  obtain ⟨found, read⟩ := exists_mapM each
  exact ⟨_, by rw [mergeEntries, foldlM_fetchEntry, read, ok_bind]⟩

/-- Malformed entries leave the other entries alone exactly where no complete entry has a field that its
conversion refuses: what is missing is checked, what is of another kind is not, and its exception ends the loop. -/
theorem fetchNodesFromRegistry_cleaned_iff (lib : Jsoncpp) (ids : Nat → String) (nm : NetworkManager)
    (response : String) (entries : List Json) (parsed : lib.parse response = some (.array entries)) :
    (∃ nm', nm.fetchNodesFromRegistry lib ids response = .ok nm' ∧
      nm.mergeEntries lib (idsKept lib ids entries) (entries.filter (wellFormed lib)) = .ok nm') ↔
    ∀ members, Json.object members ∈ entries → complete members = true → convertible lib members = true := by
  have whole : nm.fetchNodesFromRegistry lib ids response = nm.mergeEntries lib ids entries := by
    rw [fetchNodesFromRegistry, parsed]
    rfl
  rw [whole]
  constructor
  · rintro ⟨nm', run, _⟩
    exact (mergeEntries_ok run).1
  · intro converts
    obtain ⟨nm', run⟩ := mergeEntries_total nm converts
    exact ⟨nm', run, (mergeEntries_ok run).2⟩

end NetworkManager

namespace refused
open NetworkManager

/-- A list of a number and a node without a type and coordinates. -/
def response (port : String) : String :=
  "[7,\x7b\"ip\":\"127.0.0.1\",\"name\":\"sat1\",\"port\":" ++ port ++ "\x7d]"

def entries (port : Json) : List Json :=
  [.int 7, .object [("ip", .string "127.0.0.1"), ("name", .string "sat1"), ("port", port)]]

/-- A library that reads such a list. -/
def library (text : String) (port : Json) : Jsoncpp :=
  ⟨fun s => if s = text then some (.array (entries port)) else none, fun _ => "null\n", fun _ => "0.0"⟩

def ids (k : Nat) : String := toString k

theorem parse_eq (text : String) (port : Json) : (library text port).parse text = some (.array (entries port)) :=
  if_pos rfl

theorem fetchNodesFromRegistry_cleaned_iff_number :
    let lib := library (response "33001") (.int 33001)
    (∃ nm', fresh.fetchNodesFromRegistry lib ids (response "33001") = .ok nm' ∧
      fresh.mergeEntries lib (idsKept lib ids (entries (.int 33001)))
        ((entries (.int 33001)).filter (wellFormed lib)) = .ok nm') ↔
    ∀ members, Json.object members ∈ entries (.int 33001) → complete members = true →
      convertible lib members = true :=
  fetchNodesFromRegistry_cleaned_iff _ ids fresh _ _ (parse_eq _ _)

/-- The port of the node is a text. -/
theorem not_fetchNodesFromRegistry_cleaned :
    let lib := library (response "\"33001\"") (.string "33001")
    ¬∃ nm', fresh.fetchNodesFromRegistry lib ids (response "\"33001\"") = .ok nm' ∧
      fresh.mergeEntries lib (idsKept lib ids (entries (.string "33001")))
        ((entries (.string "33001")).filter (wellFormed lib)) = .ok nm' := by
  rintro lib ⟨nm', run, _⟩
  have merged : fresh.mergeEntries lib ids (entries (.string "33001")) = .ok nm' := by
    rw [fetchNodesFromRegistry, parse_eq] at run
    exact run
  have converts := (mergeEntries_ok merged).1 _ (List.mem_cons_of_mem _ List.mem_cons_self) (by decide)
  exact Bool.false_ne_true converts

end refused
end Nexus
