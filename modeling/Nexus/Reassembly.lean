import Nexus.Node
import Nexus.Collect

namespace Nexus
open Numeral Collect
namespace Node

/-- Packets that a node processes one after another, with the content that each of them wrote. -/
def processAll (host : ByteOrder) (tmp : Directory) : List Packet → Directory × List (Option (List UInt8))
  | [] => (tmp, [])
  | pkt :: rest =>
    let first := processMessage host tmp pkt
    let later := processAll host first.tmp rest
    (later.1, first.written :: later.2)

section Names
variable {sAddress : UInt32} {sPort : UInt16}

theorem fragmentFile_inj {sender : FileName} {i j : Nat} :
    fragmentFile sender i = fragmentFile sender j ↔ i = j := by
  unfold fragmentFile
  rw [List.append_cancel_left_eq, List.cons.injEq, decimal_inj]
  exact and_iff_right rfl

theorem prefix_fragmentFile (sender : FileName) (i : Nat) : sender <+: fragmentFile sender i :=
  List.prefix_append _ _

/-- A reassembled file is not counted as a fragment. -/
theorem not_prefix_finalFile (sAddress : UInt32) (sPort : UInt16) (sender : FileName) :
    ¬senderPrefix sAddress sPort <+: finalFile sender := by
  intro start
  obtain ⟨digit, digits, number⟩ := List.exists_cons_of_ne_nil (decimal_ne_nil sAddress.toNat)
  have isDigit : digit.isDigit := isDigit_of_mem (number ▸ List.mem_cons_self)
  rw [senderPrefix, number] at start
  have first : digit = 'f' := (List.cons_prefix_cons.mp start).1
  rw [first] at isDigit
  revert isDigit
  decide

theorem fragmentFile_ne_finalFile (i : Nat) (sender : FileName) :
    fragmentFile (senderPrefix sAddress sPort) i ≠ finalFile sender := fun same =>
  not_prefix_finalFile sAddress sPort sender (same ▸ prefix_fragmentFile _ i)

end Names

/-- The files whose names start like those of a sender's fragments are the pieces that are kept. -/
structure Holds (tmp : Directory) (sender : FileName) (s : Slots Buffer) : Prop where
  kept : ∀ i, tmp.lookup (fragmentFile sender i) = (s.lookup i).map Buffer.bytes
  only : ∀ name ∈ tmp, sender <+: name → ∃ i, name = fragmentFile sender i

/-- What a packet brings to its receiver. -/
def piece (pkt : Packet) : Piece Buffer := ⟨pkt.fragmentNumber.toNat, pkt.fragmentCount.toNat, pkt.data⟩

def contents (whole : List Buffer) : List UInt8 := whole.flatMap Buffer.bytes

section Refinement
variable {tmp : Directory} {sender : FileName} {s : Slots Buffer}

theorem empty_clean (sender : FileName) : ∀ name ∈ (∅ : Directory), ¬sender <+: name :=
  fun _ member => (Finmap.notMem_empty member).elim

theorem Holds.empty (clean : ∀ name ∈ tmp, ¬sender <+: name) : Holds tmp sender ∅ where
  kept i := by
    rw [Finmap.lookup_empty, Option.map_none, Finmap.lookup_eq_none]
    exact fun member => clean _ member (prefix_fragmentFile sender i)
  only name member start := (clean name member start).elim

theorem Holds.clean (holds : Holds tmp sender ∅) : ∀ name ∈ tmp, ¬sender <+: name := by
  intro name member start
  obtain ⟨i, rfl⟩ := holds.only name member start
  have none := holds.kept i
  rw [Finmap.lookup_empty, Option.map_none, Finmap.lookup_eq_none] at none
  exact none member

theorem Holds.insert (holds : Holds tmp sender s) (i : Nat) (data : Buffer) :
    Holds (tmp.insert (fragmentFile sender i) data.bytes) sender (s.insert i data) where
  kept j := by
    by_cases here : j = i
    · rw [here, Finmap.lookup_insert, Finmap.lookup_insert, Option.map_some]
    · have different : fragmentFile sender j ≠ fragmentFile sender i := fun same => here (fragmentFile_inj.mp same)
      rw [Finmap.lookup_insert_of_ne _ different, Finmap.lookup_insert_of_ne _ here, holds.kept]
  only name member start := by
    rcases Finmap.mem_insert.mp member with rfl | old
    · exact ⟨i, rfl⟩
    · exact holds.only name old start

theorem Holds.erase (holds : Holds tmp sender s) (i : Nat) :
    Holds (tmp.erase (fragmentFile sender i)) sender (s.erase i) where
  kept j := by
    by_cases here : j = i
    · rw [here, Finmap.lookup_erase, Finmap.lookup_erase, Option.map_none]
    · have different : fragmentFile sender j ≠ fragmentFile sender i := fun same => here (fragmentFile_inj.mp same)
      rw [Finmap.lookup_erase_ne different, Finmap.lookup_erase_ne here, holds.kept]
  only name member start := holds.only name (Finmap.mem_erase.mp member).2 start

/-- A file with another start to its name does not matter. -/
theorem Holds.insert_other (holds : Holds tmp sender s) {name : FileName} (other : ¬sender <+: name)
    (bytes : List UInt8) : Holds (tmp.insert name bytes) sender s where
  kept i := by
    have different : fragmentFile sender i ≠ name := fun same => other (same ▸ prefix_fragmentFile sender i)
    rw [Finmap.lookup_insert_of_ne _ different, holds.kept]
  only name' member start := by
    rcases Finmap.mem_insert.mp member with rfl | old
    · exact (other start).elim
    · exact holds.only name' old start

theorem Holds.countFiles_eq (holds : Holds tmp sender s) : countFiles tmp sender = s.keys.card := by
  have files : (tmp.keys.filter fun name => sender <+: name) = s.keys.image (fragmentFile sender) := by
    ext name
    rw [Finset.mem_filter, Finset.mem_image, Finmap.mem_keys]
    constructor
    · intro ⟨member, start⟩
      obtain ⟨i, rfl⟩ := holds.only name member start
      obtain ⟨bytes, present⟩ := Finmap.mem_iff.mp member
      rw [holds.kept, Option.map_eq_some_iff] at present
      obtain ⟨data, kept, _⟩ := present
      exact ⟨i, Finmap.mem_keys.mpr (Finmap.mem_of_lookup_eq_some kept), rfl⟩
    · intro ⟨i, member, same⟩
      obtain ⟨data, kept⟩ := Finmap.mem_iff.mp (Finmap.mem_keys.mp member)
      have present := holds.kept i
      rw [kept, Option.map_some] at present
      exact same ▸ ⟨Finmap.mem_of_lookup_eq_some present, prefix_fragmentFile sender i⟩
  rw [countFiles, files, Finset.card_image_of_injective _ fun i j same => fragmentFile_inj.mp same]

/-- The loop of `reassembleFile` gathers the pieces and gives them up. -/
theorem Holds.loop (holds : Holds tmp sender s) (k : Nat) :
    ∃ tmp', (List.range k).foldl (appendFragment sender) (tmp, ⟨[], true⟩) =
      (tmp', ⟨contents (gather s k).1, (gather s k).2⟩) ∧ Holds tmp' sender (clear s k) := by
  induction k with
  | zero => exact ⟨tmp, rfl, holds⟩
  | succ k ih =>
    obtain ⟨tmp', run, holds'⟩ := ih
    refine ⟨tmp'.erase (fragmentFile sender (k + 1)), ?_, holds'.erase (k + 1)⟩
    have next : tmp'.lookup (fragmentFile sender (k + 1)) = (s.lookup (k + 1)).map Buffer.bytes := by
      rw [holds'.kept, lookup_clear, if_neg (by omega)]
    rw [List.range_succ, List.foldl_append, run, List.foldl_cons, List.foldl_nil, appendFragment, next, gather]
    cases whole : (gather s k).2 with
    | false => simp only [OutputFile.insert, Bool.false_eq_true, if_false, whole]
    | true =>
      cases s.lookup (k + 1) with
      | none => rfl
      | some data =>
        obtain ⟨byte, bytes, nonempty⟩ := data.exists_cons
        simp only [OutputFile.insert, Option.map_some, nonempty, if_true, contents, List.flatMap_append,
          List.flatMap_singleton]

/-- Processing a packet of a sender refines the arrival of its piece. -/
theorem Holds.process {pkt : Packet} (holds : Holds tmp (senderPrefix pkt.sAddress pkt.sPort) s)
    (file : pkt.type = .file) (host : ByteOrder) :
    Holds (processMessage host tmp pkt).tmp (senderPrefix pkt.sAddress pkt.sPort) (arrive s (piece pkt)).1 ∧
      (processMessage host tmp pkt).written = (arrive s (piece pkt)).2.map contents := by
  have written : Holds (writeToFile tmp pkt) (senderPrefix pkt.sAddress pkt.sPort) (keep s (piece pkt)) :=
    holds.insert pkt.fragmentNumber.toNat pkt.data
  have count := written.countFiles_eq
  simp only [processMessage, if_pos file, reassembleFile, count]
  by_cases complete : (keep s (piece pkt)).keys.card = pkt.fragmentCount.toNat
  · have arrived : arrive s (piece pkt) = _ := if_pos complete
    obtain ⟨tmp', run, left⟩ := written.loop pkt.fragmentCount.toNat
    have other := not_prefix_finalFile pkt.sAddress pkt.sPort (senderPrefix pkt.sAddress pkt.sPort)
    rw [if_neg (not_not_intro complete), complete, run, arrived]
    exact ⟨left.insert_other other _, rfl⟩
  · have arrived : arrive s (piece pkt) = _ := if_neg complete
    rw [if_pos complete, arrived]
    exact ⟨written, rfl⟩

theorem lookup_finalFile {host : ByteOrder} {pkt : Packet} {content : List UInt8}
    (written : (processMessage host tmp pkt).written = some content) :
    (processMessage host tmp pkt).tmp.lookup (finalFile (senderPrefix pkt.sAddress pkt.sPort)) = some content := by
  unfold processMessage reassembleFile at written ⊢
  by_cases file : pkt.type = .file
  · simp only [if_pos file] at written ⊢
    split at written
    · cases written
    · rename_i complete
      rw [if_neg complete, ← written]
      exact Finmap.lookup_insert _
  · simp only [if_neg file] at written
    cases written

theorem processAll_append (host : ByteOrder) (tmp : Directory) (pkts rest : List Packet) :
    processAll host tmp (pkts ++ rest) =
      ((processAll host (processAll host tmp pkts).1 rest).1,
        (processAll host tmp pkts).2 ++ (processAll host (processAll host tmp pkts).1 rest).2) := by
  induction pkts generalizing tmp with
  | nil => rfl
  | cons pkt pkts ih => simp only [List.cons_append, processAll, ih]

/-- A FILE packet of the sender. -/
structure FileOf (sAddress : UInt32) (sPort : UInt16) (pkt : Packet) : Prop where
  file : pkt.type = .file
  sAddress : pkt.sAddress = sAddress
  sPort : pkt.sPort = sPort

variable {sAddress : UInt32} {sPort : UInt16}

/-- What the last packet wrote is still in the final file. -/
theorem lookup_of_written {host : ByteOrder} {init : List Packet} {last : Packet}
    (ofSender : FileOf sAddress sPort last)
    {earlier : List (Option (List UInt8))} {content : List UInt8}
    (writes : (processAll host tmp (init ++ [last])).2 = earlier ++ [some content]) :
    (processAll host tmp (init ++ [last])).1.lookup (finalFile (senderPrefix sAddress sPort)) = some content := by
  rw [processAll_append] at writes ⊢
  obtain ⟨_, atLast⟩ := List.append_inj' writes rfl
  have written : (processMessage host (Node.processAll host tmp init).1 last).written = some content :=
    (List.cons.inj atLast).1
  obtain ⟨_, rfl, rfl⟩ := ofSender
  exact lookup_finalFile written

theorem Holds.processAll {pkts : List Packet} (holds : Holds tmp (senderPrefix sAddress sPort) s)
    (all : ∀ pkt ∈ pkts, FileOf sAddress sPort pkt) (host : ByteOrder) :
    Holds (processAll host tmp pkts).1 (senderPrefix sAddress sPort) (arriveAll s (pkts.map piece)).1 ∧
      (Node.processAll host tmp pkts).2 = (arriveAll s (pkts.map piece)).2.map (Option.map contents) := by
  induction pkts generalizing tmp s with
  | nil => exact ⟨holds, rfl⟩
  | cons pkt pkts ih =>
    obtain ⟨file, rfl, rfl⟩ := all pkt List.mem_cons_self
    obtain ⟨next, written⟩ := holds.process file host
    obtain ⟨last, later⟩ := ih next fun other member => all other (List.mem_cons_of_mem pkt member)
    simp only [Node.processAll, List.map_cons, arriveAll, written, later]
    exact ⟨last, trivial⟩

end Refinement

section OneFile
variable {tmp : Directory} {sAddress : UInt32} {sPort : UInt16} {fragments : List Buffer}
  {init : List Packet} {last : Packet}

/-- A FILE packet with one of the fragments that a file is cut into. -/
structure Carries (sAddress : UInt32) (sPort : UInt16) (fragments : List Buffer) (pkt : Packet) : Prop
    extends FileOf sAddress sPort pkt where
  count : pkt.fragmentCount.toNat = fragments.length
  data : ∃ i, pkt.fragmentNumber.toNat = i + 1 ∧ fragments[i]? = some pkt.data

theorem Holds.complete (holds : Holds tmp (senderPrefix sAddress sPort) ∅) (host : ByteOrder)
    (carried : ∀ pkt ∈ init ++ [last], Carries sAddress sPort fragments pkt)
    (every : ∀ i, i < fragments.length → ∃ pkt ∈ init ++ [last], pkt.fragmentNumber.toNat = i + 1)
    (fresh : ∀ pkt ∈ init, pkt.fragmentNumber ≠ last.fragmentNumber) :
    (Node.processAll host tmp (init ++ [last])).2 = (init.map fun _ => none) ++ [some (contents fragments)] ∧
      Holds (Node.processAll host tmp (init ++ [last])).1 (senderPrefix sAddress sPort) ∅ := by
  obtain ⟨left, writes⟩ := holds.processAll (fun pkt member => (carried pkt member).toFileOf) host
  have whole : arriveAll ∅ (init.map piece ++ [piece last]) =
      (∅, ((init.map piece).map fun _ => none) ++ [some fragments]) := by
    apply arriveAll_complete
    · intro part member
      rw [← List.map_singleton, ← List.map_append] at member
      obtain ⟨pkt, among, rfl⟩ := List.mem_map.mp member
      exact ⟨(carried pkt among).count, (carried pkt among).data⟩
    · intro i inside
      obtain ⟨pkt, among, number⟩ := every i inside
      rw [← List.map_singleton, ← List.map_append]
      exact ⟨piece pkt, List.mem_map_of_mem among, number⟩
    · intro part member
      obtain ⟨pkt, among, rfl⟩ := List.mem_map.mp member
      exact fun same => fresh pkt among (UInt16.toNat_inj.mp same)
  rw [List.map_append, List.map_singleton, whole] at left writes
  refine ⟨?_, left⟩
  rw [writes]
  simp only [List.map_append, List.map_map, List.map_singleton, Option.map_some]
  rfl

/-- Whatever the order of arrival and the repetitions before the last missing fragment, the file is
written once, with its fragments in order, and no fragment stays on disk. -/
theorem processAll_reassembles (host : ByteOrder) (tmp : Directory) (sAddress : UInt32) (sPort : UInt16)
    (fragments : List Buffer) (init : List Packet) (last : Packet)
    (clean : ∀ name ∈ tmp, ¬senderPrefix sAddress sPort <+: name)
    (carried : ∀ pkt ∈ init ++ [last], Carries sAddress sPort fragments pkt)
    (every : ∀ i, i < fragments.length → ∃ pkt ∈ init ++ [last], pkt.fragmentNumber.toNat = i + 1)
    (fresh : ∀ pkt ∈ init, pkt.fragmentNumber ≠ last.fragmentNumber) :
    ∃ tmp', processAll host tmp (init ++ [last]) =
        (tmp', (init.map fun _ => none) ++ [some (contents fragments)]) ∧
      tmp'.lookup (finalFile (senderPrefix sAddress sPort)) = some (contents fragments) ∧
      ∀ name ∈ tmp', ¬senderPrefix sAddress sPort <+: name := by
  obtain ⟨writes, left⟩ := Holds.complete (.empty clean) host carried every fresh
  have lastOne := (carried last (List.mem_append_right init List.mem_cons_self)).toFileOf
  exact ⟨_, Prod.ext rfl writes, lookup_of_written lastOne writes, left.clean⟩

/-- A packet of a file of two fragments, both of them zero. -/
def zeroFragment (number : UInt16) : Packet := Packet.addressed number 2 0x0100007F 1280 0x0100007F 1281 .file

/-- The second fragment comes first, and twice. -/
theorem processAll_reassembles_zeros :
    ∃ tmp', processAll .little ∅ ([zeroFragment 2, zeroFragment 2] ++ [zeroFragment 1]) =
        (tmp', ([zeroFragment 2, zeroFragment 2].map fun _ => none) ++ [some (contents [.zero, .zero])]) ∧
      tmp'.lookup (finalFile (senderPrefix 0x0100007F 1280)) = some (contents [.zero, .zero]) ∧
      ∀ name ∈ tmp', ¬senderPrefix 0x0100007F 1280 <+: name := by
  have carries : ∀ i, i < 2 → Carries 0x0100007F 1280 [.zero, .zero] (zeroFragment (UInt16.ofNat (i + 1))) := by
    intro i below
    obtain rfl | rfl : i = 0 ∨ i = 1 := by omega
    · exact ⟨⟨rfl, rfl, rfl⟩, rfl, 0, rfl, rfl⟩
    · exact ⟨⟨rfl, rfl, rfl⟩, rfl, 1, rfl, rfl⟩
  refine processAll_reassembles .little ∅ _ _ _ _ _ (empty_clean _) ?_ ?_ ?_
  · intro pkt member
    simp only [List.cons_append, List.nil_append, List.mem_cons, List.not_mem_nil, or_false, or_self_left] at member
    rcases member with rfl | rfl
    · exact carries 1 (by omega)
    · exact carries 0 (by omega)
  · intro i below
    obtain rfl | rfl : i = 0 ∨ i = 1 := by
      have two : i < 2 := below
      omega
    · exact ⟨zeroFragment 1, by simp, rfl⟩
    · exact ⟨zeroFragment 2, by simp, rfl⟩
  · intro pkt member
    simp only [List.mem_cons, List.not_mem_nil, or_false, or_self] at member
    rw [member]
    decide

end OneFile
end Node
end Nexus
