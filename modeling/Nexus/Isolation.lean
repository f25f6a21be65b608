import Nexus.Reassembly

namespace Nexus
open Numeral Collect
namespace Node

section Names
variable {A A' : UInt32} {P P' : UInt16}

/-- The fragments of another sender are counted if its port starts with the digits of this one. -/
theorem prefix_fragmentFile_iff (i : Nat) :
    senderPrefix A P <+: fragmentFile (senderPrefix A' P') i ↔
      A = A' ∧ decimal P.toNat <+: decimal P'.toNat := by
  have noSeparator : ∀ n, '_' ∉ decimal n := notMem_decimal (by decide)
  unfold fragmentFile senderPrefix
  rw [List.append_assoc, List.cons_append, closed_prefix_closed (noSeparator _) (noSeparator _),
    prefix_append_cons (noSeparator _), decimal_inj, UInt32.toNat_inj]

theorem senderPrefix_inj : senderPrefix A P = senderPrefix A' P' ↔ A = A' ∧ P = P' := by
  have noSeparator : ∀ n, '_' ∉ decimal n := notMem_decimal (by decide)
  unfold senderPrefix
  rw [closed_inj (noSeparator _) (noSeparator _), decimal_inj, decimal_inj, UInt32.toNat_inj, UInt16.toNat_inj]

theorem finalFile_inj {sender sender' : FileName} : finalFile sender = finalFile sender' ↔ sender = sender' := by
  unfold finalFile
  rw [List.append_cancel_left_eq]

end Names

/-- The same files for a sender: those counted as its fragments, and the reassembled one. -/
def Agree (A : UInt32) (P : UInt16) (tmp tmp' : Directory) : Prop :=
  ∀ name, senderPrefix A P <+: name ∨ name = finalFile (senderPrefix A P) → tmp.lookup name = tmp'.lookup name

section OwnPackets
variable {A : UInt32} {P : UInt16} {tmp tmp' : Directory}

theorem Agree.insert (agree : Agree A P tmp tmp') (name : FileName) (bytes : List UInt8) :
    Agree A P (tmp.insert name bytes) (tmp'.insert name bytes) := by
  intro other concerns
  by_cases same : other = name
  · rw [same, Finmap.lookup_insert, Finmap.lookup_insert]
  · rw [Finmap.lookup_insert_of_ne _ same, Finmap.lookup_insert_of_ne _ same, agree other concerns]

theorem Agree.erase (agree : Agree A P tmp tmp') (name : FileName) :
    Agree A P (tmp.erase name) (tmp'.erase name) := by
  intro other concerns
  by_cases same : other = name
  · rw [same, Finmap.lookup_erase, Finmap.lookup_erase]
  · rw [Finmap.lookup_erase_ne same, Finmap.lookup_erase_ne same, agree other concerns]

theorem Agree.countFiles_eq (agree : Agree A P tmp tmp') :
    countFiles tmp (senderPrefix A P) = countFiles tmp' (senderPrefix A P) := by
  unfold countFiles
  congr 1
  ext name
  rw [Finset.mem_filter, Finset.mem_filter]
  refine and_congr_left fun start => ?_
  rw [Finmap.mem_keys, Finmap.mem_keys, ← Finmap.lookup_isSome, ← Finmap.lookup_isSome, agree name (Or.inl start)]

theorem Agree.loop (agree : Agree A P tmp tmp') (output : OutputFile) (indices : List Nat) :
    let first := indices.foldl (appendFragment (senderPrefix A P)) (tmp, output)
    let second := indices.foldl (appendFragment (senderPrefix A P)) (tmp', output)
    Agree A P first.1 second.1 ∧ first.2 = second.2 := by
  induction indices generalizing tmp tmp' output with
  | nil => exact ⟨agree, rfl⟩
  | cons i indices ih =>
    have same := agree _ (Or.inl (prefix_fragmentFile (senderPrefix A P) (i + 1)))
    simp only [List.foldl_cons, appendFragment, same]
    exact ih (agree.erase _) _

/-- What a packet does for its sender depends on the files of this sender alone. -/
theorem Agree.process (agree : Agree A P tmp tmp') {pkt : Packet} (own : FileOf A P pkt) (host : ByteOrder) :
    Agree A P (processMessage host tmp pkt).tmp (processMessage host tmp' pkt).tmp ∧
      (processMessage host tmp pkt).written = (processMessage host tmp' pkt).written := by
  obtain ⟨file, rfl, rfl⟩ := own
  have written : Agree pkt.sAddress pkt.sPort (writeToFile tmp pkt) (writeToFile tmp' pkt) := agree.insert _ _
  simp only [processMessage, if_pos file, reassembleFile, written.countFiles_eq]
  split
  · exact ⟨written, rfl⟩
  · obtain ⟨left, same⟩ := written.loop ⟨[], true⟩ (List.range (countFiles (writeToFile tmp' pkt)
      (senderPrefix pkt.sAddress pkt.sPort)))
    simp only [same]
    exact ⟨left.insert _ _, trivial⟩

end OwnPackets

section OtherPackets
variable {A A' : UInt32} {P P' : UInt16} {tmp : Directory}

theorem lookup_loop {sender name : FileName} (other : ∀ i, name ≠ fragmentFile sender i) (output : OutputFile)
    (indices : List Nat) :
    (indices.foldl (appendFragment sender) (tmp, output)).1.lookup name = tmp.lookup name := by
  induction indices generalizing tmp output with
  | nil => rfl
  | cons i indices ih => rw [List.foldl_cons, appendFragment, ih, Finmap.lookup_erase_ne (other _)]

/-- A packet touches only the fragments and the reassembled file of its sender. -/
theorem lookup_processMessage {host : ByteOrder} {pkt : Packet} {name : FileName}
    (notFragment : ∀ i, name ≠ fragmentFile (senderPrefix pkt.sAddress pkt.sPort) i)
    (notFinal : name ≠ finalFile (senderPrefix pkt.sAddress pkt.sPort)) :
    (processMessage host tmp pkt).tmp.lookup name = tmp.lookup name := by
  have written : (writeToFile tmp pkt).lookup name = tmp.lookup name :=
    Finmap.lookup_insert_of_ne tmp (notFragment _)
  unfold processMessage
  dsimp only
  split
  · unfold reassembleFile
    dsimp only
    split
    · exact written
    · rw [Finmap.lookup_insert_of_ne _ notFinal, lookup_loop notFragment, written]
  · rfl

/-- Packets of another sender leave the files of a sender alone, if none of their names is counted. -/
theorem Agree.process_other (apart : ¬(A = A' ∧ decimal P.toNat <+: decimal P'.toNat)) {pkt : Packet}
    (other : FileOf A' P' pkt) (host : ByteOrder) : Agree A P (processMessage host tmp pkt).tmp tmp := by
  obtain ⟨_, rfl, rfl⟩ := other
  have different : senderPrefix A P ≠ senderPrefix pkt.sAddress pkt.sPort := by
    intro same
    obtain ⟨rfl, rfl⟩ := senderPrefix_inj.mp same
    exact apart ⟨rfl, List.prefix_rfl⟩
  intro name concerns
  rcases concerns with start | rfl
  · refine lookup_processMessage (fun i same => ?_) fun same => ?_
    · exact apart ((prefix_fragmentFile_iff i).mp (same ▸ start))
    · exact not_prefix_finalFile A P _ (same ▸ start)
  · exact lookup_processMessage (fun i same => fragmentFile_ne_finalFile i _ same.symm)
      fun same => different (finalFile_inj.mp same)

end OtherPackets

section Interleavings
variable {A A' : UInt32} {P P' : UInt16}

/-- The packets of one sender. -/
def own (A : UInt32) (P : UInt16) (pkt : Packet) : Bool := pkt.sAddress = A ∧ pkt.sPort = P

/-- What the packets of one sender wrote, in the order of arrival. -/
def ownWrites (A : UInt32) (P : UInt16) (host : ByteOrder) (tmp : Directory) (pkts : List Packet) :
    List (Option (List UInt8)) :=
  ((pkts.zip (processAll host tmp pkts).2).filter fun x => own A P x.1).map Prod.snd

/-- Fragments, reassembled file and moments of reassembly are those of a run without the packets of
the other sender. -/
def Undisturbed (A : UInt32) (P : UInt16) (A' : UInt32) (P' : UInt16) : Prop :=
  ∀ host tmp pkts, (∀ pkt ∈ pkts, FileOf A P pkt ∨ FileOf A' P' pkt) →
    let alone := processAll host tmp (pkts.filter (own A P))
    (∀ i, (processAll host tmp pkts).1.lookup (fragmentFile (senderPrefix A P) i) =
      alone.1.lookup (fragmentFile (senderPrefix A P) i)) ∧
    (processAll host tmp pkts).1.lookup (finalFile (senderPrefix A P)) =
      alone.1.lookup (finalFile (senderPrefix A P)) ∧
    ownWrites A P host tmp pkts = alone.2

theorem ownWrites_cons (host : ByteOrder) (tmp : Directory) (pkt : Packet) (pkts : List Packet) :
    ownWrites A P host tmp (pkt :: pkts) =
      (if own A P pkt then [(processMessage host tmp pkt).written] else []) ++
        ownWrites A P host (processMessage host tmp pkt).tmp pkts := by
  simp only [ownWrites, processAll, List.zip_cons_cons, List.filter_cons]
  split <;> rfl

theorem Agree.run (apart : ¬(A = A' ∧ decimal P.toNat <+: decimal P'.toNat)) {tmp tmp' : Directory}
    (agree : Agree A P tmp tmp') (host : ByteOrder) {pkts : List Packet}
    (senders : ∀ pkt ∈ pkts, FileOf A P pkt ∨ FileOf A' P' pkt) :
    Agree A P (processAll host tmp pkts).1 (processAll host tmp' (pkts.filter (own A P))).1 ∧
      ownWrites A P host tmp pkts = (processAll host tmp' (pkts.filter (own A P))).2 := by
  induction pkts generalizing tmp tmp' with
  | nil => exact ⟨agree, rfl⟩
  | cons pkt pkts ih =>
    have later : ∀ other ∈ pkts, FileOf A P other ∨ FileOf A' P' other := fun other member =>
      senders other (List.mem_cons_of_mem pkt member)
    by_cases mine : own A P pkt
    · have file : FileOf A P pkt := by
        obtain ⟨address, port⟩ := of_decide_eq_true mine
        rcases senders pkt List.mem_cons_self with same | other
        · exact same
        · exact ⟨other.file, address, port⟩
      obtain ⟨next, written⟩ := agree.process file host
      obtain ⟨left, writes⟩ := ih next later
      rw [List.filter_cons_of_pos mine]
      refine ⟨left, ?_⟩
      rw [ownWrites_cons, if_pos mine, writes, written]
      rfl
    · have other : FileOf A' P' pkt := by
        rcases senders pkt List.mem_cons_self with same | other
        · exact (mine (decide_eq_true ⟨same.sAddress, same.sPort⟩)).elim
        · exact other
      have next : Agree A P (processMessage host tmp pkt).tmp tmp' := fun name concerns =>
        (Agree.process_other apart other host name concerns).trans (agree name concerns)
      obtain ⟨left, writes⟩ := ih next later
      rw [List.filter_cons_of_neg mine]
      refine ⟨left, ?_⟩
      rw [ownWrites_cons, if_neg mine, writes]
      rfl

theorem undisturbed_of_apart (apart : ¬(A = A' ∧ decimal P.toNat <+: decimal P'.toNat)) :
    Undisturbed A P A' P' := by
  intro host tmp pkts senders
  obtain ⟨left, writes⟩ := Agree.run apart (fun _ _ => rfl : Agree A P tmp tmp) host senders
  exact ⟨fun i => left _ (Or.inl (prefix_fragmentFile _ i)), left _ (Or.inr rfl), writes⟩

/-- A FILE packet of zeros. -/
def zeros (A : UInt32) (P : UInt16) (count : UInt16) : Packet := Packet.addressed 1 count A P 0 0 .file

/-- Alone, a file of one fragment is reassembled at once. -/
theorem zeros_alone (A : UInt32) (P : UInt16) :
    (processMessage .little ∅ (zeros A P 1)).written = some (contents [.zero]) := by
  have carried : ∀ pkt ∈ [] ++ [zeros A P 1], Carries A P [.zero] pkt := by
    intro pkt member
    rw [List.nil_append, List.mem_singleton] at member
    rw [member]
    exact ⟨⟨rfl, rfl, rfl⟩, rfl, 0, rfl, rfl⟩
  have every : ∀ i, i < [Buffer.zero].length → ∃ pkt ∈ [] ++ [zeros A P 1], pkt.fragmentNumber.toNat = i + 1 := by
    intro i inside
    have first : i < 1 := inside
    obtain rfl : i = 0 := by omega
    exact ⟨zeros A P 1, by simp, rfl⟩
  exact (List.cons.inj ((Holds.empty (empty_clean _)).complete .little carried every (by simp)).1).1

/-- A fragment that is not the only one of its file waits on disk. -/
theorem zeros_waits (A : UInt32) (P : UInt16) :
    fragmentFile (senderPrefix A P) 1 ∈ (processMessage .little ∅ (zeros A P 2)).tmp := by
  have file : (zeros A P 2).type = .file := rfl
  have holds := ((Holds.empty (empty_clean _)).process file .little).1
  have within : Within [.zero, .zero] (keep ∅ (piece (zeros A P 2))) := Within.empty.keep ⟨rfl, 0, rfl, rfl⟩
  have number : (piece (zeros A P 2)).number = 1 := rfl
  have missing : (keep ∅ (piece (zeros A P 2))).lookup 2 = none := by
    rw [lookup_keep, number, if_neg (by decide), Finmap.lookup_empty]
  rw [arrive_of_missing within rfl (i := 1) (by decide) missing] at holds
  have present := holds.kept 1
  rw [lookup_keep, number, if_pos rfl] at present
  exact Finmap.mem_of_lookup_eq_some present

theorem zeros_disturbed {A : UInt32} {P : UInt16} {tmp : Directory} {name : FileName} (member : name ∈ tmp)
    (start : senderPrefix A P <+: name) (other : name ≠ fragmentFile (senderPrefix A P) 1) :
    (processMessage .little tmp (zeros A P 1)).written = none := by
  have two : 1 < countFiles (writeToFile tmp (zeros A P 1)) (senderPrefix A P) := by
    refine Finset.one_lt_card.mpr ⟨name, ?_, fragmentFile (senderPrefix A P) 1, ?_, other⟩
    · exact Finset.mem_filter.mpr ⟨Finmap.mem_keys.mpr (Finmap.mem_insert.mpr (Or.inr member)), start⟩
    · exact Finset.mem_filter.mpr
        ⟨Finmap.mem_keys.mpr (Finmap.mem_insert.mpr (Or.inl rfl)), prefix_fragmentFile _ _⟩
  have incomplete : countFiles (writeToFile tmp (zeros A P 1)) (senderPrefix A P) ≠ 1 := by omega
  exact congrArg Prod.snd (if_pos incomplete : reassembleFile (writeToFile tmp (zeros A P 1)) (zeros A P 1) = _)

/-- A file of one fragment is not reassembled while a fragment of the other sender is counted too. -/
theorem not_undisturbed (different : P ≠ P') (start : decimal P.toNat <+: decimal P'.toNat) :
    ¬Undisturbed A P A P' := by
  intro undisturbed
  have senders : ∀ pkt ∈ [zeros A P' 2, zeros A P 1], FileOf A P pkt ∨ FileOf A P' pkt := by
    intro pkt member
    rw [List.mem_pair] at member
    rcases member with rfl | rfl
    · exact Or.inr ⟨rfl, rfl, rfl⟩
    · exact Or.inl ⟨rfl, rfl, rfl⟩
  have foreign : own A P (zeros A P' 2) = false := decide_eq_false fun both => different both.2.symm
  have mine : own A P (zeros A P 1) = true := decide_eq_true ⟨rfl, rfl⟩
  have counted := (prefix_fragmentFile_iff (A := A) (P := P) 1).mpr ⟨rfl, start⟩
  have other : fragmentFile (senderPrefix A P') 1 ≠ fragmentFile (senderPrefix A P) 1 := by
    intro same
    exact different (senderPrefix_inj.mp (List.append_cancel_right same)).2.symm
  obtain ⟨_, _, writes⟩ := undisturbed .little ∅ _ senders
  rw [ownWrites_cons, ownWrites_cons, foreign, mine, zeros_disturbed (zeros_waits A P') counted other,
    List.filter_cons_of_neg (by rw [foreign]; decide), List.filter_cons_of_pos mine] at writes
  have same := (List.cons.inj writes).1
  rw [zeros_alone] at same
  cases same

/-- Two senders do not disturb each other exactly if their addresses differ, or the decimal number
of neither port starts with that of the other. -/
theorem isolated_iff (A : UInt32) (P : UInt16) (A' : UInt32) (P' : UInt16) (distinct : ¬(A = A' ∧ P = P')) :
    Undisturbed A P A' P' ∧ Undisturbed A' P' A P ↔
      ¬(A = A' ∧ (decimal P.toNat <+: decimal P'.toNat ∨ decimal P'.toNat <+: decimal P.toNat)) := by
  constructor
  · intro ⟨first, second⟩ ⟨same, starts⟩
    subst same
    have different : P ≠ P' := fun same => distinct ⟨rfl, same⟩
    rcases starts with start | start
    · exact not_undisturbed different start first
    · exact not_undisturbed (Ne.symm different) start second
  · intro apart
    exact ⟨undisturbed_of_apart fun both => apart ⟨both.1, Or.inl both.2⟩,
      undisturbed_of_apart fun both => apart ⟨both.1.symm, Or.inr both.2⟩⟩

theorem isolated_iff_1280_1281 :
    Undisturbed 0x0100007F 1280 0x0100007F 1281 ∧ Undisturbed 0x0100007F 1281 0x0100007F 1280 ↔
      ¬((0x0100007F : UInt32) = 0x0100007F ∧
        (decimal (1280 : UInt16).toNat <+: decimal (1281 : UInt16).toNat ∨
          decimal (1281 : UInt16).toNat <+: decimal (1280 : UInt16).toNat)) :=
  isolated_iff 0x0100007F 1280 0x0100007F 1281 (by decide)

/-- The number 50 starts with the digit 5. -/
theorem not_undisturbed_5_50 : ¬Undisturbed 0x0100007F 5 0x0100007F 50 :=
  not_undisturbed (by decide) (by decide)

end Interleavings
end Node
end Nexus
