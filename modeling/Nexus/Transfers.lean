import Nexus.Reassembly

namespace Nexus
open Numeral Collect
namespace Node

section SeveralTransfers
variable {ι : Type} {host : ByteOrder} {tmp : Directory} {sAddress : UInt32} {sPort : UInt16}
  {transfers : ι → List Buffer}

/-- An arrival: a packet, with the transfer that it was sent for. -/
def labelled (x : ι × Packet) : ι × Piece Buffer := (x.1, piece x.2)

/-- If a packet brings the number of files to its fragment count, then for each other fragment file
the packet of that number which arrived last was sent for the same transfer. -/
def Unmixed (tmp : Directory) (before : List (ι × Packet)) (x : ι × Packet) : Prop :=
  let sender := senderPrefix x.2.sAddress x.2.sPort
  countFiles (writeToFile tmp x.2) sender = x.2.fragmentCount.toNat →
    ∀ j y, fragmentFile sender j ∈ tmp → j ≠ x.2.fragmentNumber.toNat →
      latest (before.map labelled) j = some y → y.1 = x.1

theorem Carries.of {fragments : List Buffer} {pkt : Packet} (carries : Carries sAddress sPort fragments pkt) :
    (piece pkt).Of fragments :=
  ⟨carries.count, carries.data⟩

/-- Every file on disk holds the fragment that arrived last under its number. -/
theorem holds_recent (host : ByteOrder) (clean : ∀ name ∈ tmp, ¬senderPrefix sAddress sPort <+: name)
    (before : List (ι × Packet))
    (carried : ∀ x ∈ before, Carries sAddress sPort (transfers x.1) x.2) :
    ∃ s, Holds (processAll host tmp (before.map Prod.snd)).1 (senderPrefix sAddress sPort) s ∧
      Recent s (before.map labelled) := by
  induction before using List.reverseRecOn with
  | nil => exact ⟨∅, .empty clean, .empty⟩
  | append_singleton before x ih =>
    obtain ⟨s, holds, recent⟩ := ih fun y member => carried y (List.mem_append_left _ member)
    obtain ⟨file, rfl, rfl⟩ := (carried x (List.mem_append_right before List.mem_cons_self)).toFileOf
    refine ⟨(arrive s (piece x.2)).1, ?_, ?_⟩
    · rw [List.map_append, processAll_append]
      exact (holds.process file host).1
    · rw [List.map_append]
      exact recent.arrive (labelled x)

theorem Holds.mem_iff {sender : FileName} {s : Slots Buffer} (holds : Holds tmp sender s) (j : Nat) :
    fragmentFile sender j ∈ tmp ↔ j ∈ s := by
  rw [← Finmap.lookup_isSome, ← Finmap.lookup_isSome, holds.kept, Option.isSome_map]

/-- Where no arrival completes the count with files of another transfer, every file that is written
is one transfer, with all its fragments in order. -/
theorem written_of_unmixed (host : ByteOrder) (tmp : Directory) (sAddress : UInt32) (sPort : UInt16)
    (transfers : ι → List Buffer) (clean : ∀ name ∈ tmp, ¬senderPrefix sAddress sPort <+: name)
    (xs : List (ι × Packet)) (carried : ∀ x ∈ xs, Carries sAddress sPort (transfers x.1) x.2)
    (unmixed : ∀ before x after, xs = before ++ x :: after →
      Unmixed (processAll host tmp (before.map Prod.snd)).1 before x) :
    ∀ before x after content, xs = before ++ x :: after →
      (processMessage host (processAll host tmp (before.map Prod.snd)).1 x.2).written = some content →
      ∃ k, content = contents (transfers k) := by
  intro before x after content split written
  have early : ∀ y ∈ before ++ [x], Carries sAddress sPort (transfers y.1) y.2 := by
    intro y member
    refine carried y ?_
    rw [split, List.append_cons]
    exact List.mem_append_left after member
  obtain ⟨s, holds, recent⟩ :=
    holds_recent host clean before fun y member => early y (List.mem_append_left _ member)
  obtain ⟨file, rfl, rfl⟩ := (early x (List.mem_append_right before List.mem_cons_self)).toFileOf
  have count : countFiles (writeToFile _ x.2) _ = (keep s (piece x.2)).keys.card :=
    (holds.insert x.2.fragmentNumber.toNat x.2.data).countFiles_eq
  have condition := unmixed before x after split
  rw [Unmixed, count] at condition
  rw [(holds.process file host).2, Option.map_eq_some_iff] at written
  obtain ⟨whole, output, rfl⟩ := written
  refine ⟨x.1, congrArg contents (recent.output (x := labelled x) ?_ ?_ output)⟩
  · intro y member
    rw [← List.map_singleton, ← List.map_append] at member
    obtain ⟨z, among, rfl⟩ := List.mem_map.mp member
    exact (early z among).of
  · intro complete j y member
    exact condition complete j y ((holds.mem_iff j).mpr member)

end SeveralTransfers

namespace mixing

def ones : Buffer := ⟨List.replicate MAX_BUFFER_SIZE 1, List.length_replicate⟩

/-- Two transfers of two fragments each. -/
def transfers (second : Bool) : List Buffer := if second then [ones, ones] else [.zero, .zero]

def packet (second : Bool) (number : UInt16) : Packet :=
  { zeroFragment number with data := if second then ones else .zero }

theorem carries (second : Bool) {number : UInt16} (known : number = 1 ∨ number = 2) :
    Carries 0x0100007F 1280 (transfers second) (packet second number) := by
  cases second <;> rcases known with rfl | rfl
  · exact ⟨⟨rfl, rfl, rfl⟩, rfl, 0, rfl, rfl⟩
  · exact ⟨⟨rfl, rfl, rfl⟩, rfl, 1, rfl, rfl⟩
  · exact ⟨⟨rfl, rfl, rfl⟩, rfl, 0, rfl, rfl⟩
  · exact ⟨⟨rfl, rfl, rfl⟩, rfl, 1, rfl, rfl⟩

/-- A lost transfer leaves its first fragment, which the next transfer replaces. -/
def recovered : List (Bool × Packet) := [(false, packet false 1), (true, packet true 1), (true, packet true 2)]

theorem recovered_unmixed (tmp : Directory) {before after : List (Bool × Packet)} {x : Bool × Packet}
    (split : recovered = before ++ x :: after) : Unmixed tmp before x := by
  intro _ j y _ other last
  rcases before with _ | ⟨a, _ | ⟨b, _ | ⟨c, rest⟩⟩⟩
  · cases last
  · obtain ⟨rfl, rfl, _⟩ : (false, packet false 1) = a ∧ (true, packet true 1) = x ∧ _ := by
      simpa [recovered] using split
    have notOne : j ≠ (labelled (false, packet false 1)).2.number := other
    rw [List.map_singleton, latest_singleton, if_neg notOne] at last
    cases last
  · obtain ⟨rfl, rfl, rfl, _⟩ : (false, packet false 1) = a ∧ (true, packet true 1) = b ∧
        (true, packet true 2) = x ∧ _ := by
      simpa [recovered] using split
    rw [List.map_cons, List.map_singleton, ← List.singleton_append, latest_append] at last
    split at last
    · cases last
      rfl
    · rename_i notOne
      have neither : j ≠ (labelled (false, packet false 1)).2.number := notOne
      rw [latest_singleton, if_neg neither] at last
      cases last
  · have size := congrArg List.length split
    simp [recovered] at size

/-- A first and a second fragment, of whatever transfers, make up a file. -/
theorem arriveAll_pair (first second : Bool) :
    arriveAll ∅ [piece (packet first 1), piece (packet second 2)] =
      (∅, [none, some [(packet first 1).data, (packet second 2).data]]) := by
  have one : (piece (packet first 1)).Of [(packet first 1).data, (packet second 2).data] := ⟨rfl, 0, rfl, rfl⟩
  have two : (piece (packet second 2)).Of [(packet first 1).data, (packet second 2).data] := ⟨rfl, 1, rfl, rfl⟩
  show arriveAll ∅ ([piece (packet first 1)] ++ [piece (packet second 2)]) = _
  refine arriveAll_complete ?_ ?_ ?_
  · intro part member
    rcases List.mem_cons.mp member with rfl | last
    · exact one
    · exact List.mem_singleton.mp last ▸ two
  · intro i inside
    obtain rfl | rfl : i = 0 ∨ i = 1 := by
      have below : i < 2 := inside
      omega
    · exact ⟨piece (packet first 1), List.mem_cons_self, rfl⟩
    · exact ⟨piece (packet second 2), List.mem_cons_of_mem _ List.mem_cons_self, rfl⟩
  · intro part member
    rw [List.mem_singleton.mp member]
    exact (by decide : (1 : Nat) ≠ 2)

theorem fileOf_packet (second : Bool) (number : UInt16) : FileOf 0x0100007F 1280 (packet second number) :=
  ⟨rfl, rfl, rfl⟩

theorem recovered_written :
    (processMessage .little (processAll .little ∅ [packet false 1, packet true 1]).1 (packet true 2)).written =
      some (contents [ones, ones]) := by
  have holds : Holds ∅ (senderPrefix 0x0100007F 1280) ∅ := .empty (empty_clean _)
  have all : ∀ pkt ∈ [packet false 1, packet true 1, packet true 2], FileOf 0x0100007F 1280 pkt := by
    intro pkt member
    simp only [List.mem_cons, List.not_mem_nil, or_false] at member
    rcases member with rfl | rfl | rfl
    · exact fileOf_packet false 1
    · exact fileOf_packet true 1
    · exact fileOf_packet true 2
  have kept : Within (transfers false) (keep ∅ (piece (packet false 1))) :=
    Within.empty.keep (carries false (Or.inl rfl)).of
  have missing : (keep ∅ (piece (packet false 1))).lookup 2 = none := by
    have other : 2 ≠ (piece (packet false 1)).number := by decide
    rw [lookup_keep, if_neg other, Finmap.lookup_empty]
  have waits := arrive_of_missing kept rfl (i := 1) (by decide) missing
  have replaced : (piece (packet true 1)).number = (piece (packet false 1)).number := rfl
  have writes := (holds.processAll all .little).2
  rw [List.map_cons, List.map_cons, List.map_singleton, arriveAll, waits, arriveAll_replaced replaced,
    arriveAll_pair] at writes
  exact (List.cons.inj (List.cons.inj (List.cons.inj writes).2).2).1

theorem written_of_unmixed_recovered :
    ∃ content,
      (processMessage .little (processAll .little ∅ [packet false 1, packet true 1]).1 (packet true 2)).written =
        some content ∧
      ∃ k, content = contents (transfers k) := by
  have carried : ∀ x ∈ recovered, Carries 0x0100007F 1280 (transfers x.1) x.2 := by
    intro x member
    simp only [recovered, List.mem_cons, List.not_mem_nil, or_false] at member
    rcases member with rfl | rfl | rfl
    · exact carries false (Or.inl rfl)
    · exact carries true (Or.inl rfl)
    · exact carries true (Or.inr rfl)
  exact ⟨_, recovered_written, written_of_unmixed .little ∅ 0x0100007F 1280 transfers
    (empty_clean _) recovered carried
    (fun _ _ _ split => recovered_unmixed _ split) [(false, packet false 1), (true, packet true 1)]
    (true, packet true 2) [] _ rfl recovered_written⟩

/-- The first fragment of one transfer and the second of the next make up a file. -/
theorem written_mixed :
    Carries 0x0100007F 1280 (transfers false) (packet false 1) ∧
    Carries 0x0100007F 1280 (transfers true) (packet true 2) ∧
    ∃ content,
      (processMessage .little (processAll .little ∅ [packet false 1]).1 (packet true 2)).written = some content ∧
      ∀ k, content ≠ contents (transfers k) := by
  have holds : Holds ∅ (senderPrefix 0x0100007F 1280) ∅ := .empty (empty_clean _)
  have all : ∀ pkt ∈ [packet false 1, packet true 2], FileOf 0x0100007F 1280 pkt := by
    intro pkt member
    simp only [List.mem_cons, List.not_mem_nil, or_false] at member
    rcases member with rfl | rfl
    · exact fileOf_packet false 1
    · exact fileOf_packet true 2
  have writes := (holds.processAll all .little).2
  rw [List.map_cons, List.map_singleton, arriveAll_pair] at writes
  have different : Buffer.zero.bytes ≠ ones.bytes := by
    intro same
    rcases (List.replicate_inj.mp same).2 with none | equal
    · cases none
    · cases equal
  refine ⟨carries false (Or.inl rfl), carries true (Or.inr rfl), contents [.zero, ones],
    (List.cons.inj (List.cons.inj writes).2).1, fun k same => ?_⟩
  cases k with
  | false =>
    have second : [ones].flatMap Buffer.bytes = [Buffer.zero].flatMap Buffer.bytes := List.append_cancel_left same
    rw [List.flatMap_singleton, List.flatMap_singleton] at second
    exact different second.symm
  | true =>
    have first := (List.append_inj same (Buffer.zero.size.trans ones.size.symm)).1
    exact different first

end mixing
end Node
end Nexus
