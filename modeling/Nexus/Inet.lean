import Nexus.ByteOrder
import Nexus.Numeral
import Mathlib.Data.List.TakeWhile

namespace Nexus
open ByteOrder Numeral

/-- `struct sockaddr_in` of an IPv4 socket. Both words lie in memory in network order. -/
structure SockAddr where
  sin_addr : UInt32
  sin_port : UInt16
  deriving DecidableEq, Repr

/-- What is read of `s.c_str()`. -/
def cString (s : String) : List Char := s.toList.takeWhile fun c => c ≠ Char.ofNat 0

/-- A byte in decimal, without leading zeros. -/
def octet (field : List Char) : Option UInt8 :=
  ((List.range 256).find? fun n => decimal n = field).map UInt8.ofNat

section Addresses
variable (host : ByteOrder)

/-- `inet_pton` of the address family `AF_INET`; `none` is the result 0. -/
def inet_pton (ip : String) : Option UInt32 :=
  let fields := (cString ip).splitOn '.'
  if fields.length = 4 then (fields.mapM octet).map (load host) else none

def inet_ntop (sin_addr : UInt32) : String :=
  String.ofList (['.'].intercalate ((store host sin_addr).map fun byte => decimal byte.toNat))

/-- `htons` of an `int`, which is converted to 16 bits first. -/
def htons (port : Int) : UInt16 := hton host (UInt16.ofInt port)

def ntohs (sin_port : UInt16) : Int := (ntoh host sin_port).toNat

@[simp] theorem htons_ntohs (sin_port : UInt16) : htons host (ntohs host sin_port) = sin_port := by
  have small := (ntoh host sin_port).toNat_lt
  have back : UInt16.ofInt ((ntoh host sin_port).toNat : Int) = ntoh host sin_port := by
    rw [UInt16.ofInt, Int.emod_eq_of_lt (by omega) (by omega), Int.toNat_natCast, UInt16.ofNat_toNat]
  rw [htons, ntohs, back, hton_ntoh]

theorem octet_decimal (byte : UInt8) : octet (decimal byte.toNat) = some byte := by
  have small := byte.toNat_lt
  have found : (List.range 256).find? (fun n => decide (decimal n = decimal byte.toNat)) = some byte.toNat := by
    rw [List.find?_range_eq_some]
    refine ⟨by simp, by rw [List.mem_range]; omega, fun n before => ?_⟩
    have differ : n ≠ byte.toNat := by omega
    simpa using differ
  rw [octet, found, Option.map_some, UInt8.ofNat_toNat]

theorem mapM_octet (bytes : List UInt8) : (bytes.map fun byte => decimal byte.toNat).mapM octet = some bytes := by
  induction bytes with
  | nil => rfl
  | cons byte bytes ih => simp [octet_decimal, ih]

theorem cString_of_printable {cs : List Char} (printable : ∀ c ∈ cs, c ≠ Char.ofNat 0) :
    cString (String.ofList cs) = cs := by
  rw [cString, String.toList_ofList, List.takeWhile_eq_self_iff]
  exact fun c member => decide_eq_true (printable c member)

/-- Reading a printed address gives the address back. -/
@[simp] theorem inet_pton_ntop (sin_addr : UInt32) : inet_pton host (inet_ntop host sin_addr) = some sin_addr := by
  have four : (store host sin_addr).length = 4 := length_store host sin_addr
  have printable : ∀ c ∈ ['.'].intercalate ((store host sin_addr).map fun byte => decimal byte.toNat),
      c ≠ Char.ofNat 0 := by
    intro c member
    rcases mem_intercalate member with rfl | ⟨field, among, inside⟩
    · decide
    · obtain ⟨byte, _, rfl⟩ := List.mem_map.mp among
      exact fun zero => notMem_decimal (by decide) _ (zero ▸ inside)
  have split : (cString (inet_ntop host sin_addr)).splitOn '.' =
      (store host sin_addr).map fun byte => decimal byte.toNat := by
    rw [inet_ntop, cString_of_printable printable]
    refine List.splitOn_intercalate '.' ?_ ?_
    · intro field member
      obtain ⟨byte, _, rfl⟩ := List.mem_map.mp member
      exact notMem_decimal (by decide) _
    · intro empty
      have none := List.map_eq_nil_iff.mp empty
      rw [none] at four
      cases four
  simp only [inet_pton, split, List.length_map, four, if_true, mapM_octet, Option.map_some, load_store]

theorem octet_eq_some {field : List Char} {byte : UInt8} (read : octet field = some byte) :
    decimal byte.toNat = field := by
  obtain ⟨n, found, rfl⟩ := Option.map_eq_some_iff.mp read
  obtain ⟨same, below, _⟩ := List.find?_range_eq_some.mp found
  have small : n < 256 := List.mem_range.mp below
  rw [UInt8.toNat_ofNat_of_lt' small]
  exact of_decide_eq_true same

theorem map_decimal_of_mapM {fields : List (List Char)} {bytes : List UInt8} (read : fields.mapM octet = some bytes) :
    (bytes.map fun byte => decimal byte.toNat) = fields := by
  induction fields generalizing bytes with
  | nil =>
    cases read
    rfl
  | cons field fields ih =>
    rw [List.mapM_cons] at read
    obtain ⟨byte, first, read⟩ := Option.bind_eq_some_iff.mp read
    obtain ⟨rest, later, read⟩ := Option.bind_eq_some_iff.mp read
    cases read
    rw [List.map_cons, octet_eq_some first, ih later]

/-- Printing an address that was read gives the text back. -/
theorem inet_ntop_pton {ip : String} {sin_addr : UInt32} (read : inet_pton host ip = some sin_addr)
    (whole : Char.ofNat 0 ∉ ip.toList) : inet_ntop host sin_addr = ip := by
  have text : cString ip = ip.toList := by
    rw [cString, List.takeWhile_eq_self_iff]
    exact fun c member => decide_eq_true fun zero => whole (zero ▸ member)
  simp only [inet_pton, text] at read
  split at read
  · rename_i four
    obtain ⟨bytes, octets, rfl⟩ := Option.map_eq_some_iff.mp read
    have fields := map_decimal_of_mapM octets
    have size : bytes.length = Word.width UInt32 := by
      rw [← List.length_map (fun byte : UInt8 => decimal byte.toNat), fields, four]
      rfl
    rw [inet_ntop, store_load host size, fields, List.intercalate_splitOn, String.ofList_toList]
  · cases read

theorem ntohs_htons {port : Int} (lower : 0 ≤ port) (upper : port < 2 ^ 16) : ntohs host (htons host port) = port := by
  have small : port.toNat < UInt16.size := by
    show port.toNat < 65536
    omega
  rw [ntohs, htons, ntoh_hton, UInt16.ofInt, Int.emod_eq_of_lt lower upper, UInt16.toNat_ofNat_of_lt' small,
    Int.toNat_of_nonneg lower]

end Addresses
end Nexus
