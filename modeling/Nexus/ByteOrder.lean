import Mathlib.Data.List.Basic
import Mathlib.Tactic.Ring
import Mathlib.Tactic.Positivity

/-- Where a machine keeps the least significant byte of a word in memory. -/
inductive ByteOrder
  | little
  | big
  deriving DecidableEq, Repr

namespace ByteOrder

/-- The `k` low bytes of a number, least significant first. -/
def digits : Nat → Nat → List UInt8
  | 0, _ => []
  | k + 1, x => UInt8.ofNat (x % 256) :: digits k (x / 256)

def value : List UInt8 → Nat
  | [] => 0
  | b :: bs => b.toNat + 256 * value bs

theorem length_digits (k x : Nat) : (digits k x).length = k := by
  induction k generalizing x with
  | zero => rfl
  | succ k ih => simp [digits, ih]

theorem value_digits {k x : Nat} (small : x < 256 ^ k) : value (digits k x) = x := by
  induction k generalizing x with
  | zero =>
    simp only [Nat.pow_zero] at small
    simp only [digits, value]
    omega
  | succ k ih =>
    have quotient : x / 256 < 256 ^ k := by
      rw [Nat.pow_succ] at small
      exact Nat.div_lt_of_lt_mul (by omega)
    have byte : (UInt8.ofNat (x % 256)).toNat = x % 256 := by
      rw [UInt8.toNat_ofNat']
      omega
    rw [digits, value, ih quotient, byte]
    omega

theorem digits_value (bs : List UInt8) : digits bs.length (value bs) = bs := by
  induction bs with
  | nil => rfl
  | cons b bs ih =>
    have byte := b.toNat_lt
    have low : (b.toNat + 256 * value bs) % 256 = b.toNat := by omega
    have high : (b.toNat + 256 * value bs) / 256 = value bs := by omega
    rw [value, List.length_cons, digits, low, high, ih, UInt8.ofNat_toNat]

theorem value_lt (bs : List UInt8) : value bs < 256 ^ bs.length := by
  induction bs with
  | nil => simp [value]
  | cons b bs ih =>
    have byte := b.toNat_lt
    rw [value, List.length_cons, Nat.pow_succ]
    omega

/-- Machine words of a fixed number of bytes. -/
class Word (W : Type) where
  width : Nat
  toNat : W → Nat
  ofNat : Nat → W
  toNat_lt : ∀ x, toNat x < 256 ^ width
  ofNat_toNat : ∀ x, ofNat (toNat x) = x
  toNat_ofNat : ∀ n, n < 256 ^ width → toNat (ofNat n) = n

instance : Word UInt16 where
  width := 2
  toNat := UInt16.toNat
  ofNat := UInt16.ofNat
  toNat_lt x := x.toNat_lt
  ofNat_toNat _ := UInt16.ofNat_toNat
  toNat_ofNat _ small := UInt16.toNat_ofNat_of_lt' small

instance : Word UInt32 where
  width := 4
  toNat := UInt32.toNat
  ofNat := UInt32.ofNat
  toNat_lt x := x.toNat_lt
  ofNat_toNat _ := UInt32.ofNat_toNat
  toNat_ofNat _ small := UInt32.toNat_ofNat_of_lt' small

@[simp] theorem width_uint16 : Word.width UInt16 = 2 := rfl

@[simp] theorem width_uint32 : Word.width UInt32 = 4 := rfl

variable {W : Type} [Word W]

/-- The bytes of a word in memory. -/
def store (o : ByteOrder) (x : W) : List UInt8 :=
  match o with
  | little => digits (Word.width W) (Word.toNat x)
  | big => (digits (Word.width W) (Word.toNat x)).reverse

/-- The word that the bytes in memory make up. -/
def load (o : ByteOrder) (bs : List UInt8) : W :=
  match o with
  | little => Word.ofNat (value bs)
  | big => Word.ofNat (value bs.reverse)

/-- `htonl` and `htons`: the word whose bytes in memory are the argument in network order. -/
def hton (o : ByteOrder) (x : W) : W := load o (store big x)

/-- `ntohl` and `ntohs`. -/
def ntoh (o : ByteOrder) (x : W) : W := load big (store o x)

@[simp] theorem length_store (o : ByteOrder) (x : W) : (store o x).length = Word.width W := by
  cases o <;> simp [store, length_digits]

theorem load_store (o : ByteOrder) (x : W) : load o (store o x) = x := by
  have back := value_digits (Word.toNat_lt x)
  cases o <;> simp [load, store, back, Word.ofNat_toNat]

theorem store_load (o : ByteOrder) {bs : List UInt8} (size : bs.length = Word.width W) :
    store o (load o bs : W) = bs := by
  have back : ∀ bs : List UInt8, bs.length = Word.width W →
      digits (Word.width W) (Word.toNat (Word.ofNat (value bs) : W)) = bs := by
    intro bs size
    rw [Word.toNat_ofNat _ (size ▸ value_lt bs), ← size, digits_value]
  cases o with
  | little => exact back bs size
  | big => rw [store, load, back _ (by rw [List.length_reverse, size]), List.reverse_reverse]

theorem store_injective (o : ByteOrder) {x y : W} (same : store o x = store o y) : x = y := by
  rw [← load_store o x, same, load_store]

/-- A word converted to network order lies in memory in that order on every machine. -/
@[simp] theorem store_hton (o : ByteOrder) (x : W) : store o (hton o x) = store big x :=
  store_load o (length_store big x)

theorem ntoh_load (o : ByteOrder) {bs : List UInt8} (size : bs.length = Word.width W) :
    ntoh o (load o bs : W) = load big bs := by
  rw [ntoh, store_load o size]

@[simp] theorem ntoh_hton (o : ByteOrder) (x : W) : ntoh o (hton o x) = x := by
  rw [ntoh, store_hton, load_store]

@[simp] theorem hton_ntoh (o : ByteOrder) (x : W) : hton o (ntoh o x) = x := by
  rw [hton, ntoh, store_load big (length_store o x), load_store]

/-- The two orders give one word exactly when the bytes read the same backwards. -/
theorem load_little_eq_load_big {bs : List UInt8} (size : bs.length = Word.width W) :
    (load little bs : W) = load big bs ↔ bs.reverse = bs := by
  constructor
  · intro same
    have backwards : store big (load little bs : W) = bs.reverse :=
      congrArg List.reverse (store_load (W := W) little size)
    rw [← backwards, same, store_load big size]
  · intro palindrome
    rw [load, load, palindrome]

/-- The bits of a number come from its bytes. -/
theorem testBit_value (bs : List UInt8) (i : Nat) {j : Nat} (inside : j < 8) :
    (value bs).testBit (8 * i + j) = (bs.getD i 0).toBitVec.getLsbD j := by
  induction bs generalizing i with
  | nil => simp [value]
  | cons b bs ih =>
    have small : b.toNat < 2 ^ 8 := b.toNat_lt
    rw [value, show b.toNat + 256 * value bs = 2 ^ 8 * value bs + b.toNat by omega,
      Nat.testBit_two_pow_mul_add _ small]
    cases i with
    | zero => simp [inside, BitVec.getLsbD]
    | succ i =>
      rw [if_neg (by omega), show 8 * (i + 1) + j - 8 = 8 * i + j by omega, ih]
      rfl

theorem getLsbD_load_big {bs : List UInt8} (size : bs.length = 4) {k : Nat} (inside : k < 32) :
    (load big bs : UInt32).toBitVec.getLsbD k = (bs.getD (3 - k / 8) 0).toBitVec.getLsbD (k % 8) := by
  have small : value bs.reverse < 256 ^ 4 := by
    have bound := value_lt bs.reverse
    rwa [List.length_reverse, size] at bound
  have number : (load big bs : UInt32).toBitVec.getLsbD k = (value bs.reverse).testBit (8 * (k / 8) + k % 8) := by
    rw [Nat.div_add_mod, BitVec.getLsbD, UInt32.toNat_toBitVec]
    exact congrArg (Nat.testBit · k) (Word.toNat_ofNat (W := UInt32) _ small)
  rw [number, testBit_value _ _ (Nat.mod_lt k (by decide)), List.getD_eq_getElem?_getD, List.getD_eq_getElem?_getD,
    List.getElem?_reverse (by omega), size]

end ByteOrder
