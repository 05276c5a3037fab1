import Mathlib.Algebra.Order.Ring.Nat
import Mathlib.Algebra.Ring.Nat
import Mathlib.Data.List.Induction
import Mathlib.Data.Nat.Log
import Mathlib.Tactic.Ring

/-!
Numerals of a fixed length, big end first, and the byte strings and texts among
them.

`digits` keeps the low places of a number that does not fit. Reading a numeral
back gives the number modulo the base to the length, and every list of digits
is the numeral of its value, so writing and reading are inverse on numbers that
fit and on numerals. A number written without a length takes the bytes it needs,
and at least one.

As a text a numeral of a base up to sixteen is written with the usual digits,
letters in lower case, and read with letters in either case. All of it is ASCII,
so a text has as many bytes as it has digits. A list of 64-bit words is written
word by word, eight bytes each, the low byte first; what is read is what was
written, so no two lists of one length have the same bytes.
-/
namespace Positional

def digits (b : ℕ) : (len n : ℕ) → List ℕ
  | 0, _ => []
  | len + 1, n => digits b len (n / b) ++ [n % b]

def value (b : ℕ) (ds : List ℕ) : ℕ := ds.foldl (fun n d => n * b + d) 0

variable {b : ℕ}

@[simp] theorem length_digits (b len n : ℕ) : (digits b len n).length = len := by
  induction len generalizing n with
  | zero => rfl
  | succ len ih => simp [digits, ih]

theorem lt_of_mem_digits (hb : 0 < b) {len n d : ℕ} (h : d ∈ digits b len n) : d < b := by
  induction len generalizing n with
  | zero => simp [digits] at h
  | succ len ih =>
      rw [digits, List.mem_append, List.mem_singleton] at h
      cases h with
      | inl rest => exact ih rest
      | inr last => rw [last]; exact Nat.mod_lt n hb

@[simp] theorem value_append_singleton (b : ℕ) (ds : List ℕ) (d : ℕ) :
    value b (ds ++ [d]) = value b ds * b + d := by
  simp [value]

theorem value_digits (b len n : ℕ) : value b (digits b len n) = n % b ^ len := by
  induction len generalizing n with
  | zero => simp [digits, value, Nat.mod_one]
  | succ len ih =>
      rw [digits, value_append_singleton, ih, Nat.pow_succ', Nat.mod_mul]
      ring

theorem digits_value {ds : List ℕ} (h : ∀ d ∈ ds, d < b) :
    digits b ds.length (value b ds) = ds := by
  induction ds using List.reverseRecOn with
  | nil => rfl
  | append_singleton ds d ih =>
      have last : d < b := h d (by simp)
      have rest := ih fun d' hd' => h d' (by simp [hd'])
      rw [List.length_append, List.length_singleton, digits, value_append_singleton,
        Nat.mul_comm, Nat.mul_add_div (by omega), Nat.div_eq_of_lt last, Nat.add_zero, rest,
        Nat.mul_add_mod, Nat.mod_eq_of_lt last]

theorem value_lt {ds : List ℕ} (h : ∀ d ∈ ds, d < b) : value b ds < b ^ ds.length := by
  rcases Nat.eq_zero_or_pos b with rfl | hb
  · cases ds with
    | nil => simp [value]
    | cons d ds => exact absurd (h d List.mem_cons_self) (Nat.not_lt_zero d)
  · rw [← digits_value h, value_digits, length_digits]
    exact Nat.mod_lt _ (Nat.pow_pos hb)

def toBigEndian (len n : ℕ) : Vector UInt8 len :=
  ⟨((digits 256 len n).map UInt8.ofNat).toArray, by simp⟩

def fromBigEndian (bytes : List UInt8) : ℕ := value 256 (bytes.map UInt8.toNat)

private theorem map_toNat_ofNat {ds : List ℕ} (h : ∀ d ∈ ds, d < 256) :
    (ds.map UInt8.ofNat).map UInt8.toNat = ds := by
  induction ds with
  | nil => rfl
  | cons d ds ih =>
      rw [List.forall_mem_cons] at h
      rw [List.map_cons, List.map_cons, ih h.2, UInt8.toNat_ofNat_of_lt' h.1]

theorem fromBigEndian_toBigEndian (len n : ℕ) :
    fromBigEndian (toBigEndian len n).toList = n % 256 ^ len := by
  have bytes : ((digits 256 len n).map UInt8.ofNat).map UInt8.toNat = digits 256 len n :=
    map_toNat_ofNat fun d hd => lt_of_mem_digits (by decide) hd
  rw [fromBigEndian, toBigEndian]
  change value 256 (((digits 256 len n).map UInt8.ofNat).map UInt8.toNat) = _
  rw [bytes, value_digits]

theorem toBigEndian_fromBigEndian {len : ℕ} (bytes : Vector UInt8 len) :
    toBigEndian len (fromBigEndian bytes.toList) = bytes := by
  have small : ∀ d ∈ bytes.toList.map UInt8.toNat, d < 256 := by
    simp only [List.mem_map]
    rintro d ⟨x, -, rfl⟩
    exact x.toNat_lt
  have read := digits_value small
  rw [List.length_map, Vector.length_toList] at read
  apply Vector.toList_inj.1
  change (digits 256 len (fromBigEndian bytes.toList)).map UInt8.ofNat = bytes.toList
  rw [fromBigEndian, read, List.map_map]
  exact List.map_id'' (fun x => UInt8.ofNat_toNat) _

theorem toList_toBigEndian_fromBigEndian (bytes : List UInt8) :
    (toBigEndian bytes.length (fromBigEndian bytes)).toList = bytes :=
  congrArg Vector.toList
    (toBigEndian_fromBigEndian (⟨bytes.toArray, rfl⟩ : Vector UInt8 bytes.length))

theorem fromBigEndian_lt (bytes : List UInt8) : fromBigEndian bytes < 256 ^ bytes.length := by
  rw [fromBigEndian, ← List.length_map UInt8.toNat]
  refine value_lt ?_
  simp only [List.mem_map]
  rintro d ⟨x, -, rfl⟩
  exact x.toNat_lt

theorem pow_256 (len : ℕ) : 256 ^ len = 2 ^ (8 * len) := (Nat.pow_mul 2 8 len).symm

/-- The shortest numeral that is not empty. -/
def toShortestBigEndian (n : ℕ) : List UInt8 := (toBigEndian (n.log2 / 8 + 1) n).toList

theorem fromBigEndian_toShortestBigEndian (n : ℕ) :
    fromBigEndian (toShortestBigEndian n) = n := by
  have fits : n < 256 ^ (n.log2 / 8 + 1) := by
    rw [pow_256]
    exact Nat.lt_log2_self.trans_le (Nat.pow_le_pow_right Nat.two_pos (by omega))
  rw [toShortestBigEndian, fromBigEndian_toBigEndian, Nat.mod_eq_of_lt fits]

theorem length_toShortestBigEndian_le_iff {n k : ℕ} (pos : 0 < k) :
    (toShortestBigEndian n).length ≤ k ↔ n < 256 ^ k := by
  rw [toShortestBigEndian, Vector.length_toList, pow_256]
  rcases Nat.eq_zero_or_pos n with rfl | more
  · simp only [Nat.log2_zero, Nat.two_pow_pos, iff_true]
    exact pos
  · rw [← Nat.log2_lt more.ne']
    omega

def toLittleEndian (len n : ℕ) : Vector UInt8 len := (toBigEndian len n).reverse

def fromLittleEndian (bytes : List UInt8) : ℕ := fromBigEndian bytes.reverse

theorem fromLittleEndian_toLittleEndian (len n : ℕ) :
    fromLittleEndian (toLittleEndian len n).toList = n % 256 ^ len := by
  rw [fromLittleEndian, toLittleEndian, Vector.toList_reverse, List.reverse_reverse,
    fromBigEndian_toBigEndian]

end Positional

namespace Numerals
open Positional

variable {b : ℕ}

/-- The value of a digit, 16 for a character that is none. -/
def hexValue (ch : Char) : ℕ :=
  if ch.isDigit then ch.toNat - 48
  else if 'a' ≤ ch ∧ ch ≤ 'f' then ch.toNat - 87
  else if 'A' ≤ ch ∧ ch ≤ 'F' then ch.toNat - 55
  else 16

def digitOf (b : ℕ) (ch : Char) : Option ℕ := if hexValue ch < b then some (hexValue ch) else none

/-- The last `len` digits. -/
def write (b len n : ℕ) : String := String.ofList ((digits b len n).map Nat.digitChar)

def read (b : ℕ) (text : String) : Option ℕ := (text.toList.mapM (digitOf b)).map (value b)

theorem digitChar_hex : ∀ d < 16, hexValue d.digitChar = d ∧ d.digitChar.utf8Size = 1 := by
  decide

theorem mapM_digitOf (hb : b ≤ 16) {ds : List ℕ} (h : ∀ d ∈ ds, d < b) :
    (ds.map Nat.digitChar).mapM (digitOf b) = some ds := by
  induction ds with
  | nil => rfl
  | cons d ds ih =>
      rw [List.forall_mem_cons] at h
      have digit := (digitChar_hex d (by omega)).1
      simp [List.mapM_cons, digitOf, digit, h.1, ih h.2]

theorem length_write (b len n : ℕ) : (write b len n).toList.length = len := by
  rw [write, String.toList_ofList, List.length_map, length_digits]

theorem read_write (hb : 0 < b) (hb' : b ≤ 16) (len n : ℕ) :
    read b (write b len n) = some (n % b ^ len) := by
  rw [read, write, String.toList_ofList, mapM_digitOf hb' fun d hd => lt_of_mem_digits hb hd,
    Option.map_some, value_digits]

theorem utf8ByteSize_ofList {l : List Char} (h : ∀ ch ∈ l, ch.utf8Size = 1) :
    (String.ofList l).utf8ByteSize = l.length := by
  induction l with
  | nil => rfl
  | cons ch l ih =>
      rw [List.forall_mem_cons] at h
      rw [String.ofList_cons, String.utf8ByteSize_append, String.utf8ByteSize_singleton, h.1,
        ih h.2, List.length_cons, Nat.add_comm]

theorem utf8ByteSize_write (hb : 0 < b) (hb' : b ≤ 16) (len n : ℕ) :
    (write b len n).utf8ByteSize = len := by
  rw [write, utf8ByteSize_ofList, List.length_map, length_digits]
  intro ch hch
  obtain ⟨d, hd, rfl⟩ := List.mem_map.1 hch
  have small := lt_of_mem_digits hb hd
  exact (digitChar_hex d (by omega)).2

/-- As many digits as the number needs. -/
def writeShort (b n : ℕ) : String := write b (Nat.log b n + 1) n

theorem read_writeShort (hb : 1 < b) (hb' : b ≤ 16) (n : ℕ) : read b (writeShort b n) = some n := by
  rw [writeShort, read_write (by omega) hb', Nat.mod_eq_of_lt (Nat.lt_pow_succ_log_self hb n)]

end Numerals

namespace Limbs
open Positional

/-- The eight bytes of a word. -/
def wordBytes (x : UInt64) : List UInt8 := (toLittleEndian 8 x.toNat).toList

def toBytes (xs : List UInt64) : List UInt8 := xs.flatMap wordBytes

/-- The first `len` words of some bytes. -/
def ofBytes : (len : ℕ) → List UInt8 → List UInt64
  | 0, _ => []
  | len + 1, bytes =>
      UInt64.ofNat (fromLittleEndian (bytes.take 8)) :: ofBytes len (bytes.drop 8)

@[simp] theorem length_wordBytes (x : UInt64) : (wordBytes x).length = 8 := by
  simp [wordBytes]

@[simp] theorem length_toBytes (xs : List UInt64) : (toBytes xs).length = 8 * xs.length := by
  induction xs with
  | nil => rfl
  | cons x xs ih =>
      rw [toBytes, List.flatMap_cons, List.length_append, length_wordBytes, List.length_cons]
      rw [toBytes] at ih
      omega

theorem ofNat_wordBytes (x : UInt64) : UInt64.ofNat (fromLittleEndian (wordBytes x)) = x := by
  have fits : x.toNat < 256 ^ 8 := x.toNat_lt
  rw [wordBytes, fromLittleEndian_toLittleEndian, Nat.mod_eq_of_lt fits, UInt64.ofNat_toNat]

/-- Reading gives back what was written. -/
theorem ofBytes_toBytes (xs : List UInt64) : ofBytes xs.length (toBytes xs) = xs := by
  induction xs with
  | nil => rfl
  | cons x xs ih =>
      have split : toBytes (x :: xs) = wordBytes x ++ toBytes xs := List.flatMap_cons
      rw [List.length_cons, ofBytes, split, List.take_left' (length_wordBytes x),
        List.drop_left' (length_wordBytes x), ofNat_wordBytes, ih]

end Limbs
