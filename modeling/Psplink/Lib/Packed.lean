import Mathlib.Algebra.Ring.Nat
import Mathlib.Tactic.Common
import Psplink.Lib.Components

/-!
# Packed little-endian layouts

What `__attribute__((packed))` means on a little-endian machine: the bytes of a structure are the
bytes of its fields, one after the other. An instance of `Packed` carries its size and the round
trip, so a structure declared by `Packed.ofFields` needs no lemma of its own.
-/

namespace Psplink.Lib

abbrev Bytes := List UInt8

/-! ## Words -/

def toLE : Nat → Nat → Bytes
  | 0, _ => []
  | k + 1, n => UInt8.ofNat n :: toLE k (n / 256)

def ofLE : Bytes → Nat
  | [] => 0
  | b :: bs => b.toNat + 256 * ofLE bs

@[simp] theorem length_toLE (k n : Nat) : (toLE k n).length = k := by
  induction k generalizing n with
  | zero => rfl
  | succ k ih => simp [toLE, ih]

theorem ofLE_toLE (k n : Nat) : ofLE (toLE k n) = n % 256 ^ k := by
  induction k generalizing n with
  | zero => simp [toLE, ofLE, Nat.mod_one]
  | succ k ih =>
      have low : (UInt8.ofNat n).toNat = n % 256 := by simp
      rw [toLE, ofLE, low, ih, Nat.pow_succ', Nat.mod_mul]

theorem ofLE_lt (bs : Bytes) : ofLE bs < 256 ^ bs.length := by
  induction bs with
  | nil => decide
  | cons b bs ih =>
      have low : b.toNat < 256 := b.toNat_lt
      rw [ofLE, List.length_cons, Nat.pow_succ]
      omega

theorem toLE_ofLE (bs : Bytes) (k : Nat) (size : bs.length = k) : toLE k (ofLE bs) = bs := by
  induction k generalizing bs with
  | zero => rw [List.length_eq_zero_iff.mp size, toLE]
  | succ k ih =>
      cases bs with
      | nil => cases size
      | cons b bs =>
          have low : b.toNat < 256 := b.toNat_lt
          have first : (b.toNat + 256 * ofLE bs) % 256 = b.toNat := by omega
          have rest : (b.toNat + 256 * ofLE bs) / 256 = ofLE bs := by omega
          rw [ofLE, toLE, rest, ih bs (Nat.succ.inj size)]
          congr 1
          apply UInt8.toNat_inj.mp
          rw [UInt8.toNat_ofNat', first]

/-! ## Layouts -/

class Packed (α : Type) where
  size : Nat
  encode : α → Bytes
  decode : Bytes → α
  length_encode : ∀ a, (encode a).length = size
  decode_encode : ∀ a rest, decode (encode a ++ rest) = a

abbrev sizeof (α : Type) [Packed α] : Nat := Packed.size α

export Packed (encode decode)

namespace Packed

variable {α β : Type}

attribute [simp] length_encode decode_encode

@[simp] theorem decode_encode_self [Packed α] (a : α) : decode (encode a) = a := by
  simpa using decode_encode a []

theorem drop_encode [Packed α] (a : α) (rest : Bytes) :
    (encode a ++ rest).drop (sizeof α) = rest :=
  List.drop_left' (length_encode a)

@[reducible] def word (k : Nat) : Packed (BitVec (8 * k)) where
  size := k
  encode w := toLE k w.toNat
  decode bs := BitVec.ofNat _ (ofLE (bs.take k))
  length_encode w := length_toLE k _
  decode_encode w rest := by
    apply BitVec.eq_of_toNat_eq
    rw [List.take_left' (length_toLE k _), ofLE_toLE, BitVec.toNat_ofNat]
    have bound : w.toNat < 256 ^ k := by
      have := w.isLt
      rwa [show (2 : Nat) ^ (8 * k) = 256 ^ k from Nat.pow_mul 2 8 k] at this
    rw [Nat.mod_eq_of_lt bound, Nat.mod_eq_of_lt w.isLt]

instance : Packed (BitVec 16) := word 2
instance : Packed (BitVec 32) := word 4
instance : Packed (BitVec 64) := word 8

theorem encode_decode_word {bs : Bytes} (size : bs.length = 4) : encode (decode bs : BitVec 32) = bs := by
  have bound : ofLE bs < 2 ^ 32 := (ofLE_lt bs).trans_eq (by rw [size]; decide)
  show toLE 4 (BitVec.ofNat 32 (ofLE (bs.take 4))).toNat = bs
  rw [List.take_of_length_le size.le, BitVec.toNat_ofNat, Nat.mod_eq_of_lt bound, toLE_ofLE bs 4 size]

instance [Packed α] [Packed β] : Packed (α × β) where
  size := sizeof α + sizeof β
  encode p := encode p.1 ++ encode p.2
  decode bs := (decode bs, decode (bs.drop (sizeof α)))
  length_encode p := by simp
  decode_encode p rest := by
    rw [List.append_assoc, drop_encode]
    simp

/-- A structure laid out as its fields, in the order of the tuple. -/
@[reducible] def ofFields [Packed β] (fields : α → β) (build : β → α) (id : ∀ a, build (fields a) = a) :
    Packed α where
  size := sizeof β
  encode a := encode (fields a)
  decode bs := build (decode bs)
  length_encode a := length_encode (fields a)
  decode_encode a rest := by rw [decode_encode, id]

end Packed

/-! ## Character arrays and unused words -/

def ascii (s : String) : Bytes := s.toList.map fun c => UInt8.ofNat c.toNat

def cstr (mem : Bytes) : Bytes := mem.takeWhile (· ≠ 0)

theorem cstr_append_zero (s rest : Bytes) (noNul : (0 : UInt8) ∉ s) : cstr (s ++ 0 :: rest) = s := by
  rw [cstr, takeWhile_upto noNul]

theorem noNul_cstr (mem : Bytes) : (0 : UInt8) ∉ cstr mem := by
  intro zero
  simpa using List.mem_takeWhile_imp zero

/-- A string held in a `char[n]`, its terminator included. -/
structure CharArray (n : Nat) where
  text : Bytes
  noNul : (0 : UInt8) ∉ text
  fits : text.length < n

namespace CharArray

theorem ext_text {n : Nat} {a b : CharArray n} (same : a.text = b.text) : a = b := by
  cases a
  cases b
  simp_all

def pad {n : Nat} (a : CharArray n) : Bytes := a.text ++ List.replicate (n - a.text.length) 0

theorem pad_eq {n : Nat} (a : CharArray n) :
    a.pad = a.text ++ 0 :: List.replicate (n - a.text.length - 1) 0 := by
  have := a.fits
  rw [pad, show n - a.text.length = (n - a.text.length - 1) + 1 by omega, List.replicate_succ]
  simp

/-- The string a `char[n + 1]` holds, cut where the array ends. -/
def ofMem (n : Nat) (mem : Bytes) : CharArray (n + 1) where
  text := (cstr mem).take n
  noNul := fun zero => noNul_cstr mem (List.mem_of_mem_take zero)
  fits := by rw [List.length_take]; omega

instance (n : Nat) : Packed (CharArray (n + 1)) where
  size := n + 1
  encode := pad
  decode := ofMem n
  length_encode a := by
    have := a.fits
    simp [pad]
    omega
  decode_encode a rest := by
    apply ext_text
    have short := a.fits
    change (cstr (a.pad ++ rest)).take n = a.text
    rw [pad_eq, List.append_assoc, List.cons_append, cstr_append_zero _ _ a.noNul,
      List.take_of_length_le (by omega)]

end CharArray

/-- `n` bytes that are cleared and never read. -/
structure Unused (n : Nat) where

instance (n : Nat) : Packed (Unused n) where
  size := n
  encode _ := List.replicate n 0
  decode _ := {}
  length_encode _ := List.length_replicate
  decode_encode _ _ := rfl

end Psplink.Lib
