import Mathlib.Algebra.Ring.Nat
import Mathlib.Algebra.Order.Group.Int
import Mathlib.Data.List.Induction
import Mathlib.Tactic.Common

/-!
# Numbers as text

The conversions of `printf` as lists of characters, and how long these are.
-/

namespace Psplink.Lib

/-- `%d` -/
def decimal : Int → List Char
  | .ofNat n => Nat.toDigits 10 n
  | .negSucc n => '-' :: Nat.toDigits 10 (n + 1)

/-- `%X` -/
def hexadecimal (n : Nat) : List Char := (Nat.toDigits 16 n).map Char.toUpper

/-- `%x` -/
def lowercaseHex (n : Nat) : List Char := Nat.toDigits 16 n

/-- The flag `0` with a width. -/
def zeroPadded (width : Nat) (text : List Char) : List Char := text.leftpad width '0'

/-- The flag `-` with a width. -/
def leftAligned (width : Nat) (text : List Char) : List Char := text.rightpad width ' '

theorem length_decimal {n : Nat} {k : Nat} (some : 0 < k) (small : n < 10 ^ k) : (decimal n).length ≤ k :=
  (Nat.length_toDigits_le_iff (by decide) some).mpr small

theorem length_decimal_le {i : Int} {k : Nat} (some : 0 < k) (small : i.natAbs < 10 ^ k) : (decimal i).length ≤ k + 1 := by
  cases i with
  | ofNat n => exact Nat.le_succ_of_le (length_decimal some small)
  | negSucc n =>
      rw [decimal, List.length_cons]
      exact Nat.succ_le_succ ((Nat.length_toDigits_le_iff (by decide) some).mpr small)

theorem length_hexadecimal {n k : Nat} (some : 0 < k) (small : n < 16 ^ k) : (hexadecimal n).length ≤ k := by
  rw [hexadecimal, List.length_map]
  exact (Nat.length_toDigits_le_iff (by decide) some).mpr small

@[simp] theorem length_zeroPadded (width : Nat) (text : List Char) :
    (zeroPadded width text).length = max width text.length := List.length_leftpad

@[simp] theorem length_leftAligned (width : Nat) (text : List Char) :
    (leftAligned width text).length = max width text.length := List.length_rightpad

theorem length_zeroPadded_hexadecimal {n k : Nat} (some : 0 < k) (small : n < 16 ^ k) :
    (zeroPadded k (hexadecimal n)).length = k := by
  rw [length_zeroPadded, max_eq_left (length_hexadecimal some small)]

theorem mem_lowercaseHex {c : Char} {n : Nat} (mem : c ∈ lowercaseHex n) : ∃ d < 16, c = Nat.digitChar d := by
  unfold lowercaseHex at mem
  induction n using Nat.strongRecOn with
  | ind n ih =>
      rw [Nat.toDigits_eq_if (by decide)] at mem
      split at mem
      · next small => exact ⟨n, small, List.mem_singleton.mp mem⟩
      · rcases List.mem_append.mp mem with front | back
        · exact ih (n / 16) (by omega) front
        · exact ⟨n % 16, Nat.mod_lt _ (by decide), List.mem_singleton.mp back⟩

theorem digitChar_inj : ∀ m < 16, ∀ n < 16, Nat.digitChar m = Nat.digitChar n → m = n := by decide

/-- A number is known by its text. -/
theorem lowercaseHex_inj {m n : Nat} (same : lowercaseHex m = lowercaseHex n) : m = n := by
  unfold lowercaseHex at same
  have base : 1 < 16 := by decide
  induction m using Nat.strongRecOn generalizing n with
  | ind m ih =>
      rw [Nat.toDigits_eq_if base (n := m), Nat.toDigits_eq_if base (n := n)] at same
      split at same
      · next smallM =>
        split at same
        · next smallN => exact digitChar_inj m smallM n smallN (List.singleton_inj.mp same)
        · have lengths := congrArg List.length same
          simp at lengths
      · next largeM =>
        split at same
        · have lengths := congrArg List.length same
          simp at lengths
        · obtain ⟨front, back⟩ := List.append_inj' same rfl
          have high := ih (m / 16) (by omega) front
          have low := digitChar_inj _ (Nat.mod_lt _ (by decide)) _ (Nat.mod_lt _ (by decide)) (List.singleton_inj.mp back)
          omega

/-! ## Reading a number back -/

/-- A digit in either case. -/
def hexDigitOf (c : Char) : Nat :=
  if c.toNat < 58 then c.toNat - 48 else if c.toNat < 91 then c.toNat - 55 else c.toNat - 87

def hexValue (text : List Char) : Nat := text.foldl (fun v c => 16 * v + hexDigitOf c) 0

theorem hexDigitOf_digitChar : ∀ d < 16, hexDigitOf (Nat.digitChar d) = d := by decide

theorem hexDigitOf_toUpper : ∀ d < 16, hexDigitOf (Nat.digitChar d).toUpper = d := by decide

theorem hexValue_concat (s : List Char) (c : Char) : hexValue (s ++ [c]) = 16 * hexValue s + hexDigitOf c := by
  simp [hexValue]

theorem hexValue_append (s t : List Char) : hexValue (s ++ t) = 16 ^ t.length * hexValue s + hexValue t := by
  induction t using List.reverseRecOn with
  | nil => simp [hexValue]
  | append_singleton t c ih =>
      rw [← List.append_assoc, hexValue_concat, ih, hexValue_concat, List.length_append, List.length_singleton, Nat.pow_succ,
        Nat.mul_add, ← Nat.mul_assoc, Nat.mul_comm 16 (16 ^ _), Nat.add_assoc]

/-- A number is read back from its digits, in whichever case these are printed. -/
theorem hexValue_digits {f : Char → Char} (digits : ∀ d < 16, hexDigitOf (f (Nat.digitChar d)) = d) (n : Nat) :
    hexValue ((Nat.toDigits 16 n).map f) = n := by
  induction n using Nat.strongRecOn with
  | ind n ih =>
      rw [Nat.toDigits_eq_if (by decide)]
      split
      · next small => simp [hexValue, digits n small]
      · rw [List.map_append, List.map_singleton, hexValue_concat, ih (n / 16) (by omega), digits _ (Nat.mod_lt _ (by decide))]
        omega

theorem hexValue_lowercaseHex (n : Nat) : hexValue (lowercaseHex n) = n := by
  have whole := hexValue_digits (f := id) hexDigitOf_digitChar n
  rwa [List.map_id] at whole

theorem hexValue_hexadecimal (n : Nat) : hexValue (hexadecimal n) = n := hexValue_digits hexDigitOf_toUpper n

theorem hexValue_zeroPadded (width : Nat) (text : List Char) : hexValue (zeroPadded width text) = hexValue text := by
  have zeros (k : Nat) : hexValue (List.replicate k '0') = 0 := by
    induction k with
    | zero => rfl
    | succ k ih =>
        rw [List.replicate_succ', hexValue_concat, ih]
        rfl
  rw [zeroPadded, List.leftpad, hexValue_append, zeros, Nat.mul_zero, Nat.zero_add]

theorem mem_hexadecimal {c : Char} {n : Nat} (mem : c ∈ hexadecimal n) : ∃ d < 16, c = (Nat.digitChar d).toUpper := by
  obtain ⟨digit, inside, rfl⟩ := List.mem_map.mp mem
  obtain ⟨d, small, rfl⟩ := mem_lowercaseHex inside
  exact ⟨d, small, rfl⟩

end Psplink.Lib
