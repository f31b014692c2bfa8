import Psplink.Lib.CStr

/-!
# strtoul

The function of the C library, for a long of 32 bits and for one of any size.
-/

namespace Psplink.Lib.Strtoul

def isSpace (c : UInt8) : Bool := c = 32 ∨ 9 ≤ c ∧ c ≤ 13

def digit (c : UInt8) : Option Nat :=
  if 48 ≤ c ∧ c ≤ 57 then some (c.toNat - 48)
  else if 65 ≤ c ∧ c ≤ 90 then some (c.toNat - 55)
  else if 97 ≤ c ∧ c ≤ 122 then some (c.toNat - 87)
  else none

def isDigit (base : Nat) (c : UInt8) : Bool := (digit c).any fun d => d < base

/-- Whether there is a minus, and what follows the sign. -/
def sign : Bytes → Bool × Bytes
  | 45 :: text => (true, text)
  | 43 :: text => (false, text)
  | text => (false, text)

/-- `0x` counts when a digit follows it. -/
def hexPrefixed : Bytes → Bool
  | 48 :: x :: c :: _ => (x = 120 ∨ x = 88) ∧ isDigit 16 c
  | _ => false

def radix (base : Nat) (text : Bytes) : Nat × Bytes :=
  if (base = 0 ∨ base = 16) ∧ hexPrefixed text then (16, text.drop 2)
  else if base = 0 then (if text.head? = some 48 then 8 else 10, text)
  else (base, text)

def value (base : Nat) (digits : Bytes) : Nat :=
  digits.foldl (fun acc c => acc * base + (digit c).getD 0) 0

/-- A value too large is cut down to the largest. -/
def signed (negative : Bool) (n : Nat) : BitVec 32 :=
  if 2 ^ 32 ≤ n then BitVec.allOnes 32 else if negative then -BitVec.ofNat 32 n else BitVec.ofNat 32 n

/-- The value and the text after it, which is the whole text where there is no number. -/
def strtoul (base : Nat) (text : Bytes) : BitVec 32 × Bytes :=
  let (negative, rest) := sign (text.dropWhile isSpace)
  let (base, rest) := radix base rest
  let digits := rest.takeWhile (isDigit base)
  if digits = [] then (0, text) else (signed negative (value base digits), rest.dropWhile (isDigit base))

def signedTo (bits : Nat) (negative : Bool) (n : Nat) : BitVec bits :=
  if 2 ^ bits ≤ n then BitVec.allOnes bits else if negative then -BitVec.ofNat bits n else BitVec.ofNat bits n

def strtoulTo (bits base : Nat) (text : Bytes) : BitVec bits × Bytes :=
  let (negative, rest) := sign (text.dropWhile isSpace)
  let (base, rest) := radix base rest
  let digits := rest.takeWhile (isDigit base)
  if digits = [] then (0, text) else (signedTo bits negative (value base digits), rest.dropWhile (isDigit base))

theorem sign_suffix (text : Bytes) : (sign text).2 <:+ text := by
  unfold sign
  split
  · exact List.suffix_cons _ _
  · exact List.suffix_cons _ _
  · exact List.suffix_refl _

theorem radix_suffix (base : Nat) (text : Bytes) : (radix base text).2 <:+ text := by
  unfold radix
  split
  · exact List.drop_suffix _ _
  · split
    · exact List.suffix_refl _
    · exact List.suffix_refl _

theorem strtoul_suffix (base : Nat) (text : Bytes) : (strtoul base text).2 <:+ text := by
  simp only [strtoul]
  split
  · exact List.suffix_refl _
  · exact (((List.dropWhile_suffix _).trans (radix_suffix _ _)).trans (sign_suffix _)).trans (List.dropWhile_suffix _)

theorem strtoulTo_suffix (bits base : Nat) (text : Bytes) : (strtoulTo bits base text).2 <:+ text := by
  simp only [strtoulTo]
  split
  · exact List.suffix_refl _
  · exact (((List.dropWhile_suffix _).trans (radix_suffix _ _)).trans (sign_suffix _)).trans (List.dropWhile_suffix _)

end Psplink.Lib.Strtoul
