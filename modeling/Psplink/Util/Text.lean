import Mathlib.Data.List.DropRight
import Psplink.Lib.CStr

/-!
# Characters and strings

Functions of psplink/util.c.
-/

namespace Psplink.Util
open Psplink.Lib

def isAspace (ch : UInt8) : Bool := ch = 32 ∨ ch = 9 ∨ ch = 10 ∨ ch = 13

def upcase (ch : UInt8) : UInt8 := if 97 ≤ ch ∧ ch ≤ 122 then ch ^^^ 32 else ch

def hexToInt (ch : UInt8) : Option UInt8 :=
  let ch := upcase ch
  if 48 ≤ ch ∧ ch ≤ 57 then some (ch - 48)
  else if 65 ≤ ch ∧ ch ≤ 70 then some (ch - 65 + 10)
  else none

def isAlnum (ch : UInt8) : Bool :=
  let c := upcase ch
  65 ≤ c ∧ c ≤ 90 ∨ 48 ≤ c ∧ c ≤ 57

def isHex (ch : UInt8) : Bool :=
  let ch := upcase ch
  48 ≤ ch ∧ ch ≤ 57 ∨ 65 ≤ ch ∧ ch ≤ 70

def octToInt (ch : UInt8) : Option UInt8 := if 48 ≤ ch ∧ ch < 56 then some (ch - 48) else none

def stripWhitesp (s : Bytes) : Bytes := (s.rdropWhile isAspace).dropWhile isAspace

end Psplink.Util
