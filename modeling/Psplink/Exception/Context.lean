import Mathlib.Algebra.Ring.Nat

/-!
# Exception contexts

psplink_user/psplink_ex.h: `PsplinkRegBlock` and `struct PsplinkContext` as the words they are laid
out in, which is how the handlers, the block copies and the register packets all see them.
-/

namespace Psplink

abbrev Word := BitVec 32

end Psplink

namespace Psplink.Exception

scoped instance neZeroRegs : NeZero 32 := Nat.instNeZeroSucc
scoped instance neZeroCop0 : NeZero 16 := Nat.instNeZeroSucc

/-- The registers, by their place in the block; `frame` is before them. -/
inductive Reg
  | r (n : Fin 32)
  | status | lo | hi | badvaddr | cause | epc
  | fpr (n : Fin 32)
  | fsr | fir | framePtr | unused
  | cop0 (n : Fin 16)
  | type
  | vfpu (n : Fin 128)
  deriving DecidableEq

def Reg.slot : Reg → Nat
  | .r n => 6 + n
  | .status => 38
  | .lo => 39
  | .hi => 40
  | .badvaddr => 41
  | .cause => 42
  | .epc => 43
  | .fpr n => 44 + n
  | .fsr => 76
  | .fir => 77
  | .framePtr => 78
  | .unused => 79
  | .cop0 n => 80 + n
  | .type => 96
  | .vfpu n => 97 + n

def regWords : Nat := 225

def contextWords : Nat := 229

abbrev Context := Nat → Word

namespace Context

def valid (c : Context) : Word := c 0
def pNext (c : Context) : Word := c 1
def reg (c : Context) (r : Reg) : Word := c (2 + r.slot)
def thid (c : Context) : Word := c 227
def drcntl (c : Context) : Word := c 228

def setReg (c : Context) (r : Reg) (value : Word) : Context :=
  fun i => if i = 2 + r.slot then value else c i

def setRegs (c : Context) (r : Reg) (values : List Word) : Context :=
  fun i => if 2 + r.slot ≤ i then values.getD (i - (2 + r.slot)) (c i) else c i

end Context

def exNormal : Word := 0
def exDebug : Word := 1

end Psplink.Exception
