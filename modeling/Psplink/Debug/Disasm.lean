import Psplink.Debug.Instructions
import Psplink.Lib.Printf

/-!
# The disassembler

psplink/disasm.c: `decode_args`, `disasmInstruction` and what they print into their buffers.
-/

namespace Psplink.Debug
open Psplink.Lib

/-! ## Options -/

/-- A function that finds the name of an address, for a buffer of some size. -/
structure SymResolve where
  resolve : Word → Nat → Option (List Char)
  fills : ∀ addr size name, resolve addr size = some name → name.length < size

/-- `macros` is the option that turns the macro instructions off. -/
structure DisasmOpts where
  hexints : Bool
  mregs : Bool
  symaddr : Bool
  macros : Bool
  printreal : Bool
  printregs : Bool
  symresolver : Option SymResolve

def symbolSize : Nat := 128

def DisasmOpts.symbol (o : DisasmOpts) (addr : Word) : Option (List Char) :=
  o.symresolver.bind fun symresolver => symresolver.resolve addr symbolSize

abbrev RealRegs := Fin 32 → Word

/-! ## Fields -/

theorem field5_lt (shift : Nat) (op : Word) : (op >>> shift &&& 0x1f).toNat < 32 := by
  rw [BitVec.toNat_and]
  exact Nat.lt_of_le_of_lt Nat.and_le_right (by decide)

def field5 (shift : Nat) (op : Word) : Fin 32 := ⟨(op >>> shift &&& 0x1f).toNat, field5_lt shift op⟩

def rt (op : Word) : Fin 32 := field5 16 op
def rs (op : Word) : Fin 32 := field5 21 op
def rd (op : Word) : Fin 32 := field5 11 op
def ft (op : Word) : Fin 32 := field5 16 op
def fs (op : Word) : Fin 32 := field5 11 op
def fd (op : Word) : Fin 32 := field5 6 op
def sa (op : Word) : Fin 32 := field5 6 op
def imm (op : Word) : Word := (op.setWidth 16).signExtend 32
def immu (op : Word) : Word := op &&& 0xFFFF
def jump (op pc : Word) : Word := (pc &&& (0xF0000000 : Word)) ||| ((op &&& 0x3FFFFFF) <<< 2)
def code (op : Word) : Word := op >>> 6 &&& 0xFFFFF
def vo (op : Word) : Word := ((op &&& 3) <<< 5) ||| (op >>> 16 &&& 0x1F)
def vcc (op : Word) : Word := op >>> 18 &&& 7
def vd (op : Word) : Word := op &&& 0x7F
def vs (op : Word) : Word := op >>> 8 &&& 0x7F
def vt (op : Word) : Word := op >>> 16 &&& 0x7F

/-! ## Operands -/

def regName : List (List Char) :=
  [['z','r'], ['a','t'], ['v','0'], ['v','1'], ['a','0'], ['a','1'], ['a','2'], ['a','3'],
   ['t','0'], ['t','1'], ['t','2'], ['t','3'], ['t','4'], ['t','5'], ['t','6'], ['t','7'],
   ['s','0'], ['s','1'], ['s','2'], ['s','3'], ['s','4'], ['s','5'], ['s','6'], ['s','7'],
   ['t','8'], ['t','9'], ['k','0'], ['k','1'], ['g','p'], ['s','p'], ['f','p'], ['r','a']]

def cop0Regs : List (Option (List Char)) :=
  [none, none, none, none, none, none, none, none,
   some ['B','a','d','V','a','d','d','r'], some ['C','o','u','n','t'], none, some ['C','o','m','p','a','r','e'],
   some ['S','t','a','t','u','s'], some ['C','a','u','s','e'], some ['E','P','C'], some ['P','r','I','D'],
   some ['C','o','n','f','i','g'], none, none, none, none, none, none, none,
   none, some ['E','B','a','s','e'], none, none, some ['T','a','g','L','o'], some ['T','a','g','H','i'],
   some ['E','r','r','o','r','P','C'], none]

def drRegs : List (Option (List Char)) :=
  [some ['D','R','C','N','T','L'], some ['D','E','P','C'], some ['D','D','A','T','A','0'], some ['D','D','A','T','A','1'],
   some ['I','B','C'], some ['D','B','C'], none, none,
   some ['I','B','A'], some ['I','B','A','M'], none, none,
   some ['D','B','A'], some ['D','B','A','M'], some ['D','B','D'], some ['D','B','D','M']]

/-- What is printed: text, a register of the processor or an address. -/
inductive Printed
  | text (chars : List Char)
  | cpureg (reg : Fin 32)
  | jump (addr : Word)

section
variable (o : DisasmOpts)

def printCpureg (reg : Fin 32) : List Char :=
  if !o.mregs then '$' :: regName.getD reg [] else '$' :: zeroPadded 2 (decimal reg.val)

def printInt (i : Int) : List Char := decimal i

def printHex (i : Nat) : List Char := ['0', 'x'] ++ hexadecimal i

def printImm (ofs : Word) : List Char :=
  if o.hexints then ['0', 'x'] ++ zeroPadded 4 (hexadecimal (ofs &&& 0xFFFF).toNat) else decimal ofs.toInt

/-- `0x%08X` -/
def hexWord (word : Word) : List Char := ['0', 'x'] ++ zeroPadded 8 (hexadecimal word.toNat)

def printJump (addr : Word) : List Char :=
  match o.symbol addr with
  | some symbol => symbol
  | none => hexWord addr

def printOfs (ofs : Word) (reg : Fin 32) (realregs : Option RealRegs) : List Printed :=
  match o.printreal, realregs with
  | true, some realregs => [.jump (realregs reg + ofs)]
  | _, _ => [.text (printImm o ofs ++ ['(']), .cpureg reg, .text [')']]

def printPcofs (ofs pc : Word) : List Printed := [.jump (pc + (ofs + 1) * 4)]

def printJumpr (reg : Fin 32) (realregs : Option RealRegs) : List Printed :=
  match o.printreal, realregs with
  | true, some realregs => [.jump (realregs reg)]
  | _, _ => [.cpureg reg]

def printSyscall (syscall : Word) : List Char := ['0', 'x'] ++ hexadecimal syscall.toNat

def printCop0 (reg : Fin 32) : List Char :=
  match cop0Regs.getD reg none with
  | some name => name
  | none => '$' :: decimal reg.val

def printCop1 (reg : Fin 32) : List Char := ['$', 'f', 'c', 'r'] ++ decimal reg.val

def printFpureg (reg : Fin 32) : List Char := ['$', 'f', 'p', 'r'] ++ zeroPadded 2 (decimal reg.val)

def printDebugreg (reg : Fin 32) : List Char :=
  match if reg.val < 16 then drRegs.getD reg none else none with
  | some name => name
  | none => '$' :: zeroPadded 2 (decimal reg.val) ++ ['\n']

def number (word : Word) : List Char := decimal word.toInt

def printVfpusingle (reg : Word) : List Char :=
  'S' :: number (reg >>> 2 &&& 7) ++ number (reg &&& 3) ++ number (reg >>> 5 &&& 3)

def printVfpuReg (reg offset : Word) (one two : Char) : List Char :=
  if reg >>> 5 &&& 1 ≠ 0 then two :: number (reg >>> 2 &&& 7) ++ number offset ++ number (reg &&& 3)
  else one :: number (reg >>> 2 &&& 7) ++ number (reg &&& 3) ++ number offset

def printVfpuquad (reg : Word) : List Char := printVfpuReg reg 0 'C' 'R'

def printVfpupair (reg : Word) : List Char :=
  if reg >>> 6 &&& 1 ≠ 0 then printVfpuReg reg 2 'C' 'R' else printVfpuReg reg 0 'C' 'R'

def printVfputriple (reg : Word) : List Char :=
  if reg >>> 6 &&& 1 ≠ 0 then printVfpuReg reg 1 'C' 'R' else printVfpuReg reg 0 'C' 'R'

def printVfpumpair (reg : Word) : List Char :=
  if reg >>> 6 &&& 1 ≠ 0 then printVfpuReg reg 2 'M' 'E' else printVfpuReg reg 0 'M' 'E'

def printVfpumtriple (reg : Word) : List Char :=
  if reg >>> 6 &&& 1 ≠ 0 then printVfpuReg reg 1 'M' 'E' else printVfpuReg reg 0 'M' 'E'

def printVfpumatrix (reg : Word) : List Char := printVfpuReg reg 0 'M' 'E'

def printVfpureg (reg : Word) (type : Char) : List Char :=
  match type with
  | 's' => printVfpusingle reg
  | 'q' => printVfpuquad reg
  | 'p' => printVfpupair reg
  | 't' => printVfputriple reg
  | 'm' => printVfpumpair reg
  | 'n' => printVfpumtriple reg
  | 'o' => printVfpumatrix reg
  | _ => []

/-- The conversions that are one character. -/
def decodeArg (op pc : Word) (realregs : Option RealRegs) (conversion : Char) : List Printed :=
  match conversion with
  | 'd' => [.cpureg (rd op)]
  | 't' => [.cpureg (rt op)]
  | 's' => [.cpureg (rs op)]
  | 'i' => [.text (printImm o (imm op))]
  | 'I' => [.text (printHex (immu op).toNat)]
  | 'o' => printOfs o (imm op) (rs op) realregs
  | 'O' => printPcofs (imm op) pc
  | 'V' => printOfs o (imm op) (rs op) realregs
  | 'j' => [.jump (jump op pc)]
  | 'J' => printJumpr o (rs op) realregs
  | 'a' => [.text (printInt (sa op).val)]
  | '0' => [.text (printCop0 (rd op))]
  | '1' => [.text (printCop1 (rd op))]
  | 'p' => [.text ('$' :: printInt (rd op).val)]
  | 'k' => [.text (printHex (rt op).val)]
  | 'D' => [.text (printFpureg (fd op))]
  | 'T' => [.text (printFpureg (ft op))]
  | 'S' => [.text (printFpureg (fs op))]
  | 'r' => [.text (printDebugreg (rd op))]
  | 'n' => [.text (printInt ((rd op).val + 1))]
  | 'Z' => [.text (printImm o (vcc op))]
  | 'c' => [.text (printHex (code op).toNat)]
  | 'C' => [.text (printSyscall (code op))]
  | 'Y' => printOfs o (imm op &&& ~~~3) (rs op) realregs
  | _ => []

/-- The register of a conversion with a type after it. -/
def vfpuArg (op : Word) (vmmul : Bool) (conversion : Char) : Option Word :=
  match conversion with
  | 'x' => some (vt op)
  | 'y' =>
      let reg := vs op
      some (if vmmul then if reg &&& 0x20 ≠ 0 then reg &&& 0x5F else reg ||| 0x20 else reg)
  | 'z' => some (vd op)
  | 'X' => some (vo op)
  | _ => none

def decodeArgs (op pc : Word) (realregs : Option RealRegs) : List Char → Bool → List Printed
  | [], _ => []
  | '%' :: conversion :: fmt, vmmul =>
      match vfpuArg op vmmul conversion, fmt with
      | some reg, type :: fmt => .text (printVfpureg reg type) :: decodeArgs op pc realregs fmt vmmul
      | some _, [] => []
      | none, fmt =>
          if conversion = '?' then decodeArgs op pc realregs fmt true
          else decodeArg o op pc realregs conversion ++ decodeArgs op pc realregs fmt vmmul
  | ['%'], _ => []
  | c :: fmt, vmmul => .text [c] :: decodeArgs op pc realregs fmt vmmul

def Printed.chars : Printed → List Char
  | .text chars => chars
  | .cpureg reg => printCpureg o reg
  | .jump addr => printJump o addr

/-- `g_regmask` -/
def regmask (printed : List Printed) : Word :=
  printed.foldl (fun mask p => match p with
    | .cpureg reg => if o.printregs then mask ||| (1 : Word) <<< reg.val else mask
    | _ => mask) 0

/-! ## Instructions -/

def findInstruction (op : Word) : Option Instruction :=
  match if !o.macros then lastMatch Instruction.pattern macroInst op else none with
  | some ix => some ix
  | none => lastMatch Instruction.pattern inst op

def addrSymbol (pc : Word) : Option (List Char) := if o.symaddr then o.symbol pc else none

def addrText (pc : Word) : List Char :=
  match addrSymbol o pc with
  | some name => leftAligned 20 name
  | none => hexWord pc

def unknownText (op pc : Word) : List Char :=
  addrText o pc ++ [':', ' '] ++ zeroPadded 8 (hexadecimal op.toNat) ++ [' ', '-', ' ', 'U', 'n', 'k', 'n', 'o', 'w', 'n']

def argsOf (op pc : Word) (realregs : Option RealRegs) (ix : Instruction) : List Printed :=
  decodeArgs o op pc realregs ix.fmt false

def argsText (op pc : Word) (realregs : Option RealRegs) (ix : Instruction) : List Char :=
  (argsOf o op pc realregs ix).flatMap (Printed.chars o)

def codeText (op pc : Word) (realregs : Option RealRegs) (ix : Instruction) : List Char :=
  addrText o pc ++ [':', ' '] ++ zeroPadded 8 (hexadecimal op.toNat) ++ [' ', '-', ' '] ++ leftAligned 10 ix.name ++
    ' ' :: argsText o op pc realregs ix

/-- The text, and the mask of the registers that are printed. -/
def disasmInstruction (op pc : Word) (realregs : Option RealRegs) : List Char × Option Word :=
  match findInstruction o op with
  | some ix => (codeText o op pc realregs ix, some (regmask o (argsOf o op pc realregs ix)))
  | none => (unknownText o op pc, none)

/-! ## Buffers -/

inductive TextBuffer
  | addrtemp | addr | args | code
  deriving DecidableEq

def TextBuffer.size : TextBuffer → Nat
  | .addrtemp | .addr | .args => 128
  | .code => 256

/-- The texts that are written into the buffers of the address, each with a NUL after it. -/
def addrWrites (pc : Word) : List (TextBuffer × List Char) :=
  (.addr, hexWord pc) ::
    match addrSymbol o pc with
    | some name => [(.addrtemp, name), (.addr, leftAligned 20 name)]
    | none => []

def codeWrites (op pc : Word) (realregs : Option RealRegs) : List (TextBuffer × List Char) :=
  (.code, unknownText o op pc) ::
    match findInstruction o op with
    | some ix => [(.args, argsText o op pc realregs ix), (.code, codeText o op pc realregs ix)]
    | none => []

/-- Everything that `disasmInstruction` and `decode_args` write, in order. -/
def disasmWrites (op pc : Word) (realregs : Option RealRegs) : List (TextBuffer × List Char) :=
  addrWrites o pc ++ codeWrites o op pc realregs

end

end Psplink.Debug
