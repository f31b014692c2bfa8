import Psplink.Exception.Context
import Psplink.Kernel.Libs
import Psplink.Lib.Strtoul
import Psplink.Symbols.Lookup
import Psplink.Util.Text

/-!
# Operands of address expressions

The lookups of psplink/decodeaddr.c, by the names of registers, modules, threads and symbols, and its memory
areas.
-/

namespace Psplink.Address
open Psplink.Lib Psplink.Lib.Flat Psplink.Kernel Psplink.Symbols

abbrev Word := BitVec 32

/-- What a lookup of a thread's status leaves in its structure. -/
structure ThreadInfo where
  entry : Word
  stack : Word
  stackSize : Word

/-- The state of the kernel, of the exception machinery and of the symbols. -/
structure Env where
  modules : ModuleManager
  libs : Kernel.Modules
  threadByName : Bytes → Option Word
  threadStatus : Word → Option ThreadInfo
  symbols : State
  /-- Zero: there is no current exception. -/
  currex : Addr
  protoff : Bool
  isv1 : Bool

def Env.mem (env : Env) : Flat := env.symbols.mem

def Env.lw (env : Env) (addr : Addr) : Word := load (BitVec 32) env.mem addr

/-! ## Memory areas -/

structure MemEntry where
  addr : Word
  size : Word
  attrib : Word
  v1only : Bool

abbrev memAttribRead : Word := 1
abbrev memAttribWord : Word := 32
abbrev memAttribAll : Word := 0xFFFFFFFF

def memareas : List MemEntry :=
  [⟨0x00010000, 0x4000, memAttribAll, false⟩, ⟨0x40010000, 0x4000, memAttribAll, false⟩,
   ⟨0x04000000, 0x200000, memAttribAll, false⟩, ⟨0x44000000, 0x200000, memAttribAll, false⟩,
   ⟨0x08800000, 0x1800000, memAttribAll, false⟩, ⟨0x48800000, 0x1800000, memAttribAll, false⟩,
   ⟨0x88000000, 0x400000, memAttribAll, false⟩, ⟨0xA8000000, 0x400000, memAttribAll, false⟩,
   ⟨0x88400000, 0x400000, memAttribAll, true⟩, ⟨0xC8400000, 0x400000, memAttribAll, true⟩,
   ⟨0x88800000, 0x1800000, memAttribAll, false⟩, ⟨0xA8800000, 0x1800000, memAttribAll, false⟩,
   ⟨0xBFC00000, 0x100000, memAttribAll, false⟩]

namespace Env

variable (env : Env)

/-- How many bytes are left in the area of an address. -/
def memValidate (addr attrib : Word) : Nat :=
  let sizeLeft :=
    match memareas.find? fun entry => entry.addr ≤ addr ∧ addr < entry.addr + entry.size with
    | some entry =>
        if entry.attrib &&& attrib = attrib ∧ (¬ entry.v1only ∨ env.isv1) then entry.size.toNat - (addr - entry.addr).toNat
        else 0
    | none => 0
  if env.protoff ∧ sizeLeft = 0 then 4 else sizeLeft

def derefAddr : Nat → Word → Option Word
  | 0, val => some val
  | deref + 1, val =>
      if val &&& 3 ≠ 0 then none
      else if env.memValidate val (memAttribRead ||| memAttribWord) < 4 then none
      else derefAddr deref (env.lw val)

end Env

/-! ## Lookups -/

/-- What a lookup gives, and the words that are read through a pointer for it. -/
structure Looked where
  value : Option Word
  reads : List Addr

def regName : List Bytes :=
  ["zr", "at", "v0", "v1", "a0", "a1", "a2", "a3", "t0", "t1", "t2", "t3", "t4", "t5", "t6", "t7",
   "s0", "s1", "s2", "s3", "s4", "s5", "s6", "s7", "t8", "t9", "k0", "k1", "gp", "sp", "fp", "ra"].map ascii

/-- Which register of the current exception `exceptionGetReg` points to. -/
def exceptionReg (reg : Bytes) : Option Exception.Reg :=
  if reg = ascii "epc" then some .epc
  else if reg = ascii "fsr" then some .fsr
  else
    ((List.finRange 32).find? fun n => regName[n.val]? = some reg).map Exception.Reg.r

/-- The address of a register: `valid` and `pNext` come before the block. -/
def regAddr (currex : Addr) (reg : Exception.Reg) : Addr := offset currex (4 * (2 + reg.slot))

abbrev at_ : UInt8 := 64
abbrev percent : UInt8 := 37
abbrev question : UInt8 := 63
abbrev comma : UInt8 := 44
abbrev backquote : UInt8 := 96

/-- The text before a character, and the text after it where it is there. -/
def cutAt (c : UInt8) (text : Bytes) : Bytes × Option Bytes :=
  (text.takeWhile (· ≠ c), if c ∈ text then some (text.drop ((text.takeWhile (· ≠ c)).length + 1)) else none)

namespace Env

variable (env : Env)

/-- `exceptionGetReg`, and the word at its pointer. -/
def getReg (name : Bytes) : Looked :=
  match exceptionReg name with
  | none => ⟨none, []⟩
  | some reg => ⟨some (env.lw (regAddr env.currex reg)), [regAddr env.currex reg]⟩

/-- The id of a module, which may be a hexadecimal number. -/
def moduleUid (name : Bytes) : Option Word :=
  match env.modules.findModuleByName name with
  | some modid => some modid
  | none => if (Strtoul.strtoul 16 name).2 = [] then some (Strtoul.strtoul 16 name).1 else none

def toText (bytes : Bytes) : Kernel.Text := bytes.map UInt8.toBitVec

def exportValue (uid : Word) (library name : Bytes) : Word :=
  if ascii "0x" <+: name then env.libs.libsFindExportByNid uid (toText library) (Strtoul.strtoul 16 name).1
  else env.libs.libsFindExportByName uid (toText library) (toText name)

/-- A field of the segment with this digit. -/
def segment (info : ModuleInfo) (field : Nat → BitVec 32) (digit : UInt8) : Option Word :=
  if 49 ≤ digit ∧ digit ≤ 52 then
    let id := digit.toNat - 49
    some (if (id : Int) < info.nsegment.toInt then field id else 0)
  else none

/-- What the text after the colon asks for. -/
def moduleField (uid : Word) (info : ModuleInfo) (pcolon : Option Bytes) : Option Word :=
  match pcolon with
  | none => some info.textAddr
  | some ext =>
      if ext = ascii "text" then some info.textAddr
      else if ext = ascii "stext" then some info.textSize
      else if ext = ascii "sdata" then some info.dataSize
      else if ext = ascii "sbss" then some info.bssSize
      else
        match cutAt comma ext with
        | (library, some name) => some (env.exportValue uid library name)
        | (_, none) =>
            match ext with
            | [s, digit] => if s = 115 then segment info info.segmentsize digit else none
            | [digit] => segment info info.segmentaddr digit
            | _ => none

/-- `get_modaddr`; that `psplinkReferModule` fails is not looked at. -/
def getModaddr (name : Bytes) : Option Word :=
  let (name, pcolon) := cutAt colon name
  match env.moduleUid name with
  | none => none
  | some uid =>
      let (_, info) := env.modules.psplinkReferModule uid
      env.moduleField uid info pcolon

def threadUid (name : Bytes) : Option Word :=
  match env.threadByName name with
  | some uid => some uid
  | none => if (Strtoul.strtoul 16 name).2 = [] then some (Strtoul.strtoul 16 name).1 else none

def getThreadaddr (name : Bytes) : Option Word :=
  let (name, pcolon) := cutAt colon name
  match (env.threadUid name).bind env.threadStatus with
  | none => none
  | some info =>
      match pcolon with
      | none => some info.entry
      | some ext =>
          if ext = ascii "stack" then some info.stack
          else if ext = ascii "sstack" then some info.stackSize
          else none

/-- The branch for symbols of `parse_line`; a backquote asks for the size. -/
def getSymbol (name : Bytes) : Option Word :=
  let (getsize, line) := match name with
    | 96 :: line => (true, line)
    | line => (false, line)
  let (temp, size) := env.symbols.symbolFindByName env.modules line
  if temp = 0 then none else if getsize then size else some temp

end Env

inductive Kind
  | register | module_ | thread | symbol
deriving DecidableEq

/-- An operand that is looked up by its name. -/
structure Named where
  kind : Kind
  name : Bytes
deriving DecidableEq

def Env.lookup (env : Env) (o : Named) : Looked :=
  match o.kind with
  | .register => env.getReg o.name
  | .module_ => ⟨env.getModaddr o.name, []⟩
  | .thread => ⟨env.getThreadaddr o.name, []⟩
  | .symbol => ⟨env.getSymbol o.name, []⟩

/-! ## Names that nothing has -/

/-- The library and the name that the text after a colon asks for. -/
def exportOf (ext : Bytes) : Option (Bytes × Bytes) :=
  if (["text", "stext", "sdata", "sbss"].map ascii).contains ext then none
  else (cutAt comma ext).2.map fun name => ((cutAt comma ext).1, name)

namespace Env

variable (env : Env)

/-- Whether a library of a module has an export with this number, or with the number of this name. -/
def hasExport (uid : Word) (library name : Bytes) : Bool :=
  let nid := if ascii "0x" <+: name then (Strtoul.strtoul 16 name).1 else env.libs.libsNameToNid (toText name)
  (env.libs.libsFindLibrary uid (toText library)).any fun entry =>
    (List.range entry.stubcount.toNat).any fun count => entry.entrytable count = nid

def missingModule (name : Bytes) : Bool :=
  match env.moduleUid (cutAt colon name).1 with
  | none => true
  | some uid =>
      (env.modules.psplinkReferModule uid).1 = 0 ∨
        (((cutAt colon name).2.bind exportOf).any fun export_ => ! env.hasExport uid export_.1 export_.2)

/-- An unknown register, a register while there is no current exception, a module or a thread that cannot be referred
to, a missing export, or a missing symbol. -/
def missing (o : Named) : Bool :=
  match o.kind with
  | .register => exceptionReg o.name = none ∨ env.currex = 0
  | .module_ => env.missingModule o.name
  | .thread => ((env.threadUid (cutAt colon o.name).1).bind env.threadStatus).isNone
  | .symbol =>
      (env.symbols.symbolFindByName env.modules (if o.name.head? = some backquote then o.name.tail else o.name)).1 = 0

end Env

end Psplink.Address
