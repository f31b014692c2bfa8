import Psplink.Lib.Packed

/-!
# Modules that are loaded

What psplink/util.c asks the kernel about them.
-/

namespace Psplink.Kernel
open Psplink.Lib

/-- `SceKernelModuleInfo`, without the fields that nothing here reads. -/
structure ModuleInfo where
  nsegment : BitVec 8
  /-- Of the four segments, as the next. -/
  segmentaddr : Nat → BitVec 32
  segmentsize : Nat → BitVec 32
  textAddr : BitVec 32
  textSize : BitVec 32
  dataSize : BitVec 32
  bssSize : BitVec 32
  name : Bytes

namespace ModuleInfo

/-- `memset` -/
def zero : ModuleInfo := ⟨0, fun _ => 0, fun _ => 0, 0, 0, 0, 0, []⟩

end ModuleInfo

/-- What the kernel answers: the ids of the modules it finds, and what a query returns and leaves in the
structure. -/
structure ModuleManager where
  findModuleByName : Bytes → Option (BitVec 32)
  findModuleByAddress : BitVec 32 → Option (BitVec 32)
  queryModuleInfo : BitVec 32 → ModuleInfo → BitVec 32 × ModuleInfo

namespace ModuleManager

variable (m : ModuleManager)

def psplinkReferModule (uid : BitVec 32) : BitVec 32 × ModuleInfo :=
  let (ret, info) := m.queryModuleInfo uid .zero
  (if ret = 0 then 1 else 0, info)

/-- `module_refer`, with a structure for the info. -/
def moduleRefer (pMod : Option (BitVec 32)) : BitVec 32 × ModuleInfo :=
  match pMod with
  | none => (-1, .zero)
  | some modid =>
      let (ret, info) := m.psplinkReferModule modid
      (if ret = 0 then -1 else modid, info)

def referModuleByAddr (addr : BitVec 32) : BitVec 32 × ModuleInfo := m.moduleRefer (m.findModuleByAddress addr)

def referModuleByName (name : Bytes) : BitVec 32 × ModuleInfo := m.moduleRefer (m.findModuleByName name)

end ModuleManager

end Psplink.Kernel
