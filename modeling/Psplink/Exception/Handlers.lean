import Psplink.Exception.Context
import Psplink.Lib.MipsFrames

/-!
# Exception handlers

psplink_user/exception_asm.S: where the registers of a thread are saved when it traps, and restored
when it goes on.
-/

namespace Psplink.Exception
open Psplink.Lib.Mips hiding Word

abbrev Gpr := Lib.Mips.Reg

/-- The offset of a register in the block (`REG_GPR_0` and so on). -/
def Reg.ofs (r : Reg) : Nat := 4 * r.slot

structure ExSymbols where
  psplinkDefaultExHandler : Word
  psplinkExceptionHandler : Word
  exceptionResume : Word
  psplinkResumeFromException : Word
  psplinkTrap : Word
  g_psplinkContext : Word
  exType : Word

def cu1 : BitVec 16 := 0x2000
def cu2 : BitVec 16 := 0x4000

def fsr : Gpr := 31
def fir : Gpr := 0
def badVAddr : Gpr := 8

/-- The bits of `fsr` that are restored: neither cause nor flags. -/
def fsrMask : Word := 0xFFFC0F83

def gprSlots (first : Nat) : List (Nat × Gpr) := ((List.finRange 32).drop first).map fun r => (Reg.ofs (.r r), r)

def fprSlots : List (Nat × Gpr) := (List.finRange 32).map fun r => (Reg.ofs (.fpr r), r)

/-- `C000` at the first word, `C010` sixteen bytes further, and so on. -/
def vfpuColumns : List (Nat × Fin 8 × Fin 4) :=
  (List.finRange 8).flatMap fun m => (List.finRange 4).map fun c => (Reg.ofs (.vfpu 0) + 16 * (4 * m.val + c.val), m, c)

namespace ExSymbols

variable (sym : ExSymbols)

/-! ## Default handler -/

def defaultEntry : List Op := [.nop, .nop, .li v1 sym.psplinkResumeFromException, .mfc0 v0 epc]

def ifResumed : List Instr := [.beq v0 v1 sym.exceptionResume, .op .nop]

def setNormal : List Op := [.li v1 sym.exType, .sw zero 0 v1]

def toHandler : List Instr := [.j sym.psplinkExceptionHandler, .op .nop]

def defaultCode : List Instr :=
  [sym.defaultEntry.map .op, sym.ifResumed, sym.setNormal.map .op, sym.toHandler].flatten

/-! ## Trap -/

def scan : Word := sym.psplinkExceptionHandler + 4
def noFpu : Word := sym.psplinkExceptionHandler + 396
def noVfpu : Word := sym.psplinkExceptionHandler + 544
def exit : Word := sym.psplinkExceptionHandler + 552

def firstContext : List Op := [.li v0 sym.g_psplinkContext]

def ifNone : List Instr := [.beq v0 zero sym.exit, .op .nop]

def loadValid : List Op := [.lw v1 0 v0]

def ifTaken : List Instr := [.bnel v1 zero sym.scan, .op (.lw v0 4 v0)]

def take : List Op := [.addiu v1 zero 1, .sw v1 0 v0, .addiu v0 v0 8]

def saveGprs : List Op :=
  sws v0 [(Reg.ofs (.r 0), 0), (Reg.ofs (.r 1), 1)] ++
    saveVia 1 v0 [(Reg.ofs (.r 2), .ctrl0 4), (Reg.ofs (.r 3), .ctrl0 5)] ++ sws v0 (gprSlots 4)

def saveCop0 : List Op :=
  saveVia v1 v0
    [(Reg.ofs .lo, .lo), (Reg.ofs .hi, .hi), (Reg.ofs .badvaddr, .cop0 badVAddr), (Reg.ofs .cause, .ctrl0 3),
      (Reg.ofs .epc, .ctrl0 0), (Reg.ofs .status, .ctrl0 2)]

def saveType : List Op := [.li a0 sym.exType, .lw a0 0 a0, .sw a0 (Reg.ofs .type) v0, .lui a0 cu1, .and a0 a0 v1]

def ifNoFpu : List Instr := [.beq a0 zero sym.noFpu, .op .nop]

def saveFpu : List Op :=
  (fprSlots.map fun s => .swc1 s.2 s.1 v0) ++
    saveVia t0 v0 [(Reg.ofs .fsr, .ctrl1 fsr), (Reg.ofs .fir, .ctrl1 fir)] ++ [.ctc1 zero fsr]

def testVfpu : List Op := [.cfc0 v1 2, .lui a0 cu2, .and a0 a0 v1]

def ifNoVfpu : List Instr := [.beq a0 zero sym.noVfpu, .op .nop]

def saveVfpu : List Op := vfpuColumns.map fun s => .usvq s.2.1 s.2.2 s.1 v0

def saveFp : List Op := [.sw sp (Reg.ofs .framePtr) v0, .addiu v0 v0 (-8)]

def toTrap : List Op := [.move a0 v0, .li v0 sym.psplinkTrap, .mtc0 v0 epc, .nop, .nop]

def handlerCode : List Instr :=
  [sym.firstContext.map .op, sym.ifNone, loadValid.map .op, sym.ifTaken, take.map .op, saveGprs.map .op,
    saveCop0.map .op, sym.saveType.map .op, sym.ifNoFpu, saveFpu.map .op, testVfpu.map .op, sym.ifNoVfpu,
    saveVfpu.map .op, saveFp.map .op, sym.toTrap.map .op, [.eret, .op .nop, .op .nop]].flatten

/-! ## Resume -/

def resumeNoVfpu : Word := sym.exceptionResume + 160
def resumeNoFpu : Word := sym.exceptionResume + 324

def release : List Op := [.move v0 a0, .sw zero 0 v0, .addiu v0 v0 8]

def testStatus (bit : BitVec 16) : List Op := [.lw v1 (Reg.ofs .status) v0, .lui a0 bit, .and a0 a0 v1]

def ifResumeNoVfpu : List Instr := [.beq a0 zero sym.resumeNoVfpu, .op .nop]

def restoreVfpu : List Op := vfpuColumns.map fun s => .ulvq s.2.1 s.2.2 s.1 v0

def ifResumeNoFpu : List Instr := [.beq a0 zero sym.resumeNoFpu, .op .nop]

def restoreFpu : List Op :=
  (fprSlots.map fun s => .lwc1 s.2 s.1 v0) ++
    [.lw t0 (Reg.ofs .fsr) v0, .li t1 fsrMask, .and t0 t0 t1, .ctc1 t0 fsr]

def restoreGprs : List Op :=
  lws v0 (gprSlots 3) ++ [.lw 1 (Reg.ofs .epc) v0, .mtc0 1 epc] ++ lws v0 [(Reg.ofs (.r 1), 1)] ++
    [.lw v0 (Reg.ofs (.r 2)) v0, .nop, .nop]

def resumeCode : List Instr :=
  [release.map .op, (testStatus cu2).map .op, sym.ifResumeNoVfpu, restoreVfpu.map .op, (testStatus cu1).map .op,
    sym.ifResumeNoFpu, restoreFpu.map .op, restoreGprs.map .op, [.eret]].flatten

end ExSymbols

end Psplink.Exception
