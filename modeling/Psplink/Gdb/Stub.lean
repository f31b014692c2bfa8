import Psplink.Debug.StepGeneric

/-!
# The GDB stub

gdbcommon/gdb-stub.c and the byte accesses of gdb-common.c: the packets, and what each does to
memory, to the context and to the step breakpoints.
-/

namespace Psplink.Gdb
open Psplink.Lib Psplink.Debug Psplink.Exception

abbrev Byte := BitVec 8

abbrev maxBuf : Nat := 2048

/-! ## Bytes of memory -/

def byteOf (w : Word) (i : Nat) : Byte := w.extractLsb' (8 * i) 8

def setByteOf (w : Word) (i : Nat) (b : Byte) : Word :=
  (w &&& ~~~((0xff : Word) <<< (8 * i))) ||| (b.setWidth 32 <<< (8 * i))

def getByte (mem : Memory) (address : Word) : Byte := byteOf (mem (line address)) (address.toNat % 4)

def putByte (mem : Memory) (address : Word) (b : Byte) : Memory :=
  Function.update mem (line address) (setByteOf (mem (line address)) (address.toNat % 4) b)

theorem byteOf_setByteOf (w : Word) (b : Byte) {i j : Nat} (hi : i < 4) (hj : j < 4) :
    byteOf (setByteOf w i b) j = if j = i then b else byteOf w j := by
  have mask (n : Nat) (small : n < 32) : (0xff : Word).getLsbD n = decide (n < 8) :=
    (by decide : ∀ n : Fin 32, (0xff : Word).getLsbD n = decide (n.val < 8)) ⟨n, small⟩
  ext k hk
  simp only [byteOf, setByteOf, BitVec.getElem_extractLsb', BitVec.getLsbD_or, BitVec.getLsbD_and,
    BitVec.getLsbD_not, BitVec.getLsbD_shiftLeft, mask (8 * j + k - 8 * i) (by omega),
    BitVec.getLsbD_setWidth]
  have bound : 8 * j + k < 32 := by omega
  by_cases same : j = i
  · subst same
    have low : ¬ 8 * j + k < 8 * j := by omega
    have small : k < 32 := by omega
    simp [hk, bound, low, small]
  · simp only [if_neg same, BitVec.getElem_extractLsb']
    rcases Nat.lt_or_gt_of_ne same with less | more
    · have low : 8 * j + k < 8 * i := by omega
      simp [bound, low]
    · have high : ¬ 8 * j + k - 8 * i < 8 := by omega
      simp [bound, high, BitVec.getLsbD_of_ge b (8 * j + k - 8 * i) (by omega)]

def sameByte (a a' : Word) : Bool := line a = line a' && a.toNat % 4 = a'.toNat % 4

theorem getByte_putByte (mem : Memory) (a a' : Word) (b : Byte) :
    getByte (putByte mem a b) a' = if sameByte a a' then b else getByte mem a' := by
  unfold getByte putByte sameByte
  by_cases here : line a = line a'
  · rw [← here, Function.update_self, byteOf_setByteOf _ _ (Nat.mod_lt _ (by decide)) (Nat.mod_lt _ (by decide))]
    simp [eq_comm]
  · simp [here, Function.update_of_ne (Ne.symm here)]

/-- User memory, which is all that the stub lets GDB see. -/
def userMemory (address : Word) : Bool := 0x08800000 ≤ address && address < 0x0a000000

def gdbReadByte (mem : Memory) (address : Word) : Option Byte :=
  if userMemory address then some (getByte mem address) else none

def gdbWriteByte (ch : Byte) (dest : Word) (mem : Memory) : Option Memory :=
  if userMemory dest then some (putByte mem dest ch) else none

/-! ## Hexadecimal -/

def char (c : Char) : Byte := BitVec.ofNat 8 c.toNat

/-- `input`: the packet, and what lies in memory behind its NUL. -/
structure Input where
  text : List Byte
  after : Nat → Byte

/-- What is read through a pointer into `input` at `rest`. -/
def Input.stream (input : Input) (rest : List Byte) : Nat → Byte :=
  fun i => (rest ++ [0]).getD i (input.after (i - (rest.length + 1)))

/-- The value of a digit, or -1. -/
def hex (ch : Byte) : Word :=
  if char 'a' ≤ ch ∧ ch ≤ char 'f' then (ch - char 'a' + 10).setWidth 32
  else if char '0' ≤ ch ∧ ch ≤ char '9' then (ch - char '0').setWidth 32
  else if char 'A' ≤ ch ∧ ch ≤ char 'F' then (ch - char 'A' + 10).setWidth 32
  else -1

def hexToInt (ptr : List Byte) : Word × Nat × List Byte := go ptr 0 0
where
  go : List Byte → Word → Nat → Word × Nat × List Byte
    | [], intValue, numChars => (intValue, numChars, [])
    | ch :: ptr, intValue, numChars =>
        if (hex ch).slt 0 then (intValue, numChars, ch :: ptr)
        else go ptr (intValue <<< 4 ||| hex ch) (numChars + 1)

def hexchars (n : Byte) : Byte := if n < 10 then char '0' + n else char 'a' + (n - 10)

def hexByte (ch : Byte) : List Byte := [hexchars (ch >>> 4 &&& 0xf), hexchars (ch &&& 0xf)]

def mem2hex (mem : Memory) : Nat → Word → List Byte × Bool
  | 0, _ => ([], true)
  | count + 1, address =>
      match gdbReadByte mem address with
      | none => ([], false)
      | some ch =>
          let (buf, complete) := mem2hex mem count (address + 1)
          (hexByte ch ++ buf, complete)

def wordHex (w : Word) : List Byte := (List.range 4).flatMap fun i => hexByte (byteOf w i)

def printHex (w : Word) : List Byte := (List.range 4).flatMap fun i => hexByte (byteOf w (3 - i))

def decodeByte (binary : Bool) (buf : Nat → Byte) (i : Nat) : Byte × Nat :=
  if binary then if buf i = 0x7d then (0x20 ^^^ buf (i + 1), i + 2) else (buf i, i + 1)
  else ((hex (buf i) <<< 4 ||| hex (buf (i + 1))).setWidth 8, i + 2)

/-- Memory afterwards, and the pointer behind the last byte if all could be written. -/
def hex2mem (binary : Bool) (buf : Nat → Byte) : Nat → Nat → Word → Memory → Memory × Option Word
  | 0, _, dest, mem => (mem, some dest)
  | count + 1, i, dest, mem =>
      let (ch, i) := decodeByte binary buf i
      match gdbWriteByte ch dest mem with
      | none => (mem, none)
      | some mem => hex2mem binary buf count i (dest + 1) mem

def hexWord (buf : Nat → Byte) (i : Nat) : Word :=
  (List.range 4).foldr (fun k w => w <<< 8 ||| (decodeByte false buf (i + 2 * k)).1.setWidth 32) 0

/-! ## The stub -/

structure DebugEnv where
  iba : Word
  ibam : Word
  ibc : Word
  dba : Word
  dbam : Word
  dbc : Word

/-- The statics of the stub with memory, and the fields of `g_context` that it uses. -/
structure Stub extends Stepping where
  output : List Byte
  ctx : Context
  started : Bool
  hw : Bool
  iaddr : Word
  daddr : Word
  datatype : Word
  env : DebugEnv

/-- Whether the packet is answered, ends the exception, or makes the stub itself fault. An `m`
packet can ask for more than `output` holds. -/
inductive Outcome
  | reply
  | resume
  | fault
  | overflow
  deriving DecidableEq

def sighup : Byte := 1
def sigill : Byte := 4
def sigtrap : Byte := 5
def sigfpe : Byte := 8
def sigbus : Byte := 10
def sigsegv : Byte := 11

def hardTrapInfo : List (Word × Byte) :=
  [(6, sigbus), (7, sigbus), (9, sigtrap), (10, sigill), (12, sigfpe), (13, sigtrap),
    (14, sigsegv), (15, sigfpe), (23, sigsegv), (31, sigsegv)]

def computeSignal (tt : Word) : Byte := (hardTrapInfo.lookup tt).getD sighup

def sigval (ctx : Context) : Byte :=
  if ctx.reg .type = exDebug then sigtrap else computeSignal ((ctx.reg .cause &&& 0x7c) >>> 2)

namespace Stub

def trapReg (n : Byte) (value : Word) : List Byte :=
  hexByte n ++ [char ':'] ++ wordHex value ++ [char ';']

def watchType (datatype : Word) : Option (List Char) :=
  if datatype = 1 then some ['r', 'w', 'a', 't', 'c', 'h', ':']
  else if datatype = 2 then some ['w', 'a', 't', 'c', 'h', ':']
  else if datatype = 3 then some ['a', 'w', 'a', 't', 'c', 'h', ':']
  else none

def buildTrapCmd (sigval : Byte) (s : Stub) : Stub :=
  { s with output :=
      [char 'T'] ++ hexByte sigval ++ trapReg 37 (s.ctx.reg .epc) ++ trapReg 30 (s.ctx.reg (.r 30)) ++
        trapReg 29 (s.ctx.reg (.r 29)) ++ ['t', 'h', 'r', 'e', 'a', 'd', ':'].map char ++
        printHex s.ctx.thid ++ [char ';'] ++
        if s.ctx.reg .type = exDebug ∧ s.daddr ≠ 0 ∧ s.ctx.drcntl &&& (1 <<< 12) ≠ 0 then
          match watchType s.datatype with
          | some type => type.map char ++ wordHex s.daddr ++ [char ';']
          | none => []
        else [] }

def answer (text : List Char) (s : Stub) : Stub := { s with output := text.map char }

/-- The first `c` starts the module that was loaded. -/
def cont (ptr : List Byte) (s : Stub) : Stub :=
  if s.started then
    let (addr, numChars, _) := hexToInt ptr
    if numChars ≠ 0 then { s with ctx := s.ctx.setReg .epc addr } else s
  else { s with started := true }

/-- The registers in the order of the packets, by runs of the context. -/
def packetRegs : List (Reg × Nat) :=
  [(.r 0, 32), (.status, 6), (.fpr 0, 32), (.fsr, 2), (.framePtr, 2), (.cop0 0, 16)]

def readRegs (s : Stub) : Stub :=
  { s with output := packetRegs.flatMap fun (r, count) =>
      (List.range count).flatMap fun i => wordHex (s.ctx (2 + r.slot + i)) }

def writeRegs (buf : Nat → Byte) (s : Stub) : Stub :=
  let edit : Context × Nat → Reg × Nat → Context × Nat := fun (ctx, i) (r, count) =>
    (ctx.setRegs r ((List.range count).map fun k => hexWord buf (i + 8 * k)), i + 8 * count)
  { s with ctx := (packetRegs.foldl edit (s.ctx, 0)).1 }.answer ['O', 'K']

def addrLength (ptr : List Byte) : Option (Word × Word × List Byte) :=
  let (addr, numChars, ptr) := hexToInt ptr
  if numChars = 0 then none
  else
    match ptr with
    | [] => none
    | ch :: ptr =>
        if ch = char ',' then
          let (length, numChars, ptr) := hexToInt ptr
          if numChars = 0 then none else some (addr, length, ptr)
        else none

/-- The counts are signed: a negative one reads and writes nothing. -/
def intCount (length : Word) : Nat := length.toInt.toNat

def readMem (ptr : List Byte) (s : Stub) : Outcome × Stub :=
  match addrLength ptr with
  | none => (.reply, s.answer ['E', '0', '1'])
  | some (addr, length, _) =>
      let (buf, complete) := mem2hex s.mem (intCount length) addr
      if maxBuf < buf.length + (if complete then 1 else 0) then (.overflow, s)
      else if complete then (.reply, { s with output := buf })
      else (.reply, s.answer ['E', '0', '3'])

def writeMem (binary : Bool) (input : Input) (ptr : List Byte) (s : Stub) : Stub :=
  match addrLength ptr with
  | some (addr, length, ch :: data) =>
      if ch = char ':' then
        let (mem, last) := hex2mem binary (input.stream data) (intCount length) 0 addr s.mem
        if last.getD 0 ≠ 0 then { s with mem := mem }.answer ['O', 'K']
        else { s with mem := mem }.answer ['E', '0', '3']
      else s.answer ['E', '0', '2']
  | _ => s.answer ['E', '0', '2']

def step (bus : Bus) (ptr : List Byte) (s : Stub) : Outcome × Stub :=
  let (addr, numChars, _) := hexToInt ptr
  let s := if numChars ≠ 0 then { s with ctx := s.ctx.setReg .epc addr } else s
  match stepGeneric bus true false (.ofContext s.ctx) s.toStepping with
  | .ok stepped => (.resume, { s with toStepping := stepped })
  | .error stepped => (.fault, { s with toStepping := stepped })

def instructionBp (set : Bool) (addr : Word) (s : Stub) : Stub :=
  if set then
    if s.iaddr = 0 then
      { s with env := { s.env with iba := addr, ibam := 0, ibc := 2 }, iaddr := addr }.answer ['O', 'K']
    else s.answer ['E', '0', '3']
  else if s.iaddr ≠ 0 then
    { s with env := { s.env with iba := 0, ibam := 0, ibc := 0 }, iaddr := 0 }.answer ['O', 'K']
  else s.answer ['E', '0', '3']

def dataBp (set : Bool) (datatype addr : Word) (s : Stub) : Stub :=
  if set then
    if s.daddr = 0 then
      { s with
        env := { s.env with dba := addr, dbam := 0, dbc := datatype <<< 20 ||| 2 }
        daddr := addr
        datatype := datatype }.answer ['O', 'K']
    else s.answer ['E', '0', '3']
  else if s.daddr ≠ 0 then
    { s with
      env := { s.env with dba := 0, dbam := 0, dbc := 0 }
      daddr := 0
      datatype := 0 }.answer ['O', 'K']
  else s.answer ['E', '0', '3']

def isdigit (ch : Byte) : Bool := char '0' ≤ ch && ch ≤ char '9'

def handleHwbp (set : Bool) (str : List Byte) (s : Stub) : Stub :=
  if s.hw then
    match str with
    | type :: comma :: ptr =>
        if isdigit type ∧ comma = char ',' then
          match addrLength ptr with
          | none => s.answer ['E', '0', '1']
          | some (addr, _, _) =>
              if type = char '1' then s.instructionBp set addr
              else if type = char '4' then s.dataBp set 3 addr
              else if type = char '2' then s.dataBp set 2 addr
              else if type = char '3' then s.dataBp set 1 addr
              else s
        else s.answer ['E', '0', '1']
    | _ => s.answer ['E', '0', '1']
  else s

def handlePacket (bus : Bus) (query : List Byte) (sigval : Byte) (input : Input) (s : Stub) :
    Outcome × Stub :=
  let s := { s with output := [] }
  match input.text with
  | [] => (.reply, s)
  | command :: ptr =>
      match Char.ofNat command.toNat with
      | '?' => (.reply, s.buildTrapCmd sigval)
      | 'c' => (.resume, s.cont ptr)
      | 'D' => (.resume, s)
      | 'g' => (.reply, s.readRegs)
      | 'G' => (.reply, s.writeRegs (input.stream ptr))
      | 'm' => s.readMem ptr
      | 'X' => (.reply, s.writeMem true input ptr)
      | 'M' => (.reply, s.writeMem false input ptr)
      | 's' => s.step bus ptr
      | 'q' => (.reply, { s with output := query })
      | 'Z' => (.reply, s.handleHwbp true ptr)
      | 'z' => (.reply, s.handleHwbp false ptr)
      | _ => (.reply, s)

def enter (s : Stub) : Stub :=
  let s := { s with toStepping := (s.recoverStep 0).recoverStep 1 }
  if s.started then s.buildTrapCmd (sigval s.ctx) else s

end Stub

end Psplink.Gdb
