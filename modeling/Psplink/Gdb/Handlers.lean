import Psplink.Gdb.Stub
import Psplink.Lib.Effect

/-!
# Packet handlers, access by access

The handlers of `GdbHandleException` once more, as programs that make every access to `input`, to
`output` and to memory a call, with `handle_query`. A pointer into a buffer is an index.
-/

namespace Psplink.Gdb
open Psplink.Lib Psplink.Debug Psplink.Exception

/-- What the handlers use of `g_context`, of the context and of the statics of `handle_query`. -/
inductive Field
  | ctxType | thid | drcntl | daddr | iaddr | datatype | hw | started | elf
  | textAddr | textSize | dataSize | nsegment | segmentAddr (i : Nat)
  | threadCount | threadLoc | thread (i : Nat)
  | cause | epc

/-- `name` is a `char[32]` that the kernel ends with a NUL. -/
structure ThreadInfo where
  entry : Word
  name : List Byte
  short : name.length < 32

/-- `stray`: a byte before `hexchars`, for a negative index. `recoverStep`: the words under the step
breakpoints are put back. -/
inductive StubCall
  | peek (i : Nat)
  | poke (i : Nat) (ch : Byte)
  | load (address : Word)
  | store (address : Word) (ch : Byte)
  | get (f : Field)
  | set (f : Field) (value : Word)
  | debugGetEnv
  | debugSetEnv (env : DebugEnv)
  | getThreadmanIdList
  | referThreadStatus (thid : Word)
  | stray (ch : Byte)
  | startModule
  | stepGeneric
  | recoverStep
  | exitGame
  | putpacket
  | getpacket

def StubCall.Answer : StubCall → Type
  | .peek _ | .load _ | .stray _ => Byte
  | .get _ => Word
  | .debugGetEnv => DebugEnv
  | .getThreadmanIdList => List Word
  | .referThreadStatus _ => Except Word ThreadInfo
  | .getpacket => Bool
  | .poke _ _ | .store _ _ | .set _ _ | .debugSetEnv _ | .startModule | .stepGeneric | .recoverStep
  | .exitGame | .putpacket => Unit

abbrev Handling (α : Type) : Type := Prog StubCall StubCall.Answer α

/-- Where the context and `g_context.daddr` are. The stub is a user module, so both can be read. -/
structure Layout where
  ctx : Word
  daddr : Word
  ctx_user : ∀ i < 4 * contextWords, userMemory (ctx + BitVec.ofNat 32 i) = true
  daddr_user : ∀ i < 4, userMemory (daddr + BitVec.ofNat 32 i) = true

def Layout.reg (L : Layout) (r : Reg) : Word := L.ctx + BitVec.ofNat 32 (4 * (2 + r.slot))

namespace Handler

def call (q : StubCall) : Handling q.Answer := .call q

def peek (i : Nat) : Handling Byte := call (.peek i)
def poke (i : Nat) (ch : Byte) : Handling Unit := call (.poke i ch)
def load (address : Word) : Handling Byte := call (.load address)
def store (address : Word) (ch : Byte) : Handling Unit := call (.store address ch)
def get (f : Field) : Handling Word := call (.get f)
def set (f : Field) (value : Word) : Handling Unit := call (.set f value)
def debugGetEnv : Handling DebugEnv := call .debugGetEnv
def debugSetEnv (env : DebugEnv) : Handling Unit := call (.debugSetEnv env)
def getThreadmanIdList : Handling (List Word) := call .getThreadmanIdList
def referThreadStatus (thid : Word) : Handling (Except Word ThreadInfo) := call (.referThreadStatus thid)
def stray (ch : Byte) : Handling Byte := call (.stray ch)
def startModule : Handling Unit := call .startModule
def stepGeneric : Handling Unit := call .stepGeneric
def recoverStep : Handling Unit := call .recoverStep
def exitGame : Handling Unit := call .exitGame
def putpacket : Handling Unit := call .putpacket
def getpacket : Handling Bool := call .getpacket

/-! ## Strings -/

def puts : List Byte → Nat → Handling Nat
  | [], ptr => pure ptr
  | ch :: text, ptr => do
      poke ptr ch
      puts text (ptr + 1)

def strcpy (ptr : Nat) (text : List Byte) : Handling Unit := do
  let ptr ← puts text ptr
  poke ptr 0

def answer (text : List Char) : Handling Unit := strcpy 0 (text.map char)

def strncmp : List Char → Nat → Handling Bool
  | [], _ => pure true
  | c :: text, str => do
      let ch ← peek str
      if ch = char c then strncmp text (str + 1) else pure false

/-- `while (**ptr)`, which the NUL of the packet ends. -/
def hexToIntLoop : Nat → Nat → Word → Nat → Handling (Word × Nat × Nat)
  | 0, ptr, intValue, numChars => pure (intValue, numChars, ptr)
  | fuel + 1, ptr, intValue, numChars => do
      let ch ← peek ptr
      if ch = 0 ∨ (hex ch).slt 0 then pure (intValue, numChars, ptr)
      else hexToIntLoop fuel (ptr + 1) (intValue <<< 4 ||| hex ch) (numChars + 1)

def hexToInt (ptr : Nat) : Handling (Word × Nat × Nat) := hexToIntLoop maxBuf ptr 0 0

/-- Where the pointer is left; none: a byte could not be read. -/
def mem2hex (mem : Word) (buf : Nat) : Nat → Handling (Option Nat)
  | 0 => do
      poke buf 0
      pure (some buf)
  | count + 1 =>
      if userMemory mem then do
        let ch ← load mem
        poke buf (hexchars (ch >>> 4 &&& 0xf))
        poke (buf + 1) (hexchars (ch &&& 0xf))
        mem2hex (mem + 1) (buf + 2) count
      else pure none

def decodeByte (binary : Bool) (buf : Nat) : Handling (Byte × Nat) := do
  let ch ← peek buf
  if binary then
    if ch = 0x7d then do
      let ch ← peek (buf + 1)
      pure (0x20 ^^^ ch, buf + 2)
    else pure (ch, buf + 1)
  else do
    let low ← peek (buf + 1)
    pure ((hex ch <<< 4 ||| hex low).setWidth 8, buf + 2)

def hex2mem (binary : Bool) (buf : Nat) (mem : Word) : Nat → Handling (Option Word)
  | 0 => pure (some mem)
  | count + 1 => do
      let (ch, buf) ← decodeByte binary buf
      if userMemory mem then do
        store mem ch
        hex2mem binary buf (mem + 1) count
      else pure none

/-- A character of a `char *`, which is signed. -/
def hexOfChar (ch : Byte) : Handling (List Byte) :=
  if ch.msb then do
    let high ← stray ch
    pure [high, hexchars (ch &&& 0xf)]
  else pure (hexByte ch)

def strtohex (ptr : Nat) : List Byte → Handling Unit
  | [] => poke ptr 0
  | ch :: str => do
      let digits ← hexOfChar ch
      let ptr ← puts digits ptr
      strtohex ptr str

def printUpper (w : Word) : List Byte :=
  (printHex w).map fun ch => if char 'a' ≤ ch then ch - 0x20 else ch

/-! ## Replies -/

/-- A NULL from `mem2hex` cannot come back here, so the pointer is used as it is. -/
def trapReg (n : Byte) (address : Word) (ptr : Nat) : Handling Nat := do
  let ptr ← puts (hexByte n ++ [char ':']) ptr
  let ptr ← mem2hex address ptr 4
  puts [char ';'] (ptr.getD 0)

def watch (L : Layout) (ptr : Nat) : Handling Nat := do
  let type ← get .ctxType
  let daddr ← get .daddr
  let drcntl ← get .drcntl
  if type = exDebug ∧ daddr ≠ 0 ∧ drcntl &&& (1 <<< 12) ≠ 0 then do
    let datatype ← get .datatype
    match Stub.watchType datatype with
    | some type => do
        let ptr ← puts (type.map char) ptr
        let ptr ← mem2hex L.daddr ptr 4
        puts [char ';'] (ptr.getD 0)
    | none => pure ptr
  else pure ptr

def buildTrapCmd (L : Layout) (sigval : Byte) : Handling Unit := do
  let ptr ← puts (char 'T' :: hexByte sigval) 0
  let ptr ← trapReg 37 (L.reg .epc) ptr
  let ptr ← trapReg 30 (L.reg (.r 30)) ptr
  let ptr ← trapReg 29 (L.reg (.r 29)) ptr
  let thid ← get .thid
  let ptr ← puts (['t', 'h', 'r', 'e', 'a', 'd', ':'].map char ++ printHex thid ++ [char ';']) ptr
  let ptr ← watch L ptr
  poke ptr 0

/-- The threads of the list that run in the module, stored in `threads`. -/
def listThreads (textAddr textSize : Word) : List Word → Nat → Handling Nat
  | [], valid => pure valid
  | thid :: rest, valid => do
      let status ← referThreadStatus thid
      match status with
      | .ok info =>
          if textAddr ≤ info.entry ∧ info.entry < textAddr + textSize then do
            set (.thread valid) thid
            listThreads textAddr textSize rest (valid + 1)
          else listThreads textAddr textSize rest valid
      | .error _ => listThreads textAddr textSize rest valid

def printThread (loc : Nat) : Handling Unit := do
  let thid ← get (.thread loc)
  strcpy 0 (char 'm' :: printUpper thid)

def firstThreads : Handling Unit := do
  let ids ← getThreadmanIdList
  set .threadCount (BitVec.ofNat 32 ids.length)
  if ids ≠ [] then do
    let textAddr ← get .textAddr
    let textSize ← get .textSize
    let valid ← listThreads textAddr textSize ids 0
    set .threadCount (BitVec.ofNat 32 valid)
    if valid ≠ 0 then do
      printThread 0
      set .threadLoc 1

def nextThreads : Handling Unit := do
  let loc ← get .threadLoc
  let count ← get .threadCount
  if loc.slt count then do
    printThread loc.toNat
    set .threadLoc (loc + 1)
  else answer ['l']

def threadExtra (str : Nat) : Handling Unit := do
  let (thid, numChars, _) ← hexToInt str
  if numChars ≠ 0 then do
    let status ← referThreadStatus thid
    match status with
    | .ok info => strtohex 0 info.name
    | .error i => strtohex 0 (['E', 'r', 'r', 'o', 'r', ':', ' ', '0', 'x'].map char ++ printUpper i)

def offsets : Handling Unit := do
  let elf ← get .elf
  if elf = 0 then do
    let text ← get .textAddr
    let nsegment ← get .nsegment
    let textSize ← get .textSize
    let segment ← get (.segmentAddr 1)
    let data := if 1 < nsegment then segment else text + textSize
    let dataSize ← get .dataSize
    strcpy 0 (['T', 'e', 'x', 't', '='].map char ++ printUpper text ++
      [';', 'D', 'a', 't', 'a', '='].map char ++ printUpper data ++
      [';', 'B', 's', 's', '='].map char ++ printUpper (data + dataSize))

def handleQuery (str : Nat) : Handling Unit := do
  let kind ← peek str
  match Char.ofNat kind.toNat with
  | 'C' => do
      let thid ← get .thid
      strcpy 0 ([char 'Q', char 'C'] ++ printUpper thid)
  | 'f' => do
      let named ← strncmp ['f', 'T', 'h', 'r', 'e', 'a', 'd', 'I', 'n', 'f', 'o'] str
      if named then firstThreads
  | 's' => do
      let named ← strncmp ['s', 'T', 'h', 'r', 'e', 'a', 'd', 'I', 'n', 'f', 'o'] str
      if named then nextThreads
  | 'T' => do
      let named ← strncmp
        ['T', 'h', 'r', 'e', 'a', 'd', 'E', 'x', 't', 'r', 'a', 'I', 'n', 'f', 'o', ','] str
      if named then threadExtra (str + 16)
  | 'O' => do
      let named ← strncmp ['O', 'f', 'f', 's', 'e', 't', 's'] str
      if named then offsets
  | _ => pure ()

/-! ## Packets -/

def addrLength (ptr : Nat) : Handling (Option (Word × Word × Nat)) := do
  let (addr, numChars, ptr) ← hexToInt ptr
  if numChars = 0 then pure none
  else do
    let ch ← peek ptr
    if ch = char ',' then do
      let (length, numChars, ptr) ← hexToInt (ptr + 1)
      if numChars = 0 then pure none else pure (some (addr, length, ptr))
    else pure none

def instructionBp (set : Bool) (addr : Word) : Handling Unit := do
  let iaddr ← get .iaddr
  if set then
    if iaddr = 0 then do
      let env ← debugGetEnv
      debugSetEnv { env with iba := addr, ibam := 0, ibc := 2 }
      Handler.set .iaddr addr
      answer ['O', 'K']
    else answer ['E', '0', '3']
  else if iaddr ≠ 0 then do
    let env ← debugGetEnv
    debugSetEnv { env with iba := 0, ibam := 0, ibc := 0 }
    Handler.set .iaddr 0
    answer ['O', 'K']
  else answer ['E', '0', '3']

def dataBp (set : Bool) (datatype addr : Word) : Handling Unit := do
  let daddr ← get .daddr
  if set then
    if daddr = 0 then do
      let env ← debugGetEnv
      debugSetEnv { env with dba := addr, dbam := 0, dbc := datatype <<< 20 ||| 2 }
      Handler.set .daddr addr
      Handler.set .datatype datatype
      answer ['O', 'K']
    else answer ['E', '0', '3']
  else if daddr ≠ 0 then do
    let env ← debugGetEnv
    debugSetEnv { env with dba := 0, dbam := 0, dbc := 0 }
    Handler.set .daddr 0
    Handler.set .datatype 0
    answer ['O', 'K']
  else answer ['E', '0', '3']

def handleHwbp (set : Bool) (str : Nat) : Handling Unit := do
  let hw ← get .hw
  if hw ≠ 0 then do
    let type ← peek str
    if Stub.isdigit type then do
      let comma ← peek (str + 1)
      if comma = char ',' then do
        let parsed ← addrLength (str + 2)
        match parsed with
        | none => answer ['E', '0', '1']
        | some (addr, _, _) =>
            if type = char '1' then instructionBp set addr
            else if type = char '4' then dataBp set 3 addr
            else if type = char '2' then dataBp set 2 addr
            else if type = char '3' then dataBp set 1 addr
            else pure ()
      else answer ['E', '0', '1']
    else answer ['E', '0', '1']

def readRegs (L : Layout) : List (Reg × Nat) → Nat → Handling Unit
  | [], _ => pure ()
  | (r, count) :: rest, ptr => do
      let ptr ← mem2hex (L.reg r) ptr (4 * count)
      readRegs L rest (ptr.getD 0)

def writeRegs (L : Layout) : List (Reg × Nat) → Nat → Handling Unit
  | [], _ => answer ['O', 'K']
  | (r, count) :: rest, ptr => do
      let _ ← hex2mem false ptr (L.reg r) (4 * count)
      writeRegs L rest (ptr + 8 * count)

def readMem (ptr : Nat) : Handling Unit := do
  let parsed ← addrLength ptr
  match parsed with
  | none => answer ['E', '0', '1']
  | some (addr, length, _) => do
      let done ← mem2hex addr 0 (Stub.intCount length)
      if done.isNone then answer ['E', '0', '3']

def writeMem (binary : Bool) (ptr : Nat) : Handling Unit := do
  let parsed ← addrLength ptr
  match parsed with
  | none => answer ['E', '0', '2']
  | some (addr, length, ptr) => do
      let ch ← peek ptr
      if ch = char ':' then do
        let last ← hex2mem binary (ptr + 1) addr (Stub.intCount length)
        if last.getD 0 ≠ 0 then answer ['O', 'K'] else answer ['E', '0', '3']
      else answer ['E', '0', '2']

def cont (ptr : Nat) : Handling Unit := do
  let started ← get .started
  if started = 0 then do
    startModule
    set .started 1
  else do
    let (addr, numChars, _) ← hexToInt ptr
    if numChars ≠ 0 then set .epc addr

def step (ptr : Nat) : Handling Unit := do
  let (addr, numChars, _) ← hexToInt ptr
  if numChars ≠ 0 then set .epc addr
  stepGeneric

/-- The switch of `GdbHandleException`: whether the loop goes on, which sends the reply. -/
def switch (L : Layout) (sigval : Byte) (command : Byte) : Handling Bool :=
  match Char.ofNat command.toNat with
  | '?' => do
      buildTrapCmd L sigval
      pure true
  | 'c' => do
      cont 1
      pure false
  | 'D' => do
      putpacket
      pure false
  | 'g' => do
      readRegs L Stub.packetRegs 0
      pure true
  | 'G' => do
      writeRegs L Stub.packetRegs 1
      pure true
  | 'm' => do
      readMem 1
      pure true
  | 'X' => do
      writeMem true 1
      pure true
  | 'M' => do
      writeMem false 1
      pure true
  | 's' => do
      step 1
      pure false
  | 'q' => do
      handleQuery 1
      pure true
  | 'Z' => do
      handleHwbp true 1
      pure true
  | 'z' => do
      handleHwbp false 1
      pure true
  | 'k' => do
      exitGame
      pure true
  | 'r' => do
      exitGame
      pure true
  | _ => pure true

def handlePacket (L : Layout) (sigval : Byte) : Handling Bool := do
  poke 0 0
  let command ← peek 0
  let more ← switch L sigval command
  if more then putpacket
  pure more

def enter (L : Layout) : Handling Byte := do
  let type ← get .ctxType
  let cause ← get .cause
  let sigval := if type = exDebug then sigtrap else computeSignal ((cause &&& 0x7c) >>> 2)
  recoverStep
  let started ← get .started
  if started ≠ 0 then do
    buildTrapCmd L sigval
    putpacket
  pure sigval

/-- The next packet, if there is one; else the call of `GdbHandleException` ends. -/
def nextPacket (sigval : Byte) : Handling (Option Byte) := do
  let received ← getpacket
  if received then pure (some sigval) else pure none

/-- A packet of an exception with its signal, or the next exception. -/
def turn (L : Layout) : Option Byte → Handling (Option Byte)
  | none => do
      let sigval ← enter L
      nextPacket sigval
  | some sigval => do
      let more ← handlePacket L sigval
      if more then nextPacket sigval else pure none

end Handler

end Psplink.Gdb
