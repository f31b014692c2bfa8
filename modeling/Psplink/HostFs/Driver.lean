import Psplink.HostFs.Wire
import Psplink.Lib.Effect

/-!
# The PSP side

usbhostfs/main.c from `read_data` to `usbWriteBulkData`, and the driver functions of
usbhostfs/host_driver.c. They are programs over the calls that other threads and the USB link can
tell apart: the semaphore, the connection flag and one bulk request at a time. A pointer argument
that is checked for `NULL` is an option.
-/

namespace Psplink.HostFs
open Psplink.Lib

def txBuf : Nat := 64 * 1024
def asyncBuf : Nat := 512

structure CString where
  text : Bytes
  noNul : (0 : UInt8) ∉ text

def CString.bytes (s : CString) : Bytes := s.text ++ [0]

/-! ## Calls -/

inductive PspCall
  | waitSema
  | signalSema
  | usbConnected
  | bulkin (data : Bytes)
  /-- A request to receive `size` bytes, of which `room` fit where they are copied to. -/
  | bulkout (size room : Nat)

/-- `false` and `none` are the failures; a completed request tells how much was transferred. -/
@[reducible] def PspCall.Answer : PspCall → Type
  | .waitSema => Bool
  | .signalSema => Unit
  | .usbConnected => Bool
  | .bulkin _ => Option Nat
  | .bulkout .. => Option Bytes

abbrev Psp := Prog PspCall PspCall.Answer

def waitSema : Psp Bool := Prog.call PspCall.waitSema
def signalSema : Psp Unit := Prog.call PspCall.signalSema
def usbConnected : Psp Bool := Prog.call PspCall.usbConnected
def bulkin (data : Bytes) : Psp (Option Nat) := Prog.call (PspCall.bulkin data)
def bulkout (size room : Nat) : Psp (Option Bytes) := Prog.call (PspCall.bulkout size room)

section
variable {α : Type}

@[simp] theorem waitSema_seq (f : Bool → Psp α) : waitSema >>= f = Prog.ask .waitSema f := rfl

@[simp] theorem signalSema_seq (f : Unit → Psp α) : signalSema >>= f = Prog.ask .signalSema f := rfl

@[simp] theorem usbConnected_seq (f : Bool → Psp α) :
    usbConnected >>= f = Prog.ask .usbConnected f := rfl

@[simp] theorem bulkin_seq (data : Bytes) (f : Option Nat → Psp α) :
    bulkin data >>= f = Prog.ask (.bulkin data) f := rfl

@[simp] theorem bulkout_seq (size room : Nat) (f : Option Bytes → Psp α) :
    bulkout size room >>= f = Prog.ask (.bulkout size room) f := rfl

end

/-! ## Blocks -/

/-- The loop of `write_data`. A turn sends at least one byte, so there are turns enough when there
are as many as bytes. -/
def writeLoop : (turns : Nat) → (rest : Bytes) → (writelen : Nat) → Psp Int
  | 0, _, writelen => return writelen
  | turns + 1, rest, writelen => do
      if rest.isEmpty then return writelen
      match ← bulkin (rest.take txBuf) with
      | some recvsize =>
          if 0 < recvsize then writeLoop turns (rest.drop recvsize) (writelen + recvsize)
          else return -1
      | none => return -1

def writeData (data : Bytes) : Psp Int := writeLoop data.length data 0

def readLoop (size room : Nat) : (turns : Nat) → (got : Bytes) → Psp (Int × Bytes)
  | 0, got => return (got.length, got)
  | turns + 1, got => do
      if got.length < size then
        match ← bulkout (min txBuf (size - got.length)) (room - got.length) with
        | some block =>
            if block.isEmpty then return (-1, got)
            else readLoop size room turns (got ++ block)
        | none => return (-1, got)
      else return (got.length, got)

def readData (size : Int) (room : Nat) : Psp (Int × Bytes) := readLoop size.toNat room size.toNat []

/-! ## Exchanges -/

section
variable {C : Type} [Packed C] (R : Type) [Packed R]

/-- The part of `command_xchg` that takes the response to a command with header `out`. The check
of it rejects only when the magic and the command are both wrong. -/
def takeResponse (out : HostFsCmd) (inlen : Int) : Psp (Option (R × Bytes)) := do
  let (err, incmd) ← readData (sizeof R) (sizeof R)
  if err ≠ sizeof R then return none
  let resp := headerOf incmd
  if resp.magic ≠ hostfsMagic ∧ resp.command ≠ out.command then return none
  if 0 < resp.extralen.toNat ∧ 0 < inlen then
    let (err, indata) ← readData resp.extralen.toInt inlen.toNat
    if BitVec.ofInt 32 err ≠ resp.extralen then return none
    return some (decode incmd, indata)
  return some (decode incmd, [])

/-- What `command_xchg` does while it holds the semaphore. -/
def exchange (cmd : C) (outdata : Bytes) (inlen : Int) : Psp (Option (R × Bytes)) := do
  let outcmd := encode cmd
  if (← writeData outcmd) ≠ outcmd.length then return none
  if (← writeData outdata) ≠ outdata.length then return none
  takeResponse R (headerOf outcmd) inlen

def commandXchg (cmd : C) (outdata : Bytes) (inlen : Int) : Psp (Option (R × Bytes)) := do
  if !(← waitSema) then return none
  let ret ← exchange R cmd outdata inlen
  signalSema
  return ret

end

def sendAsync (data : Bytes) : Psp Bool := do
  if !(← waitSema) then return false
  let err ← writeData data
  signalSema
  return err = data.length

def sendHelloCmd : Psp Bool := do
  return (← commandXchg HostFsCmd (⟨hostfsMagic, HostFsCommand.hello.code, 0⟩ : HostFsCmd) [] 0).isSome

def asyncLoop (chan : Word) : (turns : Nat) → (rest : Bytes) → (written : Nat) → Psp Nat
  | 0, _, written => return written
  | turns + 1, rest, written => do
      if rest.isEmpty then return written
      let part := rest.take (asyncBuf - sizeof AsyncCommand)
      if ← sendAsync (encode (⟨asyncMagic, chan⟩ : AsyncCommand) ++ part) then
        asyncLoop chan turns (rest.drop part.length) (written + part.length)
      else return written

def usbAsyncWrite (chan : Word) (data : Bytes) : Psp Int := do
  if !(← usbConnected) then return -1
  return (← asyncLoop chan data.length data 0)

/-- What `usbWriteBulkData` does while it holds the semaphore. -/
def bulkWrite (data : Bytes) : Psp Bool := do
  let cmd : BulkCommand := ⟨bulkMagic, BitVec.ofNat 32 data.length⟩
  if (← writeData (encode cmd)) ≠ sizeof BulkCommand then return false
  return (← writeData data) = data.length

def usbWriteBulkData (data : Bytes) : Psp Int := do
  if !(← usbConnected) then return -1
  if data.length = 0 ∨ data.length > hostfsBulkMaxwrite then return -1
  if !(← waitSema) then return -1
  let sent ← bulkWrite data
  signalSema
  return if sent then data.length else -1

/-! ## The driver

The arguments of a call besides the ones of the request: `fsnum` and `fid` come from the driver's
file structure. -/

def reqHeader (c : HostFsCommand) (extralen : Word) : HostFsCmd := ⟨hostfsMagic, c.code, extralen⟩

/-- The exchange of a driver function, if the PC is there; `none` is reported as -1. -/
def request {C : Type} [Packed C] (R : Type) [Packed R] (cmd : C) (outdata : Bytes) (inlen : Int) :
    Psp (Option (R × Bytes)) := do
  if ← usbConnected then commandXchg R cmd outdata inlen else return none

def simpleRequest {C : Type} [Packed C] (cmd : C) (outdata : Bytes) : Psp Word := do
  match ← request HostFsResp cmd outdata 0 with
  | some (resp, _) => return resp.res
  | none => return -1

def handleResult (res : Word) : Word × Option Word :=
  if 0 ≤ res.toInt then (0, some res) else (res, none)

def pathLen (path : CString) : Word := BitVec.ofNat 32 path.bytes.length

def ioOpen (fsnum : Word) (file : Option CString) (mode mask : Word) : Psp (Word × Option Word) := do
  match file with
  | none => return (-1, none)
  | some file =>
      let cmd : HostFsOpenCmd := ⟨reqHeader .openFile (pathLen file), mode, mask, fsnum⟩
      match ← request HostFsResp cmd file.bytes 0 with
      | some (resp, _) => return handleResult resp.res
      | none => return (-1, none)

def ioClose (fid : Word) : Psp Word :=
  simpleRequest (⟨reqHeader .close 0, fid⟩ : HostFsFidCmd) []

/-- How the read and the write loops go on after a block with result `res`. -/
def afterBlock (ret : Word) : Option Word → Bool × Word
  | none => (false, -1)
  | some res =>
      if 0 < res.toInt then (true, ret + res)
      else if res.toInt < 0 ∧ ret = 0 then (false, res)
      else (false, ret)

/-- The blocks of a transfer: `step ofs len mem` moves `len` bytes at `ofs` of the caller's buffer
`mem`. -/
def blockLoop (step : (ofs len : Nat) → Bytes → Psp (Option Word × Bytes)) :
    (blocks : Nat) → (ret : Word) → (mem : Bytes) → Psp (Bool × Word × Bytes)
  | 0, ret, mem => return (true, ret, mem)
  | blocks + 1, ret, mem => do
      let (res, mem) ← step ret.toNat hostfsMaxBlock mem
      match afterBlock ret res with
      | (true, ret) => blockLoop step blocks ret mem
      | (false, ret) => return (false, ret, mem)

def transfer (step : (ofs len : Nat) → Bytes → Psp (Option Word × Bytes)) (len : Nat) (mem : Bytes) :
    Psp (Word × Bytes) := do
  let residual := len % hostfsMaxBlock
  let (whole, ret, mem) ← blockLoop step (len / hostfsMaxBlock) 0 mem
  if whole ∧ 0 < residual then
    let (res, mem) ← step ret.toNat residual mem
    return ((afterBlock ret res).2, mem)
  else return (ret, mem)

def putAt (mem : Bytes) (ofs : Nat) (data : Bytes) : Bytes :=
  mem.take ofs ++ data ++ mem.drop (ofs + data.length)

def readBlock (fd : Word) (ofs len : Nat) (mem : Bytes) : Psp (Option Word × Bytes) := do
  let cmd : HostFsReadCmd := ⟨reqHeader .read 0, fd, BitVec.ofNat 32 len⟩
  match ← request HostFsResp cmd [] len with
  | some (resp, indata) => return (some resp.res, putAt mem ofs indata)
  | none => return (none, mem)

def usbReadData (fd : Word) (data : Option Bytes) (len : Word) : Psp (Word × Bytes) := do
  if len.toInt < 0 then return (-1, data.getD [])
  if len = 0 then return (0, data.getD [])
  match data with
  | none => return (-1, [])
  | some mem => transfer (readBlock fd) len.toNat mem

def writeBlock (fd : Word) (ofs len : Nat) (mem : Bytes) : Psp (Option Word × Bytes) := do
  let cmd : HostFsFidCmd := ⟨reqHeader .write (BitVec.ofNat 32 len), fd⟩
  match ← request HostFsResp cmd ((mem.drop ofs).take len) 0 with
  | some (resp, _) => return (some resp.res, mem)
  | none => return (none, mem)

def usbWriteData (fd : Word) (data : Option Bytes) (len : Word) : Psp Word := do
  if len.toInt < 0 then return -1
  if len = 0 then return 0
  match data with
  | none => return -1
  | some mem => return (← transfer (writeBlock fd) len.toNat mem).1

def ioLseek (fid : Word) (ofs : BitVec 64) (whence : Word) : Psp (BitVec 64) := do
  let cmd : HostFsLseekCmd := ⟨reqHeader .lseek 0, fid, ofs, whence⟩
  match ← request HostFsLseekResp cmd [] 0 with
  | some (resp, _) => return if 0 ≤ resp.res.toInt then resp.ofs else -1
  | none => return -1

/-- The buffer and the length of a control call: no buffer, no length. -/
def controlLen (mem : Option Bytes) (len : Word) : Word := if mem.isNone then 0 else len

def controlData (mem : Option Bytes) (len : Word) : Bytes := (mem.getD []).take len.toInt.toNat

def ioIoctl (fid cmdno : Word) (indata : Option Bytes) (inlen : Word) (outdata : Option Bytes)
    (outlen : Word) : Psp Word := do
  let inlen := controlLen indata inlen
  let outlen := controlLen outdata outlen
  let cmd : HostFsIoctlCmd := ⟨reqHeader .ioctl inlen, fid, cmdno, outlen⟩
  match ← request HostFsResp cmd (controlData indata inlen) outlen.toInt with
  | some (resp, _) => return resp.res
  | none => return -1

def ioRemove (fsnum : Word) (name : Option CString) : Psp Word :=
  match name with
  | none => return -1
  | some name =>
      simpleRequest (⟨reqHeader .remove (pathLen name), fsnum⟩ : HostFsDriveCmd) name.bytes

def ioMkdir (fsnum : Word) (name : Option CString) (mode : Word) : Psp Word :=
  match name with
  | none => return -1
  | some name =>
      simpleRequest (⟨reqHeader .mkdir (pathLen name), mode, fsnum⟩ : HostFsMkdirCmd) name.bytes

def ioRmdir (fsnum : Word) (name : Option CString) : Psp Word :=
  match name with
  | none => return -1
  | some name =>
      simpleRequest (⟨reqHeader .rmdir (pathLen name), fsnum⟩ : HostFsDriveCmd) name.bytes

def ioDopen (fsnum : Word) (dir : Option CString) : Psp (Word × Option Word) := do
  match dir with
  | none => return (-1, none)
  | some dir =>
      let cmd : HostFsDriveCmd := ⟨reqHeader .dopen (pathLen dir), fsnum⟩
      match ← request HostFsResp cmd dir.bytes 0 with
      | some (resp, _) => return handleResult resp.res
      | none => return (-1, none)

def ioDclose (did : Word) : Psp Word :=
  simpleRequest (⟨reqHeader .dclose 0, did⟩ : HostFsDidCmd) []

def ioDread (did : Word) (notNull : Bool) : Psp (Word × Bytes) := do
  if !notNull then return (-1, [])
  match ← request HostFsResp (⟨reqHeader .dread 0, did⟩ : HostFsDidCmd) [] (sizeof SceIoDirent) with
  | some (resp, dir) => return (resp.res, dir)
  | none => return (-1, [])

def ioGetstat (fsnum : Word) (file : Option CString) (notNull : Bool) : Psp (Word × Bytes) := do
  match file with
  | none => return (-1, [])
  | some file =>
      if !notNull then return (-1, [])
      let cmd : HostFsDriveCmd := ⟨reqHeader .getstat (pathLen file), fsnum⟩
      match ← request HostFsResp cmd file.bytes (sizeof SceIoStat) with
      | some (resp, st) => return (resp.res, st)
      | none => return (-1, [])

/-- The minute and the second of the access time are those of the modification time. -/
def chstatCmd (fsnum : Word) (file : CString) (stat : SceIoStat) (bits : Word) : HostFsChstatCmd where
  cmd := reqHeader .chstat (pathLen file)
  bits := bits
  mode := stat.mode
  size := stat.size
  atime := ⟨stat.atime.year, stat.atime.month, stat.atime.day, stat.atime.hour, stat.mtime.minute,
    stat.mtime.second⟩
  mtime := ⟨stat.mtime.year, stat.mtime.month, stat.mtime.day, stat.mtime.hour, stat.mtime.minute,
    stat.mtime.second⟩
  fsnum := fsnum

def ioChstat (fsnum : Word) (file : Option CString) (stat : Option SceIoStat) (bits : Word) :
    Psp Word :=
  match file, stat with
  | some file, some stat => simpleRequest (chstatCmd fsnum file stat bits) file.bytes
  | _, _ => return -1

def ioRename (fsnum : Word) (oldname newname : Option CString) : Psp Word :=
  match oldname, newname with
  | some oldname, some newname =>
      let buf := oldname.bytes ++ newname.bytes
      if buf.length > hostfsRenameBufsize then return -1
      else simpleRequest
        (⟨reqHeader .rename (BitVec.ofNat 32 buf.length), fsnum⟩ : HostFsDriveCmd) buf
  | _, _ => return -1

def ioChdir (fsnum : Word) (dir : Option CString) : Psp Word :=
  match dir with
  | none => return -1
  | some dir => simpleRequest (⟨reqHeader .chdir (pathLen dir), fsnum⟩ : HostFsDriveCmd) dir.bytes

def devctlXchg (fsnum cmdno : Word) (indata : Option Bytes) (inlen : Word) (outdata : Option Bytes)
    (outlen : Word) : Psp Word := do
  let inlen := controlLen indata inlen
  let outlen := controlLen outdata outlen
  let cmd : HostFsDevctlCmd := ⟨reqHeader .devctl inlen, cmdno, fsnum, outlen⟩
  match ← request HostFsResp cmd (controlData indata inlen) outlen.toInt with
  | some (resp, _) => return resp.res
  | none => return -1

/-- The get info control takes the pointer to its result as its input; `info` is that result's
memory. -/
def ioDevctl (fsnum : Word) (name : Option CString) (cmdno : Word) (indata : Option Bytes)
    (inlen : Word) (outdata : Option Bytes) (outlen : Word) (info : Bytes) : Psp Word := do
  if name.isNone then return -1
  if cmdno = devctlGetInfo then
    match indata with
    | none => return -1
    | some mem =>
        if (decode mem : Word) = 0 then return -1
        devctlXchg fsnum cmdno none 0 (some info) (BitVec.ofNat 32 (sizeof DevctlGetInfo))
  else devctlXchg fsnum cmdno indata inlen outdata outlen

end Psplink.HostFs
