import Psplink.HostFs.Daemon

/-!
# The handlers of the PC daemon

usbhostfs_pc/main.c, from `handle_hello` to `start_hostfs`. A handler gets the command as the
structure it casts the read buffer to and `cmdlen`, the number of bytes that were read into it; it
looks at no field before `cmdlen` is the size of that structure.
-/

namespace Psplink.HostFs
open Psplink.Lib

def respHeader (c : HostFsCommand) : HostFsCmd := ⟨hostfsMagic, c.code, 0⟩

def reply (c : HostFsCommand) (res : Word) : Pc Int :=
  usbBulkWrite (encode (⟨respHeader c, res⟩ : HostFsResp))

/-- A response that announces `data`, and the data if there is any. -/
def replyWith (c : HostFsCommand) (res : Word) (data : Bytes) : Pc Int := do
  let extralen := BitVec.ofNat 32 data.length
  let ret ← usbBulkWrite (encode (⟨{ respHeader c with extralen }, res⟩ : HostFsResp))
  if ret < 0 then return ret
  if extralen ≠ 0 then usbBulkWrite data else return ret

def withPayload (size cap : Nat) (extralen : Word) (cmdlen : Nat) (body : UsbRead → Pc Int) :
    Pc Int := do
  if cmdlen ≠ size then return -1
  if extralen = 0 then return -1
  let got ← usbBulkRead cap extralen
  if BitVec.ofInt 32 got.ret ≠ extralen then return got.ret
  body got

/-- A handler whose payload is a path, of which it makes the result. -/
def withPath (c : HostFsCommand) (size : Nat) (extralen : Word) (cmdlen : Nat)
    (res : Bytes → Pc Word) : Pc Int :=
  withPayload size hostfsPathmax extralen cmdlen fun got => do
    reply c (← res (cstr (got.data ++ got.stale)))

def errnoResult : Option Errno → Word
  | none => 0
  | some e => getError e

def onPath (fsnum : Word) (path : Bytes) (op : Bytes → Pc Word) : Pc Word := do
  match ← drivePath fsnum path false with
  | none => return -1
  | some fullpath => op fullpath

def fsOp (op : FsOp) : Pc Word := do
  return errnoResult (← fsCall op)

def handleHello : Pc Int :=
  usbBulkWrite (encode (respHeader .hello))

/-! ## Files -/

def handleOpen (cmd : HostFsOpenCmd) (cmdlen : Nat) : Pc Int :=
  withPath .openFile (sizeof HostFsOpenCmd) cmd.cmd.extralen cmdlen fun path =>
    openFile cmd.fsnum path cmd.mode cmd.mask

def writeFid (fid : Int) (data : Bytes) : Pc Word := do
  if 0 ≤ fid ∧ fid < maxFiles then
    let g ← ask .load
    if (g.openFiles fid.toNat).opened then
      let rets ← ask (.write fid.toNat data)
      return fixedWrite rets 0 data.length
    else return -1
  else return -1

def handleWrite (cmd : HostFsFidCmd) (cmdlen : Nat) : Pc Int :=
  withPayload (sizeof HostFsFidCmd) hostfsMaxBlock cmd.cmd.extralen cmdlen fun got => do
    reply .write (← writeFid cmd.fid.toInt got.data)

/-- The result, and the bytes that are in the block when it is not negative. -/
def readFid (fid : Int) (len : Nat) : Pc (Word × Bytes) := do
  if 0 ≤ fid ∧ fid < maxFiles then
    let g ← ask .load
    if (g.openFiles fid.toNat).opened then
      let rets ← ask (.read fid.toNat hostfsMaxBlock len)
      let (res, block) := fixedRead rets [] len
      return if 0 ≤ res.toInt then (res, block) else (res, [])
    else return (-1, [])
  else return (-1, [])

def handleRead (cmd : HostFsReadCmd) (cmdlen : Nat) : Pc Int := do
  if cmdlen ≠ sizeof HostFsReadCmd then return -1
  if cmd.len.toInt ≤ 0 then return -1
  let (res, block) ← readFid cmd.fid.toInt cmd.len.toNat
  replyWith .read res block

def closeFid (fid : Int) : Pc Word := do
  let g ← ask .load
  if 2 < fid ∧ fid < maxFiles ∧ (g.openFiles fid.toNat).opened then
    let closed ← ask (.close fid.toNat)
    change fun g =>
      { g.setFile fid.toNat { g.openFiles fid.toNat with opened := false, name := none } with
        bulkfd := if fid = g.bulkfd then -1 else g.bulkfd }
    return errnoResult closed
  else return -1

def handleClose (cmd : HostFsFidCmd) (cmdlen : Nat) : Pc Int := do
  if cmdlen ≠ sizeof HostFsFidCmd then return -1
  reply .close (← closeFid cmd.fid.toInt)

def lseekFid (fid : Int) (ofs : BitVec 64) (whence : Word) : Pc (Word × BitVec 64) := do
  let g ← ask .load
  if 2 < fid ∧ fid < maxFiles ∧ (g.openFiles fid.toNat).opened then
    let ofs ← ask (.lseek fid.toNat ofs whence)
    return (if ofs.toInt < 0 then -1 else 0, ofs)
  else return (-1, 0)

def handleLseek (cmd : HostFsLseekCmd) (cmdlen : Nat) : Pc Int := do
  if cmdlen ≠ sizeof HostFsLseekCmd then return -1
  let (res, ofs) ← lseekFid cmd.fid.toInt cmd.ofs cmd.whence
  usbBulkWrite (encode (⟨respHeader .lseek, res, ofs⟩ : HostFsLseekResp))

/-! ## Directories -/

def handleDopen (cmd : HostFsDriveCmd) (cmdlen : Nat) : Pc Int :=
  withPath .dopen (sizeof HostFsDriveCmd) cmd.cmd.extralen cmdlen fun path =>
    dirOpen cmd.fsnum path

def handleDclose (cmd : HostFsDidCmd) (cmdlen : Nat) : Pc Int := do
  if cmdlen ≠ sizeof HostFsDidCmd then return -1
  reply .dclose (← dirClose cmd.did.toInt)

def nextDirent (did : Int) : Pc (Word × Option SceIoDirent) := do
  if 0 ≤ did ∧ did < maxFiles then
    let g ← ask .load
    let dir := g.openDirs did.toNat
    if dir.opened then
      match dir.pDir[dir.pos]? with
      | some dirent =>
          change fun g => g.setDir did.toNat { dir with pos := dir.pos + 1 }
          return (BitVec.ofNat 32 (dir.pDir.length - dir.pos), some dirent)
      | none => return (0, none)
    else return (-1, none)
  else return (-1, none)

/-- The response to a dread carries the code of a read. -/
def handleDread (cmd : HostFsDidCmd) (cmdlen : Nat) : Pc Int := do
  if cmdlen ≠ sizeof HostFsDidCmd then return -1
  let (res, dirent) ← nextDirent cmd.did.toInt
  replyWith .read res (dirent.elim [] encode)

/-! ## Paths -/

def handleRemove (cmd : HostFsDriveCmd) (cmdlen : Nat) : Pc Int :=
  withPath .remove (sizeof HostFsDriveCmd) cmd.cmd.extralen cmdlen fun path =>
    onPath cmd.fsnum path fun fullpath => fsOp (.unlink fullpath)

def handleRmdir (cmd : HostFsDriveCmd) (cmdlen : Nat) : Pc Int :=
  withPath .rmdir (sizeof HostFsDriveCmd) cmd.cmd.extralen cmdlen fun path =>
    onPath cmd.fsnum path fun fullpath => fsOp (.rmdir fullpath)

def handleMkdir (cmd : HostFsMkdirCmd) (cmdlen : Nat) : Pc Int :=
  withPath .mkdir (sizeof HostFsMkdirCmd) cmd.cmd.extralen cmdlen fun path =>
    onPath cmd.fsnum path fun fullpath => fsOp (.mkdir fullpath cmd.mode)

def statPath (fsnum : Word) (path : Bytes) : Pc (Word × Option SceIoStat) := do
  match ← drivePath fsnum path false with
  | none => return (-1, none)
  | some fullpath =>
      match ← fillStat fullpath with
      | .error res => return (res, none)
      | .ok st => return (0, some st)

def handleGetstat (cmd : HostFsDriveCmd) (cmdlen : Nat) : Pc Int :=
  withPayload (sizeof HostFsDriveCmd) hostfsPathmax cmd.cmd.extralen cmdlen fun got => do
    let (res, st) ← statPath cmd.fsnum (cstr (got.data ++ got.stale))
    replyWith .getstat res (st.elim [] encode)

def handleChstat (cmd : HostFsChstatCmd) (cmdlen : Nat) : Pc Int :=
  withPath .chstat (sizeof HostFsChstatCmd) cmd.cmd.extralen cmdlen fun path =>
    onPath cmd.fsnum path fun fullpath => pspChstat fullpath cmd

/-- A relative new name is taken from the directory of an absolute old one. -/
def renameDest (old new : Bytes) : Bytes :=
  if old.head? = some slash ∧ new.head? ≠ some slash then
    (old.reverse.dropWhile (· ≠ slash)).reverse ++ new
  else new

def renamePaths (fsnum : Word) (old new : Bytes) : Pc Word :=
  onPath fsnum old fun oldpath =>
    onPath fsnum (renameDest old new) fun newpath => fsOp (.rename oldpath newpath)

/-- Both names are in the payload, one terminator between them. -/
def handleRename (cmd : HostFsDriveCmd) (cmdlen : Nat) : Pc Int :=
  withPayload (sizeof HostFsDriveCmd) hostfsPathmax cmd.cmd.extralen cmdlen fun got => do
    let path := got.data ++ List.replicate (hostfsPathmax - got.data.length) 0
    let old := cstr path
    reply .rename (← renamePaths cmd.fsnum old (cstr (path.drop (old.length + 1))))

def setCurrdir (fsnum : Int) (path : Bytes) : Pc Word := do
  if 0 ≤ fsnum ∧ fsnum < maxHostdrives then
    change fun g => { g with
      drives := Function.update g.drives fsnum.toNat
        { g.drives fsnum.toNat with currdir := path } }
    return 0
  else return -1

def handleChdir (cmd : HostFsDriveCmd) (cmdlen : Nat) : Pc Int :=
  withPath .chdir (sizeof HostFsDriveCmd) cmd.cmd.extralen cmdlen fun path =>
    setCurrdir cmd.fsnum.toInt path

/-! ## Device controls -/

/-- The payload of a control command: a signed length, into a buffer of 64K. -/
def withControl (size : Nat) (inlen : Word) (cmdlen : Nat) (body : Pc Int) : Pc Int := do
  if cmdlen ≠ size then return -1
  if 0 < inlen.toInt then
    let got ← usbBulkRead (64 * 1024) inlen
    if got.ret ≠ inlen.toInt then return got.ret
    body
  else body

def handleIoctl (cmd : HostFsIoctlCmd) (cmdlen : Nat) : Pc Int :=
  withControl (sizeof HostFsIoctlCmd) cmd.cmd.extralen cmdlen (replyWith .ioctl (-1) [])

def getDriveInfo (drive : Word) : Pc (Option DevctlGetInfo) := do
  if drive.toNat ≥ maxHostdrives then return none
  if !(← ask .lockDrives) then return none
  let g ← ask .load
  match ← ask (.statvfs (g.drives drive.toNat).rootdir) with
  | .error _ => return none
  | .ok st =>
      return some ⟨st.blocks.setWidth 32, st.bfree.setWidth 32, st.blocks.setWidth 32, 512,
        (st.frsize / 512).setWidth 32⟩

def handleDevctl (cmd : HostFsDevctlCmd) (cmdlen : Nat) : Pc Int :=
  withControl (sizeof HostFsDevctlCmd) cmd.cmd.extralen cmdlen do
    if cmd.cmdno = devctlGetInfo then
      match ← getDriveInfo cmd.fsnum with
      | some info => replyWith .devctl 0 (encode info)
      | none => replyWith .devctl (-1) []
    else replyWith .devctl (-1) []

/-! ## Sessions -/

def initHostfs : Pc Unit :=
  change fun g => { g with
    openFiles := fun _ => .cleared
    openDirs := fun _ => .cleared
    drives := fun i => { g.drives i with currdir := [slash] } }

/-- The entries from the list of `close_hostfs` that are open. -/
def closeFiles : List Nat → Pc Unit
  | [] => return
  | fd :: rest => do
      let g ← ask .load
      if (g.openFiles fd).opened then
        let _ ← ask (.close fd)
        change fun g => g.setFile fd { g.openFiles fd with opened := false, name := none }
      closeFiles rest

def closeDirs : List Nat → Pc Unit
  | [] => return
  | did :: rest => do
      let g ← ask .load
      if (g.openDirs did).opened then
        let _ ← dirClose did
      closeDirs rest

def closeHostfs : Pc Unit := do
  closeFiles (List.range' 3 (maxFiles - 3))
  closeDirs (List.range maxDirs)

/-! ## Dispatch -/

/-- The switch of `do_hostfs`, on the bytes that were read. -/
def dispatch (t : Bytes) : Pc Int :=
  let readlen := t.length
  match HostFsCommand.ofCode (headerOf t).command with
  | some .hello => handleHello
  | some .openFile => handleOpen (decode t) readlen
  | some .close => handleClose (decode t) readlen
  | some .write => handleWrite (decode t) readlen
  | some .read => handleRead (decode t) readlen
  | some .lseek => handleLseek (decode t) readlen
  | some .dopen => handleDopen (decode t) readlen
  | some .dclose => handleDclose (decode t) readlen
  | some .dread => handleDread (decode t) readlen
  | some .remove => handleRemove (decode t) readlen
  | some .rmdir => handleRmdir (decode t) readlen
  | some .mkdir => handleMkdir (decode t) readlen
  | some .chdir => handleChdir (decode t) readlen
  | some .rename => handleRename (decode t) readlen
  | some .getstat => handleGetstat (decode t) readlen
  | some .chstat => handleChstat (decode t) readlen
  | some .ioctl => handleIoctl (decode t) readlen
  | some .devctl => handleDevctl (decode t) readlen
  | some .bye | none => return 0

def doHostfs (t : Bytes) : Pc Unit := do
  let _ ← dispatch t

def doAsync (t : Bytes) : Pc Unit := do
  if t.length > sizeof AsyncCommand then
    let cmd : AsyncCommand := decode t
    if cmd.channel.toNat < maxAsyncChannels then
      let connected : Bool := ← ask (.clientSock cmd.channel)
      if connected then
        ask (.sockWrite cmd.channel (t.drop (sizeof AsyncCommand)))

/-- The loop of `do_bulk`; `none` when a block does not arrive whole. Every turn reads at least
one byte, so `len` turns are enough. -/
def readBlocks (len : Nat) : (turns read : Nat) → (block : Bytes) → Pc (Option Bytes)
  | 0, _, block => return some block
  | turns + 1, read, block => do
      if read < len then
        let readsize := min hostfsMaxBlock (len - read)
        let got ← usbBulkRead (hostfsBulkMaxwrite - read) (BitVec.ofNat 32 readsize)
        if got.ret ≠ readsize then return none
        readBlocks len turns (read + readsize) (block ++ got.data)
      else return some block

def doBulk (t : Bytes) : Pc Unit := do
  let cmd : BulkCommand := decode t
  let len := cmd.size.toInt.toNat
  match ← readBlocks len len 0 [] with
  | none => return
  | some block =>
      let g ← ask .load
      if 0 ≤ g.bulkfd ∧ g.bulkfd < maxFiles then
        if (g.openFiles g.bulkfd.toNat).opened then
          let _ ← ask (.write g.bulkfd.toNat block)

/-! ## The loop -/

def etimedout : Int := 110

def serve (got : UsbRead) : Pc Bool := do
  if got.ret = 0 then return false
  if got.ret = -etimedout then return true
  if got.ret < 0 then return false
  if got.data.length < 4 then return false
  if magicOf got.data = hostfsMagic then
    if got.data.length < sizeof HostFsCmd then return false
    doHostfs got.data
    return true
  if magicOf got.data = asyncMagic then
    if got.data.length < sizeof AsyncCommand then return false
    doAsync got.data
    return true
  if magicOf got.data = bulkMagic then
    if got.data.length < sizeof BulkCommand then return false
    doBulk got.data
    return true
  return true

/-- The two loops of `start_hostfs`: a new session, and the commands of one. -/
inductive Loop
  | session | commands
  deriving DecidableEq

def leaveSession : Pc Loop := do
  ask .closeDevice
  closeHostfs
  return .session

def startHostfs : Loop → Pc Loop
  | .session => do
      initHostfs
      ask .waitForDevice
      if (← usbBulkWrite (encode hostfsMagic)) = 4 then return .commands
      else leaveSession
  | .commands => do
      if ← serve (← usbBulkRead 512 512) then return .commands
      else leaveSession

end Psplink.HostFs
