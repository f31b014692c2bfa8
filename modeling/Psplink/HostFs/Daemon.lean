import Psplink.HostFs.Path
import Psplink.HostFs.Wire
import Psplink.Lib.Effect
import Mathlib.Logic.Function.Basic

/-!
# The PC daemon: its globals, its system calls and its tables

usbhostfs_pc/main.c, up to the handlers. A function of the daemon is a program over the calls it
makes: the two USB endpoints, the operating system and its own globals. The answers of the calls
are left open, so a statement about every answer is one about every file system.
-/

namespace Psplink.HostFs
open Psplink.Lib

def maxFiles : Nat := 256
def maxDirs : Nat := 256

/-! ## Globals -/

structure FileHandle where
  opened : Bool
  mode : Word
  name : Option Bytes

def FileHandle.cleared : FileHandle := ⟨false, 0, none⟩

structure DirHandle where
  opened : Bool
  pos : Nat
  pDir : List SceIoDirent

def DirHandle.cleared : DirHandle := ⟨false, 0, []⟩

structure Globals where
  openFiles : Nat → FileHandle
  openDirs : Nat → DirHandle
  bulkfd : Int
  drives : Nat → HostDrive
  opts : PathOptions

/-- The daemon as it starts, without a root directory. -/
def zeroGlobals : Globals :=
  ⟨fun _ => .cleared, fun _ => .cleared, -1, fun _ => ⟨[], [slash]⟩, ⟨false, false⟩⟩

/-! ## Calls -/

abbrev Errno := Word

def enoent : Errno := 2
def einval : Errno := 22
def emfile : Errno := 24
def enametoolong : Errno := 36

def getError (e : Errno) : Word := 0x80010000 ||| e

inductive Access
  | rdonly | wronly | rdwr
  deriving DecidableEq

structure OpenFlags where
  access : Access
  append : Bool
  creat : Bool
  trunc : Bool
  excl : Bool

inductive FileKind
  | link | dir | other
  deriving DecidableEq

structure Stat where
  kind : FileKind
  perm : Word
  size : BitVec 64
  ctime : BitVec 64
  atime : BitVec 64
  mtime : BitVec 64

structure Tm where
  year : Word
  mon : Word
  mday : Word
  hour : Word
  min : Word
  sec : Word

structure Statvfs where
  blocks : BitVec 64
  bfree : BitVec 64
  frsize : BitVec 64

/-- Calls that change the file system and return 0 or fail. -/
inductive FsOp
  | unlink (path : Bytes)
  | rmdir (path : Bytes)
  | mkdir (path : Bytes) (mode : Word)
  | rename (old new : Bytes)
  | chmod (path : Bytes) (mode : Word)
  | utime (path : Bytes) (actime modtime : BitVec 64)

inductive ReadResult
  | bytes (data : Bytes)
  | eintr
  | error (e : Errno)

inductive WriteResult
  | count (n : Nat)
  | eintr
  | error (e : Errno)

structure Scan where
  errno : Errno
  entries : List (CharArray 256)

/-- A bulk read: its return value, the bytes received, and what the memory behind them holds. -/
structure UsbRead where
  ret : Int
  data : Bytes
  stale : Bytes
  received : ret = data.length ∨ ret < 0 ∧ data = []

def delivered (t stale : Bytes) : UsbRead := ⟨t.length, t, stale, .inl rfl⟩

def silence : UsbRead := ⟨0, [], [], .inl rfl⟩

inductive Call
  /-- `size` bytes from endpoint 0x81, into a buffer of `cap`. -/
  | usbBulkRead (cap : Nat) (size : Word)
  | usbBulkWrite (data : Bytes)
  | load
  | modify (f : Globals → Globals)
  | pathEnv
  | lockDrives
  | openFd (path : Bytes) (flags : OpenFlags) (mask : Word)
  | close (fd : Nat)
  /-- The `read(2)` calls of one `fixed_read`, of `len` bytes into a buffer of `cap`. -/
  | read (fd cap len : Nat)
  /-- The `write(2)` calls of one `fixed_write`. -/
  | write (fd : Nat) (data : Bytes)
  | lseek (fd : Nat) (ofs : BitVec 64) (whence : Word)
  | stat (path : Bytes)
  | fs (op : FsOp)
  | scandir (path : Bytes)
  | malloc
  | localtime (t : BitVec 64)
  | mktime (t : Tm)
  | statvfs (path : Bytes)
  | clientSock (chan : Word)
  | sockWrite (chan : Word) (data : Bytes)
  | waitForDevice
  | closeDevice

/-- What a call answers. The lists for `read` and `write` are the returns of the successive
system calls; once a list is used up they return 0. -/
def Call.Answer : Call → Type
  | .usbBulkRead .. => UsbRead
  | .usbBulkWrite _ => Int
  | .load => Globals
  | .modify _ => Unit
  | .pathEnv => PathEnv
  | .lockDrives => Bool
  | .openFd .. => Except Errno Nat
  | .close _ => Option Errno
  | .read .. => List ReadResult
  | .write .. => List WriteResult
  | .lseek .. => BitVec 64
  | .stat _ => Except Errno Stat
  | .fs _ => Option Errno
  | .scandir _ => Scan
  | .malloc => Bool
  | .localtime _ => Tm
  | .mktime _ => Option (BitVec 64)
  | .statvfs _ => Except Errno Statvfs
  | .clientSock _ => Bool
  | .sockWrite .. => Unit
  | .waitForDevice => Unit
  | .closeDevice => Unit

abbrev Pc := Prog Call Call.Answer

def ask (c : Call) : Pc c.Answer := Prog.call c

def change (f : Globals → Globals) : Pc Unit := ask (.modify f)

def usbBulkRead (cap : Nat) (size : Word) : Pc UsbRead := ask (.usbBulkRead cap size)

def usbBulkWrite (data : Bytes) : Pc Int := ask (.usbBulkWrite data)

def fsCall (op : FsOp) : Pc (Option Errno) := ask (.fs op)

/-! ## Files -/

def isDir (path : Bytes) : Pc Bool := do
  match ← ask (.stat path) with
  | .ok s => return s.kind = .dir
  | .error _ => return false

def drivePath (drive : Word) (path : Bytes) (dir : Bool) : Pc (Option Bytes) := do
  let env ← ask .pathEnv
  let g ← ask .load
  return makePath env g.opts g.drives drive path dir

/-- The flags of `open(2)` for the mode of the PSP; `none` without an access mode. -/
def openFlags (mode : Word) : Option OpenFlags :=
  let flags access : OpenFlags :=
    ⟨access, mode &&& 0x100 ≠ 0, mode &&& 0x200 ≠ 0, mode &&& 0x400 ≠ 0, mode &&& 0x800 ≠ 0⟩
  if mode &&& 3 = 3 then some (flags .rdwr)
  else if mode &&& 1 ≠ 0 then some (flags .rdonly)
  else if mode &&& 2 ≠ 0 then some (flags .wronly)
  else none

def Globals.setFile (g : Globals) (fd : Nat) (h : FileHandle) : Globals :=
  { g with openFiles := Function.update g.openFiles fd h }

def Globals.setDir (g : Globals) (did : Nat) (h : DirHandle) : Globals :=
  { g with openDirs := Function.update g.openDirs did h }

/-- The entry of a descriptor that `open(2)` has returned. -/
def enterFile (fd : Nat) (mode : Word) (fullpath : Bytes) : Pc Unit := do
  change fun g => g.setFile fd ⟨true, mode, some fullpath⟩
  if mode &&& hostfsBulkOpen ≠ 0 then
    change fun g => { g with bulkfd := fd }

def openPath (fullpath : Bytes) (flags : OpenFlags) (mode mask : Word) : Pc Word := do
  match ← ask (.openFd fullpath flags (mask &&& ~~~0o111)) with
  | .error errno => return getError errno
  | .ok fd =>
      if fd < maxFiles then
        enterFile fd mode fullpath
        return BitVec.ofNat 32 fd
      else
        let _ ← ask (.close fd)
        return getError emfile

def openFile (drive : Word) (path : Bytes) (mode mask : Word) : Pc Word := do
  match ← drivePath drive path false with
  | none => return getError enoent
  | some fullpath =>
      match openFlags mode with
      | none => return getError einval
      | some flags =>
          if ← isDir fullpath then return getError enoent
          openPath fullpath flags mode mask

def fixedWrite : List WriteResult → (byteswrite len : Nat) → Word
  | [], byteswrite, _ => BitVec.ofNat 32 byteswrite
  | r :: rest, byteswrite, len =>
      if byteswrite < len then
        match r with
        | .eintr => fixedWrite rest byteswrite len
        | .error e => getError e
        | .count 0 => BitVec.ofNat 32 byteswrite
        | .count n => fixedWrite rest (byteswrite + min n (len - byteswrite)) len
      else BitVec.ofNat 32 byteswrite

def fixedRead : List ReadResult → (block : Bytes) → (len : Nat) → Word × Bytes
  | [], block, _ => (BitVec.ofNat 32 block.length, block)
  | r :: rest, block, len =>
      if block.length < len then
        match r with
        | .eintr => fixedRead rest block len
        | .error e => (getError e, block)
        | .bytes [] => (BitVec.ofNat 32 block.length, block)
        | .bytes data => fixedRead rest (block ++ data.take (len - block.length)) len
      else (BitVec.ofNat 32 block.length, block)

/-! ## Attributes -/

def fillTime (t : BitVec 64) : Pc ScePspDateTime := do
  let tm ← ask (.localtime t)
  return ⟨(tm.year + 1900).setWidth 16, (tm.mon + 1).setWidth 16, tm.mday.setWidth 16,
    tm.hour.setWidth 16, tm.min.setWidth 16, tm.sec.setWidth 16, 0⟩

def FileKind.attr : FileKind → Word
  | .link => 0x0008
  | .dir => 0x0010
  | .other => 0x0020

def FileKind.mode : FileKind → Word
  | .link => 0x4000
  | .dir => 0x1000
  | .other => 0x2000

def fillStat (path : Bytes) : Pc (Except Word SceIoStat) := do
  match ← ask (.stat path) with
  | .error errno => return .error (getError errno)
  | .ok st =>
      let ctime ← fillTime st.ctime
      let atime ← fillTime st.atime
      let mtime ← fillTime st.mtime
      return .ok ⟨st.kind.mode ||| (st.perm &&& 0o777), st.kind.attr, st.size, ctime, atime, mtime, {}⟩

def fillStatIn (dirname name : Bytes) : Pc (Except Word SceIoStat) :=
  let path := if dirname.getLast? = some slash then dirname ++ name else dirname ++ slash :: name
  if path.length > pathMax then return .error (getError enametoolong)
  else fillStat (path.take (pathMax - 1))

def pspSettime (path : Bytes) (ts : HostFsTimeStamp) (access : Bool) : Pc Int := do
  match ← ask (.stat path) with
  | .error _ => return -1
  | .ok st =>
      let stime : Tm := ⟨ts.year.setWidth 32 - 1900, ts.month.setWidth 32 - 1, ts.day.setWidth 32,
        ts.hour.setWidth 32, ts.minute.setWidth 32, ts.second.setWidth 32⟩
      match ← ask (.mktime stime) with
      | none => return -1
      | some convtime =>
          let times := if access then (convtime, st.mtime) else (st.atime, convtime)
          match ← fsCall (.utime path times.1 times.2) with
          | none => return 0
          | some _ => return -1

def chstatMode : Word := 0x01
def chstatAtime : Word := 0x10
def chstatMtime : Word := 0x20

def pspChmod (path : Bytes) (cmd : HostFsChstatCmd) : Pc (Option Errno) :=
  if cmd.bits &&& chstatMode ≠ 0 then fsCall (.chmod path (cmd.mode &&& 0o777)) else return none

def pspChtime (path : Bytes) (set : Bool) (ts : HostFsTimeStamp) (access : Bool) : Pc Int :=
  if set then pspSettime path ts access else return 0

/-- `PSP_CHSTAT_SIZE` is tested too, and its branch is empty. -/
def pspChstat (path : Bytes) (cmd : HostFsChstatCmd) : Pc Word := do
  match ← pspChmod path cmd with
  | some errno => return getError errno
  | none =>
      if (← pspChtime path (cmd.bits &&& chstatAtime ≠ 0) cmd.atime true) < 0 then return -1
      if (← pspChtime path (cmd.bits &&& chstatMtime ≠ 0) cmd.mtime false) < 0 then return -1
      return 0

/-! ## Directories -/

/-- The entries, as far as each could be described; `none` at the first that could not. -/
def fillDirents (fulldir : Bytes) : List (CharArray 256) → Pc (Option (List SceIoDirent))
  | [] => return some []
  | name :: rest => do
      match ← fillStatIn fulldir name.text with
      | .error _ => return none
      | .ok stat =>
          let more ← fillDirents fulldir rest
          return more.map (⟨stat, name, {}⟩ :: ·)

def freeDir (g : Globals) : Option Nat := (List.range maxDirs).find? fun did => !(g.openDirs did).opened

def dirOpen (drive : Word) (dirname : Bytes) : Pc Word := do
  let g ← ask .load
  match freeDir g with
  | none => return getError emfile
  | some did =>
      match ← drivePath drive dirname true with
      | none => return getError enoent
      | some fulldir =>
          change fun g => g.setDir did .cleared
          let scan ← ask (.scandir fulldir)
          if scan.entries.isEmpty then return getError scan.errno
          if !(← ask .malloc) then return -1
          match ← fillDirents fulldir scan.entries with
          | none => return -1
          | some pDir =>
              change fun g => g.setDir did ⟨true, 0, pDir⟩
              return BitVec.ofNat 32 did

def dirClose (did : Int) : Pc Word := do
  if 0 ≤ did ∧ did < maxDirs then
    let g ← ask .load
    if (g.openDirs did.toNat).opened then
      change fun g => g.setDir did.toNat .cleared
      return 0
    else return -1
  else return -1

end Psplink.HostFs
