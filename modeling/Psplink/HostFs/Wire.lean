import Psplink.Lib.Packed

/-!
# The HostFS wire format

usbhostfs/usbhostfs.h, the one header that both sides are compiled with, and the structures of
usbhostfs_pc/psp_fileio.h that travel as response data. Both machines are little-endian, so
`LE32` is the identity.
-/

namespace Psplink.HostFs
open Psplink.Lib

abbrev Word := BitVec 32

def hostfsMagic : Word := 0x782F0812
def asyncMagic : Word := 0x782F0813
def bulkMagic : Word := 0x782F0814

def hostfsPathmax : Nat := 4096
def hostfsMaxBlock : Nat := 64 * 1024
def hostfsRenameBufsize : Nat := 1024
def hostfsBulkMaxwrite : Nat := 1024 * 1024
def hostfsBulkOpen : Word := 1 <<< 24
def devctlGetInfo : Word := 0x02425818

def asyncShell : Word := 0
def asyncGdb : Word := 1
def maxAsyncChannels : Nat := 8

/-! ## Commands -/

inductive HostFsCommand
  | hello | bye | openFile | close | read | write | lseek | remove | mkdir | rmdir
  | dopen | dread | dclose | getstat | chstat | rename | chdir | ioctl | devctl
  deriving DecidableEq, Repr

namespace HostFsCommand

def code : HostFsCommand → Word
  | hello => 0x8FFC0000
  | bye => 0x8FFC0001
  | openFile => 0x8FFC0002
  | close => 0x8FFC0003
  | read => 0x8FFC0004
  | write => 0x8FFC0005
  | lseek => 0x8FFC0006
  | remove => 0x8FFC0007
  | mkdir => 0x8FFC0008
  | rmdir => 0x8FFC0009
  | dopen => 0x8FFC000A
  | dread => 0x8FFC000B
  | dclose => 0x8FFC000C
  | getstat => 0x8FFC000D
  | chstat => 0x8FFC000E
  | rename => 0x8FFC000F
  | chdir => 0x8FFC0010
  | ioctl => 0x8FFC0011
  | devctl => 0x8FFC0012

/-- The `case` of the switch a command word selects. -/
def ofCode (w : Word) : Option HostFsCommand :=
  [hello, bye, openFile, close, read, write, lseek, remove, mkdir, rmdir, dopen, dread, dclose,
    getstat, chstat, rename, chdir, ioctl, devctl].find? fun c => c.code = w

@[simp] theorem ofCode_code (c : HostFsCommand) : ofCode c.code = some c := by
  cases c <;> decide

/-- The command whose code the response to a command carries. -/
def stampOf : HostFsCommand → HostFsCommand
  | dread => read
  | c => c

end HostFsCommand

structure HostFsTimeStamp where
  year : BitVec 16
  month : BitVec 16
  day : BitVec 16
  hour : BitVec 16
  minute : BitVec 16
  second : BitVec 16
  deriving DecidableEq

instance : Packed HostFsTimeStamp := .ofFields
  (fun t => (t.year, t.month, t.day, t.hour, t.minute, t.second))
  (fun (year, month, day, hour, minute, second) => ⟨year, month, day, hour, minute, second⟩)
  fun _ => rfl

structure HostFsCmd where
  magic : Word
  command : Word
  extralen : Word
  deriving DecidableEq

instance : Packed HostFsCmd := .ofFields (fun c => (c.magic, c.command, c.extralen))
  (fun (magic, command, extralen) => ⟨magic, command, extralen⟩) fun _ => rfl

structure HostFsOpenCmd where
  cmd : HostFsCmd
  mode : Word
  mask : Word
  fsnum : Word

instance : Packed HostFsOpenCmd := .ofFields (fun c => (c.cmd, c.mode, c.mask, c.fsnum))
  (fun (cmd, mode, mask, fsnum) => ⟨cmd, mode, mask, fsnum⟩) fun _ => rfl

/-- `HostFsCloseCmd` and `HostFsWriteCmd`. -/
structure HostFsFidCmd where
  cmd : HostFsCmd
  fid : Word

instance : Packed HostFsFidCmd := .ofFields (fun c => (c.cmd, c.fid))
  (fun (cmd, fid) => ⟨cmd, fid⟩) fun _ => rfl

structure HostFsReadCmd where
  cmd : HostFsCmd
  fid : Word
  len : Word

instance : Packed HostFsReadCmd := .ofFields (fun c => (c.cmd, c.fid, c.len))
  (fun (cmd, fid, len) => ⟨cmd, fid, len⟩) fun _ => rfl

structure HostFsLseekCmd where
  cmd : HostFsCmd
  fid : Word
  ofs : BitVec 64
  whence : Word

instance : Packed HostFsLseekCmd := .ofFields (fun c => (c.cmd, c.fid, c.ofs, c.whence))
  (fun (cmd, fid, ofs, whence) => ⟨cmd, fid, ofs, whence⟩) fun _ => rfl

structure HostFsIoctlCmd where
  cmd : HostFsCmd
  fid : Word
  cmdno : Word
  outlen : Word

instance : Packed HostFsIoctlCmd := .ofFields (fun c => (c.cmd, c.fid, c.cmdno, c.outlen))
  (fun (cmd, fid, cmdno, outlen) => ⟨cmd, fid, cmdno, outlen⟩) fun _ => rfl

structure HostFsDevctlCmd where
  cmd : HostFsCmd
  cmdno : Word
  fsnum : Word
  outlen : Word

instance : Packed HostFsDevctlCmd := .ofFields (fun c => (c.cmd, c.cmdno, c.fsnum, c.outlen))
  (fun (cmd, cmdno, fsnum, outlen) => ⟨cmd, cmdno, fsnum, outlen⟩) fun _ => rfl

/-- `HostFsRemoveCmd`, `HostFsDopenCmd`, `HostFsRmdirCmd`, `HostFsGetstatCmd`, `HostFsRenameCmd`
and `HostFsChdirCmd`. -/
structure HostFsDriveCmd where
  cmd : HostFsCmd
  fsnum : Word

instance : Packed HostFsDriveCmd := .ofFields (fun c => (c.cmd, c.fsnum))
  (fun (cmd, fsnum) => ⟨cmd, fsnum⟩) fun _ => rfl

/-- `HostFsDreadCmd` and `HostFsDcloseCmd`. -/
structure HostFsDidCmd where
  cmd : HostFsCmd
  did : Word

instance : Packed HostFsDidCmd := .ofFields (fun c => (c.cmd, c.did))
  (fun (cmd, did) => ⟨cmd, did⟩) fun _ => rfl

structure HostFsMkdirCmd where
  cmd : HostFsCmd
  mode : Word
  fsnum : Word

instance : Packed HostFsMkdirCmd := .ofFields (fun c => (c.cmd, c.mode, c.fsnum))
  (fun (cmd, mode, fsnum) => ⟨cmd, mode, fsnum⟩) fun _ => rfl

structure HostFsChstatCmd where
  cmd : HostFsCmd
  bits : Word
  mode : Word
  size : BitVec 64
  atime : HostFsTimeStamp
  mtime : HostFsTimeStamp
  fsnum : Word

instance : Packed HostFsChstatCmd := .ofFields
  (fun c => (c.cmd, c.bits, c.mode, c.size, c.atime, c.mtime, c.fsnum))
  (fun (cmd, bits, mode, size, atime, mtime, fsnum) =>
    ⟨cmd, bits, mode, size, atime, mtime, fsnum⟩) fun _ => rfl

/-! ## Responses -/

/-- Every response but those of hello and lseek: the header and a result. -/
structure HostFsResp where
  cmd : HostFsCmd
  res : Word

instance : Packed HostFsResp := .ofFields (fun r => (r.cmd, r.res))
  (fun (cmd, res) => ⟨cmd, res⟩) fun _ => rfl

structure HostFsLseekResp where
  cmd : HostFsCmd
  res : Word
  ofs : BitVec 64

instance : Packed HostFsLseekResp := .ofFields (fun r => (r.cmd, r.res, r.ofs))
  (fun (cmd, res, ofs) => ⟨cmd, res, ofs⟩) fun _ => rfl

/-! ## The other two framings -/

structure AsyncCommand where
  magic : Word
  channel : Word

instance : Packed AsyncCommand := .ofFields (fun c => (c.magic, c.channel))
  (fun (magic, channel) => ⟨magic, channel⟩) fun _ => rfl

structure BulkCommand where
  magic : Word
  size : Word

instance : Packed BulkCommand := .ofFields (fun c => (c.magic, c.size))
  (fun (magic, size) => ⟨magic, size⟩) fun _ => rfl

/-! ## Response data -/

structure ScePspDateTime where
  year : BitVec 16
  month : BitVec 16
  day : BitVec 16
  hour : BitVec 16
  minute : BitVec 16
  second : BitVec 16
  microsecond : Word

instance : Packed ScePspDateTime := .ofFields
  (fun t => (t.year, t.month, t.day, t.hour, t.minute, t.second, t.microsecond))
  (fun (year, month, day, hour, minute, second, microsecond) =>
    ⟨year, month, day, hour, minute, second, microsecond⟩) fun _ => rfl

structure SceIoStat where
  mode : Word
  attr : Word
  size : BitVec 64
  ctime : ScePspDateTime
  atime : ScePspDateTime
  mtime : ScePspDateTime
  stPrivate : Unused 24

instance : Packed SceIoStat := .ofFields
  (fun s => (s.mode, s.attr, s.size, s.ctime, s.atime, s.mtime, s.stPrivate))
  (fun (mode, attr, size, ctime, atime, mtime, stPrivate) =>
    ⟨mode, attr, size, ctime, atime, mtime, stPrivate⟩) fun _ => rfl

structure SceIoDirent where
  stat : SceIoStat
  name : CharArray 256
  tail : Unused 8

instance : Packed SceIoDirent := .ofFields (fun d => (d.stat, d.name, d.tail))
  (fun (stat, name, tail) => ⟨stat, name, tail⟩) fun _ => rfl

structure DevctlGetInfo where
  btotal : Word
  bfree : Word
  unk : Word
  ssize : Word
  sects : Word

instance : Packed DevctlGetInfo := .ofFields (fun i => (i.btotal, i.bfree, i.unk, i.ssize, i.sects))
  (fun (btotal, bfree, unk, ssize, sects) => ⟨btotal, bfree, unk, ssize, sects⟩) fun _ => rfl

/-! ## Headers -/

/-- A structure that begins with the common header. -/
class Headed (α : Type) [Packed α] where
  cmd : α → HostFsCmd
  tail : α → Bytes
  split : ∀ a, encode a = encode (cmd a) ++ tail a

instance : Headed HostFsCmd := ⟨id, fun _ => [], fun c => (List.append_nil (encode c)).symm⟩
instance : Headed HostFsOpenCmd := ⟨(·.cmd), fun c => encode (c.mode, c.mask, c.fsnum), fun _ => rfl⟩
instance : Headed HostFsFidCmd := ⟨(·.cmd), fun c => encode c.fid, fun _ => rfl⟩
instance : Headed HostFsReadCmd := ⟨(·.cmd), fun c => encode (c.fid, c.len), fun _ => rfl⟩
instance : Headed HostFsLseekCmd := ⟨(·.cmd), fun c => encode (c.fid, c.ofs, c.whence), fun _ => rfl⟩
instance : Headed HostFsIoctlCmd :=
  ⟨(·.cmd), fun c => encode (c.fid, c.cmdno, c.outlen), fun _ => rfl⟩
instance : Headed HostFsDevctlCmd :=
  ⟨(·.cmd), fun c => encode (c.cmdno, c.fsnum, c.outlen), fun _ => rfl⟩
instance : Headed HostFsDriveCmd := ⟨(·.cmd), fun c => encode c.fsnum, fun _ => rfl⟩
instance : Headed HostFsDidCmd := ⟨(·.cmd), fun c => encode c.did, fun _ => rfl⟩
instance : Headed HostFsMkdirCmd := ⟨(·.cmd), fun c => encode (c.mode, c.fsnum), fun _ => rfl⟩
instance : Headed HostFsChstatCmd :=
  ⟨(·.cmd), fun c => encode (c.bits, c.mode, c.size, c.atime, c.mtime, c.fsnum), fun _ => rfl⟩
instance : Headed HostFsResp := ⟨(·.cmd), fun r => encode r.res, fun _ => rfl⟩
instance : Headed HostFsLseekResp := ⟨(·.cmd), fun r => encode (r.res, r.ofs), fun _ => rfl⟩

/-- The word a receiver tells the three framings apart by. -/
def magicOf (t : Bytes) : Word := decode t

def headerOf (t : Bytes) : HostFsCmd := decode t

@[simp] theorem headerOf_encode {α : Type} [Packed α] [Headed α] (a : α) :
    headerOf (encode a) = Headed.cmd a := by
  rw [headerOf, Headed.split, Packed.decode_encode]

theorem ofCode_encode {α : Type} [Packed α] [Headed α] (a : α) {c : HostFsCommand} (code : (Headed.cmd a).command = c.code) :
    HostFsCommand.ofCode (headerOf (encode a)).command = some c := by
  rw [headerOf_encode, code, HostFsCommand.ofCode_code]

@[simp] theorem magicOf_encode {α : Type} [Packed α] [Headed α] (a : α) :
    magicOf (encode a) = (Headed.cmd a).magic := by
  have first : ∀ (c : HostFsCmd) rest, encode c ++ rest =
      encode c.magic ++ (encode (c.command, c.extralen) ++ rest) := fun c rest =>
    List.append_assoc _ _ _
  rw [magicOf, Headed.split, first, Packed.decode_encode]

theorem magicOf_async (c : AsyncCommand) (data : Bytes) : magicOf (encode c ++ data) = c.magic := by
  rw [magicOf, show encode c = encode c.magic ++ encode c.channel from rfl, List.append_assoc,
    Packed.decode_encode]

theorem magicOf_bulk (c : BulkCommand) : magicOf (encode c) = c.magic :=
  Packed.decode_encode c.magic (encode c.size)

def commandSize : HostFsCommand → Nat
  | .hello | .bye => sizeof HostFsCmd
  | .openFile => sizeof HostFsOpenCmd
  | .close | .write => sizeof HostFsFidCmd
  | .read => sizeof HostFsReadCmd
  | .lseek => sizeof HostFsLseekCmd
  | .remove | .rmdir | .dopen | .getstat | .rename | .chdir => sizeof HostFsDriveCmd
  | .mkdir => sizeof HostFsMkdirCmd
  | .dread | .dclose => sizeof HostFsDidCmd
  | .chstat => sizeof HostFsChstatCmd
  | .ioctl => sizeof HostFsIoctlCmd
  | .devctl => sizeof HostFsDevctlCmd

end Psplink.HostFs
