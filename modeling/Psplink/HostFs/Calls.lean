import Psplink.HostFs.Handlers

/-!
# What the functions of the daemon call

Most functions of the daemon only look at paths, attributes and directories. They make local
calls: no transfer on the USB link, no descriptor of the file table, no change to the file table.
-/

namespace Psplink.HostFs
open Psplink.Lib

@[simp] theorem ask_seq {α : Type} (c : Call) (f : c.Answer → Pc α) : ask c >>= f = Prog.ask c f := rfl

@[simp] theorem change_seq {α : Type} (f : Globals → Globals) (k : Unit → Pc α) :
    change f >>= k = Prog.ask (.modify f) k := rfl

@[simp] theorem usbBulkRead_seq {α : Type} (cap : Nat) (size : Word) (f : UsbRead → Pc α) :
    usbBulkRead cap size >>= f = Prog.ask (.usbBulkRead cap size) f := rfl

@[simp] theorem usbBulkWrite_seq {α : Type} (data : Bytes) (f : Int → Pc α) :
    usbBulkWrite data >>= f = Prog.ask (.usbBulkWrite data) f := rfl

@[simp] theorem fsCall_seq {α : Type} (op : FsOp) (f : Option Errno → Pc α) :
    fsCall op >>= f = Prog.ask (.fs op) f := rfl

/-- A host whose calls fail where they can. -/
def refused : (c : Call) → c.Answer
  | .usbBulkRead .. => silence
  | .usbBulkWrite _ => (-1 : Int)
  | .load => zeroGlobals
  | .modify _ => ()
  | .pathEnv => (⟨false, fun _ => none⟩ : PathEnv)
  | .lockDrives => false
  | .openFd .. => (.error enoent : Except Errno Nat)
  | .close _ => some einval
  | .read .. => [.error einval]
  | .write .. => [.error einval]
  | .lseek .. => (-1 : BitVec 64)
  | .stat _ => (.error enoent : Except Errno Stat)
  | .fs _ => some enoent
  | .scandir _ => (⟨enoent, []⟩ : Scan)
  | .malloc => false
  | .localtime _ => (⟨0, 0, 0, 0, 0, 0⟩ : Tm)
  | .mktime _ => (none : Option (BitVec 64))
  | .statvfs _ => (.error enoent : Except Errno Statvfs)
  | .clientSock _ => false
  | .sockWrite .. => ()
  | .waitForDevice => ()
  | .closeDevice => ()

theorem getError_negative (e : Errno) : (getError e).toInt < 0 := by
  apply BitVec.toInt_neg_of_msb_true
  rw [getError, BitVec.msb_or]
  rfl

/-! ## Local calls -/

def Call.IsLocal : Call → Prop
  | .modify f => ∀ g, (f g).openFiles = g.openFiles ∧ (f g).bulkfd = g.bulkfd
  | .usbBulkRead .. | .usbBulkWrite _ | .openFd .. | .close _ | .read .. | .write .. | .lseek ..
  | .waitForDevice => False
  | .load | .pathEnv | .lockDrives | .stat _ | .fs _ | .scandir _ | .malloc | .localtime _
  | .mktime _ | .statvfs _ | .clientSock _ | .sockWrite .. | .closeDevice => True

abbrev Local {α : Type} (p : Pc α) : Prop := p.Only Call.IsLocal

theorem local_fsCall (op : FsOp) : Local (fsCall op) := .ask trivial fun _ => .ret _

theorem local_drivePath (drive : Word) (path : Bytes) (dir : Bool) :
    Local (drivePath drive path dir) := .ask trivial fun _ => .ask trivial fun _ => .ret _

theorem local_isDir (path : Bytes) : Local (isDir path) := by
  refine .ask trivial fun found => ?_
  cases found <;> exact .ret _

theorem local_fillTime (t : BitVec 64) : Local (fillTime t) := .ask trivial fun _ => .ret _

theorem local_fillStat (path : Bytes) : Local (fillStat path) := by
  simp only [fillStat, ask_seq]
  refine .ask trivial fun found => ?_
  cases found with
  | error e => exact .ret _
  | ok st =>
      exact .bind (local_fillTime _) fun _ => .bind (local_fillTime _) fun _ =>
        .bind (local_fillTime _) fun _ => .ret _

theorem local_fillStatIn (dirname name : Bytes) : Local (fillStatIn dirname name) := by
  unfold fillStatIn
  dsimp only
  generalize (if dirname.getLast? = some slash then _ else _) = path
  split
  · exact .ret _
  · exact local_fillStat _

theorem local_pspSettime (path : Bytes) (ts : HostFsTimeStamp) (access : Bool) :
    Local (pspSettime path ts access) := by
  simp only [pspSettime, ask_seq, fsCall_seq]
  refine .ask trivial fun found => ?_
  cases found with
  | error e => exact .ret _
  | ok st =>
      refine .ask trivial fun converted => ?_
      cases converted with
      | none => exact .ret _
      | some convtime =>
          refine .ask trivial fun result => ?_
          cases result <;> exact .ret _

theorem local_pspChmod (path : Bytes) (cmd : HostFsChstatCmd) : Local (pspChmod path cmd) := by
  unfold pspChmod
  split
  · exact local_fsCall _
  · exact .ret _

theorem local_pspChtime (path : Bytes) (set : Bool) (ts : HostFsTimeStamp) (access : Bool) :
    Local (pspChtime path set ts access) := by
  cases set with
  | true => exact local_pspSettime _ _ _
  | false => exact .ret _

theorem local_pspChstat (path : Bytes) (cmd : HostFsChstatCmd) : Local (pspChstat path cmd) := by
  refine .bind (local_pspChmod _ _) fun failed => ?_
  cases failed with
  | some errno => exact .ret _
  | none =>
      refine .bind (local_pspChtime _ _ _ _) fun ret => ?_
      split
      · exact .ret _
      · refine .bind (local_pspChtime _ _ _ _) fun ret => ?_
        split <;> exact .ret _

/-! ## Directories -/

theorem local_fillDirents (fulldir : Bytes) (names : List (CharArray 256)) :
    Local (fillDirents fulldir names) := by
  induction names with
  | nil => exact .ret _
  | cons name rest ih =>
      refine .bind (local_fillStatIn _ _) fun found => ?_
      cases found with
      | error res => exact .ret _
      | ok stat => exact .bind ih fun _ => .ret _

theorem local_dirOpen (drive : Word) (dirname : Bytes) : Local (dirOpen drive dirname) := by
  simp only [dirOpen, ask_seq]
  refine .ask trivial fun g => ?_
  cases freeDir g with
  | none => exact .ret _
  | some did =>
      refine .bind (local_drivePath _ _ _) fun fulldir => ?_
      cases fulldir with
      | none => exact .ret _
      | some fulldir =>
          refine .ask (fun _ => ⟨rfl, rfl⟩) fun _ => .ask trivial fun scan => ?_
          split
          · exact .ret _
          refine .ask trivial fun allocated => ?_
          cases allocated with
          | false => exact .ret _
          | true =>
              refine .bind (local_fillDirents _ _) fun pDir => ?_
              cases pDir with
              | none => exact .ret _
              | some pDir => exact .ask (fun _ => ⟨rfl, rfl⟩) fun _ => .ret _

theorem local_dirClose (did : Int) : Local (dirClose did) := by
  simp only [dirClose, ask_seq]
  split
  · refine .ask trivial fun g => ?_
    split
    · exact .ask (fun _ => ⟨rfl, rfl⟩) fun _ => .ret _
    · exact .ret _
  · exact .ret _

theorem local_closeDirs (dids : List Nat) : Local (closeDirs dids) := by
  induction dids with
  | nil => exact .ret _
  | cons did rest ih =>
      simp only [closeDirs, ask_seq]
      refine .ask trivial fun g => ?_
      split
      · exact .bind (local_dirClose _) fun _ => ih
      · exact ih

theorem local_nextDirent (did : Int) : Local (nextDirent did) := by
  simp only [nextDirent, ask_seq]
  split
  · refine .ask trivial fun g => ?_
    split
    · split
      · exact .ask (fun _ => ⟨rfl, rfl⟩) fun _ => .ret _
      · exact .ret _
    · exact .ret _
  · exact .ret _

/-! ## Results -/

theorem local_fsOp (op : FsOp) : Local (fsOp op) := .ask trivial fun _ => .ret _

theorem local_onPath (fsnum : Word) (path : Bytes) (op : Bytes → Pc Word)
    (each : ∀ fullpath, Local (op fullpath)) : Local (onPath fsnum path op) := by
  refine .bind (local_drivePath _ _ _) fun fullpath => ?_
  cases fullpath with
  | none => exact .ret _
  | some fullpath => exact each fullpath

theorem local_statPath (fsnum : Word) (path : Bytes) : Local (statPath fsnum path) := by
  refine .bind (local_drivePath _ _ _) fun fullpath => ?_
  cases fullpath with
  | none => exact .ret _
  | some fullpath =>
      refine .bind (local_fillStat _) fun found => ?_
      cases found <;> exact .ret _

theorem local_renamePaths (fsnum : Word) (old new : Bytes) : Local (renamePaths fsnum old new) :=
  local_onPath _ _ _ fun _ => local_onPath _ _ _ fun _ => local_fsOp _

theorem local_setCurrdir (fsnum : Int) (path : Bytes) : Local (setCurrdir fsnum path) := by
  unfold setCurrdir
  split
  · exact .ask (fun _ => ⟨rfl, rfl⟩) fun _ => .ret _
  · exact .ret _

theorem local_getDriveInfo (drive : Word) : Local (getDriveInfo drive) := by
  simp only [getDriveInfo, ask_seq]
  split
  · exact .ret _
  refine .ask trivial fun locked => ?_
  split
  · exact .ret _
  refine .ask trivial fun g => .ask trivial fun found => ?_
  cases found <;> exact .ret _

theorem local_doAsync (t : Bytes) : Local (doAsync t) := by
  unfold doAsync
  split
  · dsimp only
    split
    · refine .ask trivial fun connected => ?_
      cases connected with
      | true => exact .ask trivial fun _ => .ret _
      | false => exact .ret _
    · exact .ret _
  · exact .ret _

/-! ## Calls on descriptors -/

theorem calls_openPath (fullpath : Bytes) (flags : OpenFlags) (mode mask : Word) :
    (openPath fullpath flags mode mask).Only fun c =>
      c = .openFd fullpath flags (mask &&& ~~~0o111) ∨ (∃ fd, c = .close fd) ∨ ∃ f, c = .modify f := by
  simp only [openPath, ask_seq]
  apply Prog.Only.ask (.inl rfl)
  intro result
  cases result with
  | error e => exact .ret _
  | ok fd =>
      dsimp only
      split
      · apply Prog.Only.bind
        · apply Prog.Only.ask (.inr (.inr ⟨_, rfl⟩))
          intro _
          split
          · exact .ask (.inr (.inr ⟨_, rfl⟩)) fun _ => .ret _
          · exact .ret _
        · intro _
          exact .ret _
      · exact .ask (.inr (.inl ⟨fd, rfl⟩)) fun _ => .ret _

theorem calls_writeFid (fid : Int) (data : Bytes) :
    (writeFid fid data).Only fun c => c = .load ∨ c = .write fid.toNat data := by
  simp only [writeFid, ask_seq]
  split
  · apply Prog.Only.ask (.inl rfl)
    intro g
    split
    · exact .ask (.inr rfl) fun _ => .ret _
    · exact .ret _
  · exact .ret _

theorem calls_readFid (fid : Int) (len : Nat) :
    (readFid fid len).Only fun c => c = .load ∨ c = .read fid.toNat hostfsMaxBlock len := by
  simp only [readFid, ask_seq]
  split
  · apply Prog.Only.ask (.inl rfl)
    intro g
    split
    · apply Prog.Only.ask (.inr rfl)
      intro rets
      split <;> exact .ret _
    · exact .ret _
  · exact .ret _

theorem calls_closeFid (fid : Int) :
    (closeFid fid).Only fun c => c = .load ∨ c = .close fid.toNat ∨ ∃ f, c = .modify f := by
  simp only [closeFid, ask_seq, change_seq]
  apply Prog.Only.ask (.inl rfl)
  intro g
  split
  · exact .ask (.inr (.inl rfl)) fun _ => .ask (.inr (.inr ⟨_, rfl⟩)) fun _ => .ret _
  · exact .ret _

theorem calls_lseekFid (fid : Int) (ofs : BitVec 64) (whence : Word) :
    (lseekFid fid ofs whence).Only fun c => c = .load ∨ c = .lseek fid.toNat ofs whence := by
  simp only [lseekFid, ask_seq]
  apply Prog.Only.ask (.inl rfl)
  intro g
  split
  · exact .ask (.inr rfl) fun _ => .ret _
  · exact .ret _

theorem only_openFile {P : Call → Prop} (isLocal : ∀ c, c.IsLocal → P c) (drive : Word) (path : Bytes)
    (mode mask : Word) (only : ∀ fullpath flags, (openPath fullpath flags mode mask).Only P) :
    (openFile drive path mode mask).Only P := by
  apply ((local_drivePath _ _ _).mono isLocal).bind
  intro fullpath
  cases fullpath with
  | none => exact .ret _
  | some fullpath =>
      cases openFlags mode with
      | none => exact .ret _
      | some flags =>
          apply ((local_isDir _).mono isLocal).bind
          intro dir
          cases dir with
          | true => exact .ret _
          | false => exact only fullpath flags

/-! ## Calls without a transfer -/

def Call.IsQuiet : Call → Prop
  | .usbBulkRead .. | .usbBulkWrite _ => False
  | _ => True

abbrev Quiet {α : Type} (p : Pc α) : Prop := p.Only Call.IsQuiet

theorem isQuiet_of_isLocal (c : Call) (h : c.IsLocal) : c.IsQuiet := by
  cases c <;> trivial

theorem quiet_of_local {α : Type} {p : Pc α} (h : Local p) : Quiet p := h.mono isQuiet_of_isLocal

theorem quiet_openFile (drive : Word) (path : Bytes) (mode mask : Word) :
    Quiet (openFile drive path mode mask) := by
  apply only_openFile isQuiet_of_isLocal
  intro fullpath flags
  apply (calls_openPath fullpath flags mode mask).mono
  rintro c (rfl | ⟨fd, rfl⟩ | ⟨f, rfl⟩) <;> trivial

theorem quiet_writeFid (fid : Int) (data : Bytes) : Quiet (writeFid fid data) := by
  apply (calls_writeFid fid data).mono
  rintro c (rfl | rfl) <;> trivial

theorem quiet_readFid (fid : Int) (len : Nat) : Quiet (readFid fid len) := by
  apply (calls_readFid fid len).mono
  rintro c (rfl | rfl) <;> trivial

theorem quiet_closeFid (fid : Int) : Quiet (closeFid fid) := by
  apply (calls_closeFid fid).mono
  rintro c (rfl | rfl | ⟨f, rfl⟩) <;> trivial

theorem quiet_lseekFid (fid : Int) (ofs : BitVec 64) (whence : Word) :
    Quiet (lseekFid fid ofs whence) := by
  apply (calls_lseekFid fid ofs whence).mono
  rintro c (rfl | rfl) <;> trivial

end Psplink.HostFs
