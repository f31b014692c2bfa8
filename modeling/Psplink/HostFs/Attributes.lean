import Psplink.HostFs.Link

/-!
# Changes of attributes

What a successful `io_chstat` on the PSP leaves of a file on the PC, against what it was given.
-/

namespace Psplink.HostFs
open Psplink.Lib

def chstatSize : Word := 0x04

/-! ## The host -/

structure AttrSystem where
  env : PathEnv
  /-- `mktime`, by what is in `tm_isdst`. -/
  mktime : Word → Tm → Option (BitVec 64)
  /-- Calls that the host does not let through. -/
  denies : FsOp → Option Errno
  other : (c : Call) → c.Answer

structure AttrHost where
  globals : Globals
  files : Bytes → Option Stat
  /-- What `tm_isdst` holds, which `psp_settime` does not set, at the next `mktime` and those after it. -/
  isdst : Nat → Word

namespace AttrHost

def setFile (h : AttrHost) (path : Bytes) (st : Stat) : AttrHost :=
  { h with files := Function.update h.files path (some st) }

def popIsdst (h : AttrHost) : AttrHost := { h with isdst := fun i => h.isdst (i + 1) }

/-- A change of a file that there is. -/
def alter (h : AttrHost) (path : Bytes) (f : Stat → Stat) : Option Errno × AttrHost :=
  match h.files path with
  | some st => (none, h.setFile path (f st))
  | none => (some enoent, h)

end AttrHost

def AttrSystem.answer (sys : AttrSystem) : (c : Call) → AttrHost → c.Answer × AttrHost
  | .load, h => (h.globals, h)
  | .modify f, h => ((), { h with globals := f h.globals })
  | .pathEnv, h => (sys.env, h)
  | .stat path, h => ((match h.files path with | some st => .ok st | none => .error enoent : Except Errno Stat), h)
  | .mktime t, h => (sys.mktime (h.isdst 0) t, h.popIsdst)
  | .fs (.chmod path mode), h =>
      match sys.denies (.chmod path mode) with
      | none => h.alter path fun st => { st with perm := mode }
      | some errno => (some errno, h)
  | .fs (.utime path actime modtime), h =>
      match sys.denies (.utime path actime modtime) with
      | none => h.alter path fun st => { st with atime := actime, mtime := modtime }
      | some errno => (some errno, h)
  | c, h => (sys.other c, h)

/-! ## What is asked for -/

def tmOf (year month day hour minute second : BitVec 16) : Tm :=
  ⟨year.setWidth 32 - 1900, month.setWidth 32 - 1, day.setWidth 32, hour.setWidth 32, minute.setWidth 32, second.setWidth 32⟩

def ScePspDateTime.tm (t : ScePspDateTime) : Tm := tmOf t.year t.month t.day t.hour t.minute t.second

/-- The access time as it comes over: with the minute and the second of the modification time. -/
def crossedTm (stat : SceIoStat) : Tm :=
  tmOf stat.atime.year stat.atime.month stat.atime.day stat.atime.hour stat.mtime.minute stat.mtime.second

/-- The moment of a date: where `mktime` has to find out whether daylight saving time is in effect. -/
def AttrSystem.moment (sys : AttrSystem) (t : Tm) : Option (BitVec 64) := sys.mktime (-1) t

/-- `after` has of `stat` the attributes whose bits are set, and of `before` all others. -/
structure Carried (sys : AttrSystem) (stat : SceIoStat) (bits : Word) (before after : Stat) : Prop where
  perm : after.perm = if bits &&& chstatMode ≠ 0 then stat.mode &&& 0o777 else before.perm
  size : after.size = if bits &&& chstatSize ≠ 0 then stat.size else before.size
  atime : some after.atime = if bits &&& chstatAtime ≠ 0 then sys.moment stat.atime.tm else some before.atime
  mtime : some after.mtime = if bits &&& chstatMtime ≠ 0 then sys.moment stat.mtime.tm else some before.mtime

/-! ## Steps on the PC -/

section

variable {sys : AttrSystem} {h : AttrHost} {path : Bytes} {st : Stat}

theorem files_setFile (h : AttrHost) (path : Bytes) (st : Stat) : (h.setFile path st).files path = some st :=
  Function.update_self ..

theorem alter_there (there : h.files path = some st) (f : Stat → Stat) :
    h.alter path f = (none, h.setFile path (f st)) := by rw [AttrHost.alter, there]

theorem interp_stat {α : Type} (there : h.files path = some st) (k : (Call.stat path).Answer → Pc α) :
    (ask (.stat path) >>= k).interp sys.answer h = (k (.ok st : Except Errno Stat)).interp sys.answer h := by
  have answered : (ask (.stat path) >>= k).interp sys.answer h =
      (k (match h.files path with | some st => .ok st | none => .error enoent : Except Errno Stat)).interp sys.answer h :=
    rfl
  rw [answered, there]

theorem interp_mktime {α : Type} (t : Tm) (k : (Call.mktime t).Answer → Pc α) :
    (ask (.mktime t) >>= k).interp sys.answer h = (k (sys.mktime (h.isdst 0) t)).interp sys.answer h.popIsdst := rfl

theorem interp_utime {α : Type} (actime modtime : BitVec 64) (k : Option Errno → Pc α) :
    (fsCall (.utime path actime modtime) >>= k).interp sys.answer h =
      match sys.denies (.utime path actime modtime) with
      | none => (k (h.alter path fun st => { st with atime := actime, mtime := modtime }).1).interp sys.answer
          (h.alter path fun st => { st with atime := actime, mtime := modtime }).2
      | some errno => (k (some errno)).interp sys.answer h := by
  have answered : (fsCall (.utime path actime modtime) >>= k).interp sys.answer h =
      (k (sys.answer (.fs (.utime path actime modtime)) h).1).interp sys.answer
        (sys.answer (.fs (.utime path actime modtime)) h).2 := rfl
  rw [answered]
  unfold AttrSystem.answer
  dsimp only
  cases sys.denies (.utime path actime modtime) <;> rfl

theorem chmod_succeeds (there : h.files path = some st) (cmd : HostFsChstatCmd)
    (succeeds : ((pspChmod path cmd).interp sys.answer h).1 = none) :
    ((pspChmod path cmd).interp sys.answer h).2.isdst = h.isdst ∧
      ((pspChmod path cmd).interp sys.answer h).2.files path =
        some { st with perm := if cmd.bits &&& chstatMode ≠ 0 then cmd.mode &&& 0o777 else st.perm } := by
  unfold pspChmod at *
  by_cases set : cmd.bits &&& chstatMode ≠ 0
  · rw [if_pos set] at succeeds ⊢
    rw [if_pos set]
    have answered : (fsCall (.chmod path (cmd.mode &&& 0o777))).interp sys.answer h =
        sys.answer (.fs (.chmod path (cmd.mode &&& 0o777))) h := rfl
    rw [answered] at succeeds ⊢
    unfold AttrSystem.answer at *
    dsimp only at *
    cases denied : sys.denies (.chmod path (cmd.mode &&& 0o777)) with
    | some errno =>
        rw [denied] at succeeds
        cases succeeds
    | none =>
        rw [alter_there there]
        exact ⟨rfl, files_setFile ..⟩
  · rw [if_neg set, if_neg set]
    exact ⟨rfl, there⟩

/-- A change of one time that succeeds: the other one stays. -/
theorem settime_succeeds (there : h.files path = some st) (ts : HostFsTimeStamp) (access : Bool)
    (succeeds : 0 ≤ ((pspSettime path ts access).interp sys.answer h).1) :
    ∃ t, sys.mktime (h.isdst 0) (tmOf ts.year ts.month ts.day ts.hour ts.minute ts.second) = some t ∧
      ((pspSettime path ts access).interp sys.answer h).2 =
        h.popIsdst.setFile path (if access then { st with atime := t } else { st with mtime := t }) := by
  have stays : h.popIsdst.files path = some st := there
  unfold pspSettime at *
  rw [interp_stat there] at *
  dsimp only at *
  rw [← tmOf, interp_mktime] at *
  cases converted : sys.mktime (h.isdst 0) (tmOf ts.year ts.month ts.day ts.hour ts.minute ts.second) with
  | none =>
      rw [converted] at succeeds
      exact False.elim (absurd succeeds (by simp))
  | some t =>
      rw [converted] at succeeds
      refine ⟨t, rfl, ?_⟩
      dsimp only at *
      rw [interp_utime, alter_there stays] at *
      generalize chosen : (if access = true then (t, st.mtime) else (st.atime, t)) = times at *
      split at succeeds
      · subst chosen
        cases access <;> rfl
      · exact absurd succeeds (by simp)

/-- The times of `st` with the one that is to be set. -/
theorem chtime_succeeds (there : h.files path = some st) (set : Bool) (ts : HostFsTimeStamp) (access : Bool)
    (succeeds : 0 ≤ ((pspChtime path set ts access).interp sys.answer h).1) :
    ∃ t, some t = (if set then sys.mktime (h.isdst 0) (tmOf ts.year ts.month ts.day ts.hour ts.minute ts.second)
        else some (if access then st.atime else st.mtime)) ∧
      ((pspChtime path set ts access).interp sys.answer h).2.files path =
        some (if access then { st with atime := t } else { st with mtime := t }) ∧
      ((pspChtime path set ts access).interp sys.answer h).2.isdst 0 = h.isdst (if set then 1 else 0) := by
  cases set with
  | true =>
      obtain ⟨t, converted, left⟩ := settime_succeeds there ts access succeeds
      refine ⟨t, converted.symm, ?_⟩
      have run : (pspChtime path true ts access).interp sys.answer h = (pspSettime path ts access).interp sys.answer h := rfl
      rw [run, left]
      exact ⟨files_setFile .., rfl⟩
  | false =>
      refine ⟨if access then st.atime else st.mtime, rfl, ?_, rfl⟩
      have same : (if access then { st with atime := if access then st.atime else st.mtime }
          else { st with mtime := if access then st.atime else st.mtime }) = st := by cases access <;> rfl
      rw [same]
      exact there

theorem chstat_succeeds (there : h.files path = some st) (cmd : HostFsChstatCmd)
    (succeeds : ((pspChstat path cmd).interp sys.answer h).1 = 0) :
    ∃ after, ((pspChstat path cmd).interp sys.answer h).2.files path = some after ∧
      after.perm = (if cmd.bits &&& chstatMode ≠ 0 then cmd.mode &&& 0o777 else st.perm) ∧
      after.size = st.size ∧
      some after.atime = (if cmd.bits &&& chstatAtime ≠ 0 then
        sys.mktime (h.isdst 0) (tmOf cmd.atime.year cmd.atime.month cmd.atime.day cmd.atime.hour cmd.atime.minute
          cmd.atime.second) else some st.atime) ∧
      some after.mtime = if cmd.bits &&& chstatMtime ≠ 0 then
        sys.mktime (h.isdst (if cmd.bits &&& chstatAtime ≠ 0 then 1 else 0)) (tmOf cmd.mtime.year cmd.mtime.month
          cmd.mtime.day cmd.mtime.hour cmd.mtime.minute cmd.mtime.second) else some st.mtime := by
  unfold pspChstat at *
  rw [Prog.interp_bind] at *
  cases changed : ((pspChmod path cmd).interp sys.answer h).1 with
  | some errno =>
      rw [changed] at succeeds
      have negative := getError_negative errno
      have zero : getError errno = 0 := succeeds
      rw [zero] at negative
      exact absurd negative (by decide)
  | none =>
      obtain ⟨isdst₁, there₁⟩ := chmod_succeeds there cmd changed
      rw [changed] at succeeds
      generalize ((pspChmod path cmd).interp sys.answer h).2 = h₁ at *
      dsimp only at *
      rw [Prog.interp_bind] at *
      generalize atime : (pspChtime path (cmd.bits &&& chstatAtime ≠ 0) cmd.atime true).interp sys.answer h₁ = first at *
      by_cases failed₁ : first.1 < 0
      · rw [if_pos failed₁] at succeeds
        exact absurd succeeds (by simp)
      rw [if_neg failed₁, Prog.interp_bind] at *
      have passed₁ : 0 ≤ ((pspChtime path (cmd.bits &&& chstatAtime ≠ 0) cmd.atime true).interp sys.answer h₁).1 := by
        rw [atime]
        exact Int.not_lt.mp failed₁
      obtain ⟨t₁, converted₁, there₂, isdst₂⟩ := chtime_succeeds there₁ _ cmd.atime true passed₁
      rw [atime] at there₂ isdst₂
      generalize mtime : (pspChtime path (cmd.bits &&& chstatMtime ≠ 0) cmd.mtime false).interp sys.answer first.2 =
        second at *
      by_cases failed₂ : second.1 < 0
      · rw [if_pos failed₂] at succeeds
        exact absurd succeeds (by simp)
      have passed₂ : 0 ≤ ((pspChtime path (cmd.bits &&& chstatMtime ≠ 0) cmd.mtime false).interp sys.answer first.2).1 := by
        rw [mtime]
        exact Int.not_lt.mp failed₂
      obtain ⟨t₂, converted₂, there₃, -⟩ := chtime_succeeds there₂ _ cmd.mtime false passed₂
      rw [mtime] at there₃
      rw [if_neg failed₂]
      refine ⟨_, there₃, rfl, rfl, ?_, ?_⟩
      · simpa [isdst₁] using converted₁
      · simpa [isdst₁, isdst₂] using converted₂

end

/-! ## The request -/

/-- `io_chstat` with the daemon on a host at the other end of the link. -/
def chstatRun (sys : AttrSystem) (fsnum : Word) (file : CString) (stat : SceIoStat) (bits : Word) (h : AttrHost) :
    Word × Linked AttrHost :=
  (ioChstat fsnum (some file) (some stat) bits).interp (Linked.line sys.answer).answer ⟨h, [], []⟩

section

variable {sys : AttrSystem} {fsnum : Word} {file : CString} {stat : SceIoStat} {bits : Word} {h : AttrHost} {path : Bytes}

theorem dispatch_chstat (cmd : HostFsChstatCmd) (code : cmd.cmd.command = HostFsCommand.chstat.code) :
    dispatch (encode cmd) = handleChstat cmd (encode cmd).length := by
  rw [dispatch, ofCode_encode cmd code]
  dsimp only
  rw [Packed.decode_encode_self]

theorem length_of_made {env : PathEnv} {opts : PathOptions} {drives : Nat → HostDrive} {drive : Word} {name : Bytes}
    {dir : Bool} (made : makePath env opts drives drive name dir = some path) : name.length < pathMax := by
  by_contra long
  unfold makePath at made
  dsimp only at made
  rw [if_pos (by rw [List.length_append]; omega : ((drives drive.toNat).currdir ++ name).length ≥ pathMax), ite_self,
    ite_self] at made
  cases made

theorem interp_onPath {op : Bytes → Pc Word}
    (made : makePath sys.env h.globals.opts h.globals.drives fsnum file.text false = some path) :
    (onPath fsnum file.text op).interp sys.answer h = (op path).interp sys.answer h := by
  have resolved : (drivePath fsnum file.text false).interp sys.answer h = (some path, h) := by
    rw [← made]
    rfl
  rw [onPath, Prog.interp_bind, resolved]

theorem chstatRun_eq (made : makePath sys.env h.globals.opts h.globals.drives fsnum file.text false = some path) :
    chstatRun sys fsnum file stat bits h =
      (((pspChstat path (chstatCmd fsnum file stat bits)).interp sys.answer h).1,
        ⟨((pspChstat path (chstatCmd fsnum file stat bits)).interp sys.answer h).2, [], []⟩) := by
  have few : file.text.length < 4096 := length_of_made made
  have room : txBuf = 65536 := rfl
  have run := Linked.simpleRequest_payload sys.answer (chstatCmd fsnum file stat bits) file.bytes .chstat hostfsPathmax
    (fun got => onPath fsnum (cstr (got.data ++ got.stale)) fun fullpath =>
      pspChstat fullpath (chstatCmd fsnum file stat bits))
    (dispatch_chstat _ rfl) (fun _ => quiet_of_local (local_onPath _ _ _ fun _ => local_pspChstat _ _))
    (by decide) rfl rfl (by rw [CString.bytes]; simp) (by rw [CString.bytes, List.length_append, List.length_singleton]; omega) h
  have name : cstr ((delivered file.bytes []).data ++ (delivered file.bytes []).stale) = file.text := by
    have text : (delivered file.bytes []).data ++ (delivered file.bytes []).stale = file.text ++ 0 :: [] := by
      simp [delivered, CString.bytes]
    rw [text, cstr_append_zero _ _ file.noNul]
  rw [name, interp_onPath made] at run
  exact run

end

/-! ### On a host -/

/-- `mktime` in UTC, of the days of January 1970. -/
def mktimeUtc (t : Tm) : Option (BitVec 64) :=
  if t.year = 70 ∧ t.mon = 0 then
    some (((t.mday.setWidth 64 - 1) * 24 + t.hour.setWidth 64) * 3600 + t.min.setWidth 64 * 60 + t.sec.setWidth 64)
  else none

def utcSystem : AttrSystem := ⟨⟨true, fun _ => none⟩, fun _ => mktimeUtc, fun _ => none, refused⟩

/-- An empty file `/srv/a`, of 1 January 1970, at the root of the drives. -/
def utcHost : AttrHost where
  globals := { zeroGlobals with drives := fun _ => ⟨ascii "/srv", ascii "/"⟩ }
  files path := if path = ascii "/srv/a" then some ⟨.other, 0o644, 0, 0, 0, 0⟩ else none
  isdst _ := 0

theorem noNul_a : (0 : UInt8) ∉ ascii "a" := by decide

def fileA : CString := ⟨ascii "a", noNul_a⟩

/-- The second of January. -/
def datedStat (atime mtime : BitVec 16 × BitVec 16 × BitVec 16) : SceIoStat :=
  ⟨0o600, 0, 0, ⟨1970, 1, 2, 0, 0, 0, 0⟩, ⟨1970, 1, 2, atime.1, atime.2.1, atime.2.2, 0⟩,
    ⟨1970, 1, 2, mtime.1, mtime.2.1, mtime.2.2, 0⟩, {}⟩

theorem made_fileA : makePath utcSystem.env utcHost.globals.opts utcHost.globals.drives 0 fileA.text false =
    some (ascii "/srv/a") := by decide

end Psplink.HostFs
