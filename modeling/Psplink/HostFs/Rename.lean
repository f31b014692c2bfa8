import Psplink.HostFs.Link
import Psplink.HostFs.PathBounds

/-!
# Renaming

Two names go over the link in one buffer. The destination is the second one, in the directory of the
first where it is relative to that.
-/

namespace Psplink.HostFs
open Psplink.Lib

/-! ## The two names -/

/-- What `handle_rename` finds in its buffer, which was cleared before the bytes came. -/
def renameNames (data : Bytes) : Bytes × Bytes :=
  let path := data ++ List.replicate (hostfsPathmax - data.length) 0
  (cstr path, cstr (path.drop ((cstr path).length + 1)))

theorem handleRename_eq (cmd : HostFsDriveCmd) (cmdlen : Nat) : handleRename cmd cmdlen =
    withPayload (sizeof HostFsDriveCmd) hostfsPathmax cmd.cmd.extralen cmdlen fun got =>
      renamePaths cmd.fsnum (renameNames got.data).1 (renameNames got.data).2 >>= reply .rename := rfl

theorem renameNames_bytes (old new : CString) : renameNames (old.bytes ++ new.bytes) = (old.text, new.text) := by
  unfold renameNames
  dsimp only
  generalize List.replicate (hostfsPathmax - (old.bytes ++ new.bytes).length) (0 : UInt8) = clear
  have layout : old.bytes ++ new.bytes ++ clear = old.text ++ 0 :: (new.text ++ 0 :: clear) := by
    simp [CString.bytes]
  have first : cstr (old.bytes ++ new.bytes ++ clear) = old.text := by
    rw [layout, cstr_append_zero _ _ old.noNul]
  have after : (old.bytes ++ new.bytes ++ clear).drop (old.text.length + 1) = new.text ++ 0 :: clear := by
    rw [layout, List.drop_length_add_append]
    rfl
  rw [first, after, cstr_append_zero _ _ new.noNul]

/-! ## The destination -/

/-- `dest` names the destination of a renaming: a relative `new` is taken from the directory of an absolute `old`. -/
structure Destination (old new dest : Bytes) : Prop where
  rebased : old.head? = some slash → new.head? ≠ some slash →
    ∃ dir name, old = dir ++ slash :: name ∧ slash ∉ name ∧ dest = dir ++ slash :: new
  itself : ¬ (old.head? = some slash ∧ new.head? ≠ some slash) → dest = new

/-- `destpath` up to its last slash. -/
def upToSlash (path : Bytes) : Bytes := (path.reverse.dropWhile (· ≠ slash)).reverse

theorem upToSlash_last {path : Bytes} (slashed : slash ∈ path) :
    ∃ dir name, path = dir ++ slash :: name ∧ slash ∉ name ∧ upToSlash path = dir ++ [slash] := by
  obtain ⟨name, dir, split, last⟩ := List.eq_append_cons_of_mem (List.mem_reverse.mpr slashed)
  have whole : path = dir.reverse ++ slash :: name.reverse := by
    rw [← List.reverse_reverse path, split]
    simp
  refine ⟨dir.reverse, name.reverse, whole, fun mem => last (List.mem_reverse.mp mem), ?_⟩
  have passed : ∀ b ∈ name, decide (b ≠ slash) = true := fun b mem => decide_eq_true fun same => last (same ▸ mem)
  rw [upToSlash, split, List.dropWhile_append_of_pos passed, List.dropWhile_cons_of_neg (by simp)]
  exact List.reverse_cons

theorem renameDest_eq (old new : Bytes) : renameDest old new =
    if old.head? = some slash ∧ new.head? ≠ some slash then upToSlash old ++ new else new := rfl

theorem slash_mem_of_head {path : Bytes} (absolute : path.head? = some slash) : slash ∈ path :=
  List.mem_of_head? absolute

theorem renameDest_destination (old new : Bytes) : Destination old new (renameDest old new) where
  rebased absolute relative := by
    obtain ⟨dir, name, split, last, upTo⟩ := upToSlash_last (slash_mem_of_head absolute)
    refine ⟨dir, name, split, last, ?_⟩
    rw [renameDest_eq, if_pos ⟨absolute, relative⟩, upTo, List.append_assoc]
    rfl
  itself other := by rw [renameDest_eq, if_neg other]

/-! ## Room -/

/-- What `handle_rename` puts into `destpath`: both branches start with a `strcpy`. -/
def destpathBuilds (old new : Bytes) : List Bytes :=
  if old.head? = some slash ∧ new.head? ≠ some slash then [old, upToSlash old, upToSlash old ++ new] else [new]

theorem length_upToSlash_le (path : Bytes) : (upToSlash path).length ≤ path.length := by
  rw [upToSlash, List.length_reverse]
  exact (List.length_dropWhile_le _ _).trans_eq List.length_reverse

theorem destpathBuilds_fit {old new b : Bytes} (mem : b ∈ destpathBuilds old new) :
    b.length ≤ old.length + new.length := by
  have upTo := length_upToSlash_le old
  unfold destpathBuilds at mem
  split at mem
  · simp only [List.mem_cons, List.not_mem_nil, or_false] at mem
    rcases mem with rfl | rfl | rfl
    · omega
    · omega
    · rw [List.length_append]
      omega
  · rw [List.mem_singleton.mp mem]
    omega

theorem makePath_fits {env : PathEnv} {opts : PathOptions} {drives : Nat → HostDrive} {drive : Word} {name ret : Bytes}
    {dir : Bool} (made : makePath env opts drives drive name dir = some ret) : ret.length < pathMax := by
  rw [makePath_eq] at made
  dsimp only at made
  split at made
  · cases made
  split at made
  · cases made
  split at made
  · cases made
  split at made
  · cases made
  · cases made
    exact genPath_below_fits _ _ _ _ _ _ (by omega)

/-- What `make_path` puts into `oldpath` and `newpath`. -/
def retpathBuilds (env : PathEnv) (opts : PathOptions) (drives : Nat → HostDrive) (drive : Word) (name : Bytes) :
    List Bytes :=
  snprintf ((drives drive.toNat).rootdir ++ slash :: below env opts drives drive name false) ::
    (makePath env opts drives drive name false).toList

theorem retpathBuilds_fit {env : PathEnv} {opts : PathOptions} {drives : Nat → HostDrive} {drive : Word} {name b : Bytes}
    (mem : b ∈ retpathBuilds env opts drives drive name) : b.length < pathMax := by
  rcases List.mem_cons.mp mem with rfl | made
  · exact length_snprintf _
  · exact makePath_fits (Option.mem_toList.mp made)

/-! ## The request -/

section

variable {H : Type} (host : (c : Call) → H → c.Answer × H) (fsnum : Word)

/-- `make_path` on a host that says what the directories hold and how the drives are. -/
def resolved (name : Bytes) (h : H) : Option Bytes × H :=
  let env := host .pathEnv h
  let g := host .load env.2
  (makePath env.1 g.1.opts g.1.drives fsnum name false, g.2)

/-- A renaming on the PC: `rename(2)` where there are two paths, and nothing more otherwise. -/
def renamed (old dest : Bytes) (h : H) : Word × H :=
  match resolved host fsnum old h with
  | (none, h) => (-1, h)
  | (some oldpath, h) =>
      match resolved host fsnum dest h with
      | (none, h) => (-1, h)
      | (some newpath, h) =>
          (errnoResult (host (.fs (.rename oldpath newpath)) h).1, (host (.fs (.rename oldpath newpath)) h).2)

theorem interp_drivePath (name : Bytes) (h : H) :
    (drivePath fsnum name false).interp host h = resolved host fsnum name h := rfl

theorem interp_renamePaths (old new : Bytes) (h : H) :
    (renamePaths fsnum old new).interp host h = renamed host fsnum old (renameDest old new) h := by
  rw [renamePaths, onPath, Prog.interp_bind, interp_drivePath, renamed]
  rcases resolved host fsnum old h with ⟨made, h₁⟩
  cases made with
  | none => rfl
  | some oldpath =>
      dsimp only
      rw [onPath, Prog.interp_bind, interp_drivePath]
      rcases resolved host fsnum (renameDest old new) h₁ with ⟨made', h₂⟩
      cases made' with
      | none => rfl
      | some newpath => rfl

def renameCmd (old new : CString) : HostFsDriveCmd :=
  ⟨reqHeader .rename (BitVec.ofNat 32 (old.bytes ++ new.bytes).length), fsnum⟩

theorem dispatch_rename (old new : CString) : dispatch (encode (renameCmd fsnum old new)) =
    handleRename (renameCmd fsnum old new) (encode (renameCmd fsnum old new)).length := by
  rw [dispatch, ofCode_encode (c := .rename) (renameCmd fsnum old new) rfl]
  dsimp only
  rw [Packed.decode_encode_self]

theorem rename_carries (old new : CString) (fits : old.text.length + new.text.length + 2 ≤ hostfsRenameBufsize) (h : H) :
    ∃ dest, Destination old.text new.text dest ∧
      (ioRename fsnum (some old) (some new)).interp (Linked.line host).answer ⟨h, [], []⟩ =
        ((renamed host fsnum old.text dest h).1, ⟨(renamed host fsnum old.text dest h).2, [], []⟩) ∧
      renameNames (old.bytes ++ new.bytes) = (old.text, new.text) ∧
      (old.bytes ++ new.bytes).length ≤ hostfsRenameBufsize ∧ (old.bytes ++ new.bytes).length ≤ hostfsPathmax ∧
      (∀ b ∈ destpathBuilds old.text new.text, b.length < pathMax) ∧
      ∀ env opts drives name, ∀ b ∈ retpathBuilds env opts drives fsnum name, b.length < pathMax := by
  have length : (old.bytes ++ new.bytes).length = old.text.length + new.text.length + 2 := by
    simp [CString.bytes]
    omega
  have limits : hostfsRenameBufsize = 1024 ∧ hostfsPathmax = 4096 ∧ pathMax = 4096 ∧ txBuf = 65536 :=
    ⟨rfl, rfl, rfl, rfl⟩
  refine ⟨renameDest old.text new.text, renameDest_destination _ _, ?_, renameNames_bytes old new, by omega, by omega,
    fun b mem => ?_, fun env opts drives name b mem => retpathBuilds_fit mem⟩
  · have run := Linked.simpleRequest_payload host (renameCmd fsnum old new) (old.bytes ++ new.bytes) .rename
      hostfsPathmax (fun got => renamePaths fsnum (renameNames got.data).1 (renameNames got.data).2)
      (by rw [dispatch_rename, handleRename_eq]; rfl) (fun _ => quiet_of_local (local_renamePaths _ _ _)) (by decide) rfl rfl
      (by simp [CString.bytes]) (by omega) h
    have names : renameNames (delivered (old.bytes ++ new.bytes) []).data = (old.text, new.text) := renameNames_bytes old new
    rw [names, interp_renamePaths] at run
    rw [← run]
    dsimp only [ioRename]
    rw [if_neg (by omega)]
    rfl
  · have fit := destpathBuilds_fit mem
    omega

end

/-- A host with one directory on every drive, which keeps a record of the renamings. -/
def recordingHost : (c : Call) → List (Bytes × Bytes) → c.Answer × List (Bytes × Bytes)
  | .load, done => ({ zeroGlobals with drives := fun _ => ⟨ascii "/srv", ascii "/"⟩ }, done)
  | .pathEnv, done => ((⟨true, fun _ => none⟩ : PathEnv), done)
  | .fs (.rename old new), done => (none, done ++ [(old, new)])
  | c, done => (refused c, done)

theorem rename_carries_saves :
    let old : CString := ⟨ascii "/saves/a", by decide⟩
    let new : CString := ⟨ascii "b", by decide⟩
    ∃ dest, Destination old.text new.text dest ∧
      (ioRename 0 (some old) (some new)).interp (Linked.line recordingHost).answer ⟨[], [], []⟩ =
        ((renamed recordingHost 0 old.text dest []).1, ⟨(renamed recordingHost 0 old.text dest []).2, [], []⟩) := by
  intro old new
  obtain ⟨dest, destination, run, -⟩ := rename_carries recordingHost 0 old new (by decide) []
  exact ⟨dest, destination, run⟩

example : renamed recordingHost 0 (ascii "/saves/a") (renameDest (ascii "/saves/a") (ascii "b")) [] =
    (0, [(ascii "/srv/saves/a", ascii "/srv/saves/b")]) := by decide

end Psplink.HostFs
