import Psplink.HostFs.Calls

/-!
# Invariants of the daemon

An invariant that the five functions on descriptors keep, and every call that leaves the file
table alone, is kept by every handler and by the command loop.
-/

namespace Psplink.HostFs
open Psplink.Lib

def Call.LeavesFiles : Call → Prop
  | .usbBulkRead .. | .usbBulkWrite _ => True
  | c => c.IsLocal

theorem leavesFiles_of_local {c : Call} (h : c.IsLocal) : c.LeavesFiles := by
  cases c <;> trivial

theorem leavesFiles_readBlocks (len turns read : Nat) (block : Bytes) :
    (readBlocks len turns read block).Only Call.LeavesFiles := by
  induction turns generalizing read block with
  | zero => exact .ret _
  | succ turns ih =>
      simp only [readBlocks, usbBulkRead_seq]
      split
      · apply Prog.Only.ask trivial
        intro got
        split
        · exact .ret _
        · exact ih _ _
      · exact .ret _

section
variable {W : Type} {C : Prog.Contract Call Call.Answer W} {I : W → Prop} {α β : Type}

def Preserves (C : Prog.Contract Call Call.Answer W) (I : W → Prop) (p : Pc α) : Prop :=
  ∀ w, I w → p.wp C (fun _ => I) w

theorem Preserves.ret (a : α) : Preserves C I (pure a : Pc α) := fun _ holds => holds

theorem Preserves.bind {p : Pc α} {f : α → Pc β} (first : Preserves C I p)
    (second : ∀ a, Preserves C I (f a)) : Preserves C I (p >>= f) := by
  intro w holds
  apply (Prog.wp_bind p f _ w).2
  exact Prog.wp_mono (fun a w' => second a w') (first w holds)

/-- The calls that leave the file table alone, and the functions that do not. -/
structure FileRules (C : Prog.Contract Call Call.Answer W) (I : W → Prop) : Prop where
  allowed : ∀ w c, c.LeavesFiles → I w → C.pre w c
  kept : ∀ w c a w', c.LeavesFiles → I w → C.post w c a w' → I w'
  openPath : ∀ fullpath flags mode mask, Preserves C I (openPath fullpath flags mode mask)
  writeFid : ∀ fid data, Preserves C I (writeFid fid data)
  readFid : ∀ fid len, Preserves C I (readFid fid len)
  closeFid : ∀ fid, Preserves C I (closeFid fid)
  lseekFid : ∀ fid ofs whence, Preserves C I (lseekFid fid ofs whence)

variable (rules : FileRules C I)

namespace FileRules
include rules

theorem only {p : Pc α} (only : p.Only Call.LeavesFiles) : Preserves C I p :=
  fun _ holds => Prog.wp_of_only only rules.allowed rules.kept holds

theorem onLocal {p : Pc α} (h : Local p) : Preserves C I p :=
  rules.only (h.mono fun _ => leavesFiles_of_local)

theorem usbBulkWrite (data : Bytes) : Preserves C I (usbBulkWrite data) :=
  rules.only (.ask trivial fun _ => .ret _)

theorem usbBulkRead (cap : Nat) (size : Word) : Preserves C I (usbBulkRead cap size) :=
  rules.only (.ask trivial fun _ => .ret _)

theorem reply (c : HostFsCommand) (res : Word) : Preserves C I (reply c res) :=
  rules.usbBulkWrite _

theorem replyWith (c : HostFsCommand) (res : Word) (data : Bytes) :
    Preserves C I (replyWith c res data) := by
  apply (rules.usbBulkWrite _).bind
  intro ret
  split
  · exact .ret _
  · split
    · exact rules.usbBulkWrite _
    · exact .ret _

theorem openFile (drive : Word) (path : Bytes) (mode mask : Word) :
    Preserves C I (openFile drive path mode mask) := by
  apply (rules.onLocal (local_drivePath _ _ _)).bind
  intro fullpath
  cases fullpath with
  | none => exact .ret _
  | some fullpath =>
      cases openFlags mode with
      | none => exact .ret _
      | some flags =>
          apply (rules.onLocal (local_isDir _)).bind
          intro dir
          cases dir with
          | true => exact .ret _
          | false => exact rules.openPath _ _ _ _

theorem withPayload {size cap cmdlen : Nat} {extralen : Word} {body : UsbRead → Pc Int}
    (keeps : ∀ got, Preserves C I (body got)) :
    Preserves C I (withPayload size cap extralen cmdlen body) := by
  unfold HostFs.withPayload
  split
  · exact .ret _
  split
  · exact .ret _
  apply (rules.usbBulkRead _ _).bind
  intro got
  split
  · exact .ret _
  · exact keeps got

theorem withPath {c : HostFsCommand} {size cmdlen : Nat} {extralen : Word}
    {res : Bytes → Pc Word} (keeps : ∀ path, Preserves C I (res path)) :
    Preserves C I (withPath c size extralen cmdlen res) :=
  rules.withPayload fun _ => .bind (keeps _) fun _ => rules.reply _ _

theorem withControl {size cmdlen : Nat} {inlen : Word} {body : Pc Int}
    (keeps : Preserves C I body) : Preserves C I (withControl size inlen cmdlen body) := by
  unfold HostFs.withControl
  split
  · exact .ret _
  split
  · apply (rules.usbBulkRead _ _).bind
    intro got
    split
    · exact .ret _
    · exact keeps
  · exact keeps

omit rules in
theorem ofSize {p : Pc Int} {size cmdlen : Nat} (keeps : Preserves C I p) :
    Preserves C I (if cmdlen ≠ size then return -1 else p) := by
  split
  · exact .ret _
  · exact keeps

theorem handleRead (cmd : HostFsReadCmd) (cmdlen : Nat) :
    Preserves C I (handleRead cmd cmdlen) := by
  apply ofSize
  split
  · exact .ret _
  · exact .bind (rules.readFid _ _) fun _ => rules.replyWith _ _ _

theorem handleDevctl (cmd : HostFsDevctlCmd) (cmdlen : Nat) :
    Preserves C I (handleDevctl cmd cmdlen) := by
  apply rules.withControl
  split
  · apply (rules.onLocal (local_getDriveInfo _)).bind
    intro info
    cases info <;> exact rules.replyWith _ _ _
  · exact rules.replyWith _ _ _

theorem dispatch (t : Bytes) : Preserves C I (dispatch t) := by
  unfold HostFs.dispatch
  dsimp only
  split
  case h_1 => exact rules.usbBulkWrite _
  case h_2 => exact rules.withPath fun _ => rules.openFile _ _ _ _
  case h_3 => exact ofSize (.bind (rules.closeFid _) fun _ => rules.reply _ _)
  case h_4 => exact rules.withPayload fun _ => .bind (rules.writeFid _ _) fun _ => rules.reply _ _
  case h_5 => exact rules.handleRead _ _
  case h_6 => exact ofSize (.bind (rules.lseekFid _ _ _) fun _ => rules.usbBulkWrite _)
  case h_7 => exact rules.withPath fun _ => rules.onLocal (local_dirOpen _ _)
  case h_8 => exact ofSize (.bind (rules.onLocal (local_dirClose _)) fun _ => rules.reply _ _)
  case h_9 => exact ofSize (.bind (rules.onLocal (local_nextDirent _)) fun _ => rules.replyWith _ _ _)
  case h_10 => exact rules.withPath fun _ => rules.onLocal (local_onPath _ _ _ fun _ => local_fsOp _)
  case h_11 => exact rules.withPath fun _ => rules.onLocal (local_onPath _ _ _ fun _ => local_fsOp _)
  case h_12 => exact rules.withPath fun _ => rules.onLocal (local_onPath _ _ _ fun _ => local_fsOp _)
  case h_13 => exact rules.withPath fun _ => rules.onLocal (local_setCurrdir _ _)
  case h_14 =>
    exact rules.withPayload fun _ =>
      .bind (rules.onLocal (local_renamePaths _ _ _)) fun _ => rules.reply _ _
  case h_15 =>
    exact rules.withPayload fun _ =>
      .bind (rules.onLocal (local_statPath _ _)) fun _ => rules.replyWith _ _ _
  case h_16 =>
    exact rules.withPath fun _ => rules.onLocal (local_onPath _ _ _ fun _ => local_pspChstat _ _)
  case h_17 => exact rules.withControl (rules.replyWith _ _ _)
  case h_18 => exact rules.handleDevctl _ _
  case h_19 => exact .ret _
  case h_20 => exact .ret _

theorem readBlocks (len turns read : Nat) (block : Bytes) :
    Preserves C I (readBlocks len turns read block) :=
  rules.only (leavesFiles_readBlocks len turns read block)

theorem serve (doBulk : ∀ t, Preserves C I (doBulk t)) (got : UsbRead) :
    Preserves C I (serve got) := by
  unfold HostFs.serve
  split
  · exact .ret _
  split
  · exact .ret _
  split
  · exact .ret _
  split
  · exact .ret _
  split
  · split
    · exact .ret _
    · exact .bind (.bind (rules.dispatch _) fun _ => .ret _) fun _ => .ret _
  split
  · split
    · exact .ret _
    · exact .bind (rules.onLocal (local_doAsync _)) fun _ => .ret _
  split
  · split
    · exact .ret _
    · exact .bind (doBulk _) fun _ => .ret _
  · exact .ret _

theorem leaveSession (closeFiles : Preserves C I (closeFiles (List.range' 3 (maxFiles - 3)))) {w : W}
    (holds : I w) : leaveSession.wp C (fun loop w => loop = .session ∧ I w) w := by
  have closeDevice : Local (ask .closeDevice) := .ask trivial fun _ => .ret _
  have closeHostfs : Preserves C I closeHostfs :=
    closeFiles.bind fun _ => rules.onLocal (local_closeDirs _)
  apply (Prog.wp_bind _ _ _ _).2
  apply Prog.wp_mono _ (rules.onLocal closeDevice w holds)
  intro _ w₁ holds
  apply (Prog.wp_bind _ _ _ _).2
  apply Prog.wp_mono _ (closeHostfs w₁ holds)
  intro _ w₂ holds
  exact ⟨rfl, holds⟩

end FileRules

end

end Psplink.HostFs
