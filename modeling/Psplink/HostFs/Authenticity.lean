import Psplink.HostFs.Calls
import Psplink.HostFs.Driver

/-!
# Which responses are accepted, and what the responses say

`command_xchg` against every byte sequence that can arrive as the response, and the code that each
handler of the PC stamps on its answer.
-/

namespace Psplink.HostFs
open Psplink.Lib

/-! ## A link that delivers given bytes -/

def deliver : (c : PspCall) → Bytes → c.Answer × Bytes
  | .waitSema, rx => (true, rx)
  | .signalSema, rx => ((), rx)
  | .usbConnected, rx => (true, rx)
  | .bulkin data, rx => (some data.length, rx)
  | .bulkout size _, rx => if rx.isEmpty then (none, rx) else (some (rx.take size), rx.drop size)

theorem deliver_writeLoop {turns : Nat} {rest : Bytes} (enough : rest.length ≤ turns)
    (writelen : Nat) (rx : Bytes) :
    (writeLoop turns rest writelen).interp deliver rx = (((writelen + rest.length : Nat) : Int), rx) := by
  induction turns generalizing rest writelen with
  | zero =>
      have empty : rest = [] := List.length_eq_zero_iff.1 (by omega)
      simp [writeLoop, empty]
  | succ turns ih =>
      cases rest with
      | nil => simp [writeLoop]
      | cons b rest =>
          have sent : 0 < ((b :: rest).take txBuf).length := by simp [txBuf]
          have bound : ((b :: rest).take txBuf).length ≤ (b :: rest).length := List.length_take_le' ..
          simp only [writeLoop, List.isEmpty_cons, Bool.false_eq_true, if_false, bulkin_seq,
            Prog.interp_ask, deliver, sent, if_true]
          rw [ih (by rw [List.length_drop]; simp only [List.length_cons] at *; omega), List.length_drop,
            Nat.add_assoc, Nat.add_sub_cancel' bound]

theorem deliver_writeData (data rx : Bytes) :
    (writeData data).interp deliver rx = ((data.length : Int), rx) := by
  rw [writeData, deliver_writeLoop (Nat.le_refl _), Nat.zero_add]

theorem deliver_readLoop {size room turns : Nat} {got : Bytes} (enough : size ≤ turns + got.length)
    (short : got.length ≤ size) (rx : Bytes) :
    (readLoop size room turns got).interp deliver rx =
      if size - got.length ≤ rx.length then
        (((size : Int), got ++ rx.take (size - got.length)), rx.drop (size - got.length))
      else ((-1, got ++ rx), []) := by
  induction turns generalizing got rx with
  | zero =>
      have same : got.length = size := by omega
      simp [readLoop, same]
  | succ turns ih =>
      simp only [readLoop]
      by_cases more : got.length < size
      · rw [if_pos more]
        cases rx with
        | nil =>
            have missing : ¬ size - got.length = 0 := by omega
            simp [bulkout_seq, deliver, missing]
        | cons b rx =>
            generalize block : min txBuf (size - got.length) = k
            have positive : 0 < k := by simp only [← block, txBuf]; omega
            have part : k ≤ size - got.length := by omega
            have some : ((b :: rx).take k).isEmpty = false := by
              cases k <;> simp at positive ⊢
            simp only [bulkout_seq, Prog.interp_ask, deliver, List.isEmpty_cons, Bool.false_eq_true,
              if_false, some]
            generalize b :: rx = rx at some
            have length : (got ++ rx.take k).length = got.length + min k rx.length := by simp
            have received : 0 < rx.length := by
              cases rx with
              | nil => simp at some
              | cons => exact Nat.succ_pos _
            have progress : 0 < min k rx.length := by omega
            rw [ih (by omega) (by omega), length]
            by_cases all : k ≤ rx.length
            · rw [Nat.min_eq_left all, List.length_drop, List.append_assoc, List.append_assoc,
                List.take_append_drop, ← List.take_add, List.drop_drop,
                show k + (size - (got.length + k)) = size - got.length by omega]
              simp only [show size - (got.length + k) ≤ rx.length - k ↔ size - got.length ≤ rx.length by omega]
            · rw [Nat.min_eq_right (by omega), List.take_of_length_le (by omega),
                List.drop_eq_nil_of_le (by omega), if_neg (by simp; omega), if_neg (by omega)]
              simp
      · have same : got.length = size := by omega
        simp [same]

theorem deliver_readData (size : Int) (room : Nat) (rx : Bytes) :
    (readData size room).interp deliver rx =
      if size.toNat ≤ rx.length then
        (((size.toNat : Int), rx.take size.toNat), rx.drop size.toNat)
      else ((-1, rx), []) := by
  have run : (readLoop size.toNat room size.toNat []).interp deliver rx = _ :=
    deliver_readLoop (Nat.le_add_right _ _) (Nat.zero_le _) rx
  rw [readData, run]
  simp

/-! ## Accepted responses -/

/-- The check that `command_xchg` makes. -/
def Passes (cmd resp : HostFsCmd) : Prop :=
  ¬ (resp.magic ≠ hostfsMagic ∧ resp.command ≠ cmd.command)

def Authentic (cmd resp : HostFsCmd) : Prop :=
  resp.magic = hostfsMagic ∧ resp.command = cmd.command

def Arrives (extralen : Word) (inlen : Int) (rest : Bytes) : Prop :=
  extralen = 0 ∨ inlen ≤ 0 ∨ (0 ≤ extralen.toInt ∧ extralen.toNat ≤ rest.length)

theorem announced_iff {e : Word} (positive : 0 < e.toNat) (rest : Bytes) :
    BitVec.ofInt 32 (if e.toInt.toNat ≤ rest.length then (e.toInt.toNat : Int) else -1) = e ↔
      0 ≤ e.toInt ∧ e.toNat ≤ rest.length := by
  have bound := e.isLt
  have signed := BitVec.toInt_eq_toNat_cond e
  rw [← BitVec.toNat_inj, BitVec.toNat_ofInt]
  split at signed <;> split <;> constructor <;> intro h <;> omega

section
variable {C : Type} [Packed C] (R : Type) [Packed R]

theorem exchange_succeeds (cmd : C) (outdata : Bytes) (inlen : Int) (rx : Bytes) :
    ((exchange R cmd outdata inlen).interp deliver rx).1.isSome = true ↔
      sizeof R ≤ rx.length ∧
      Passes (headerOf (encode cmd)) (headerOf (rx.take (sizeof R))) ∧
      Arrives (headerOf (rx.take (sizeof R))).extralen inlen (rx.drop (sizeof R)) := by
  unfold exchange takeResponse
  dsimp only
  rw [Prog.interp_bind, deliver_writeData, if_neg (by simp), Prog.interp_bind, deliver_writeData,
    if_neg (by simp), Prog.interp_bind, deliver_readData, Int.toNat_natCast]
  by_cases whole : sizeof R ≤ rx.length
  · rw [if_pos whole]
    dsimp only
    rw [if_neg (by simp)]
    generalize headerOf (rx.take (sizeof R)) = resp
    generalize rx.drop (sizeof R) = rest
    by_cases rejected : resp.magic ≠ hostfsMagic ∧ resp.command ≠ (headerOf (encode cmd)).command
    · rw [if_pos rejected]
      simp [Passes, rejected]
    rw [if_neg rejected]
    by_cases data : 0 < resp.extralen.toNat ∧ 0 < inlen
    · have arrives : Arrives resp.extralen inlen rest ↔
          0 ≤ resp.extralen.toInt ∧ resp.extralen.toNat ≤ rest.length := by
        have some : resp.extralen ≠ 0 := fun zero => by simp [zero] at data
        simp only [Arrives, some, show ¬ inlen ≤ 0 by omega, false_or]
      rw [if_pos data, Prog.interp_bind, deliver_readData, arrives, ← announced_iff data.1]
      by_cases short : resp.extralen.toInt.toNat ≤ rest.length
      · simp only [if_pos short]
        split <;> simp_all [Passes]
      · simp only [if_neg short]
        split <;> simp_all [Passes]
    · have arrives : Arrives resp.extralen inlen rest := by
        by_cases zero : resp.extralen = 0
        · exact .inl zero
        · refine .inr (.inl ?_)
          have := BitVec.toNat_inj.not.2 zero
          simp at this data
          omega
      rw [if_neg data]
      simp [Passes, rejected, whole, arrives]
  · rw [if_neg whole]
    simp [whole]

theorem commandXchg_succeeds (cmd : C) (outdata : Bytes) (inlen : Int) (rx : Bytes) :
    ((commandXchg R cmd outdata inlen).interp deliver rx).1.isSome = true ↔
      sizeof R ≤ rx.length ∧
      Passes (headerOf (encode cmd)) (headerOf (rx.take (sizeof R))) ∧
      Arrives (headerOf (rx.take (sizeof R))).extralen inlen (rx.drop (sizeof R)) := by
  rw [← exchange_succeeds R cmd outdata inlen rx]
  simp only [commandXchg, waitSema_seq, signalSema_seq, Prog.interp_ask, deliver, Bool.not_true,
    Bool.false_eq_true, if_false, Prog.interp_bind, Prog.pure_def, Prog.interp_ret]

end

/-! ## The stamps of the handlers -/

/-- What the daemon writes first; every answer of every call is possible. -/
def firstWrite : Prog.Contract Call Call.Answer (Option Bytes) where
  pre _ _ := True
  post w c _ w' := match c with
    | .usbBulkWrite data => w' = some (w.getD data)
    | _ => w' = w

def Wrote (stamp : HostFsCommand) (w : Option Bytes) : Prop :=
  ∀ h, w = some h → (headerOf h).magic = hostfsMagic ∧ (headerOf h).command = stamp.code

abbrev Stamped {α : Type} (stamp : HostFsCommand) (p : Pc α) : Prop :=
  p.wp firstWrite (fun _ => Wrote stamp) none

theorem wp_written {α : Type} (p : Pc α) (h : Bytes) :
    p.wp firstWrite (fun _ w => w = some h) (some h) := by
  induction p with
  | ret a => exact rfl
  | ask c k ih =>
      refine ⟨trivial, fun a w answered => ?_⟩
      have same : w = some h := by
        cases c <;> exact answered
      exact same ▸ ih a

variable {stamp : HostFsCommand}

theorem stamped_ret {α : Type} (a : α) : Stamped stamp (pure a : Pc α) := fun _ h => nomatch h

theorem wp_quiet {α : Type} {p : Pc α} (quiet : Quiet p) :
    p.wp firstWrite (fun _ w => w = none) none := by
  refine Prog.wp_of_only quiet (fun _ _ _ _ => trivial) (fun w c a w' isQuiet same answered => ?_) rfl
  cases c <;> first | exact isQuiet.elim | exact Eq.trans answered same

theorem wp_write {α : Type} (data : Bytes) (f : Int → Pc α) :
    (usbBulkWrite data >>= f).wp firstWrite (fun _ w => w = some data) none := by
  refine ⟨trivial, fun ret w same => ?_⟩
  rw [show w = some data from same]
  exact wp_written (f ret) data

theorem stamped_bind {α β : Type} {p : Pc α} {f : α → Pc β} (quiet : Quiet p)
    (next : ∀ a, Stamped stamp (f a)) : Stamped stamp (p >>= f) :=
  (Prog.wp_bind _ _ _ _).2 (Prog.wp_mono (fun a w (same : w = none) => same ▸ next a) (wp_quiet quiet))

theorem stamped_read {α : Type} (cap : Nat) (size : Word) {f : UsbRead → Pc α}
    (next : ∀ got, Stamped stamp (f got)) : Stamped stamp (usbBulkRead cap size >>= f) :=
  ⟨trivial, fun got _ same => same ▸ next got⟩

theorem stamped_write {α : Type} {data : Bytes} {f : Int → Pc α}
    (stamps : Wrote stamp (some data)) : Stamped stamp (usbBulkWrite data >>= f) :=
  Prog.wp_mono (fun _ w (same : w = some data) => same ▸ stamps) (wp_write data f)

theorem wrote_header {α : Type} [Packed α] [Headed α] {resp : α}
    (magic : (Headed.cmd resp).magic = hostfsMagic)
    (command : (Headed.cmd resp).command = stamp.code) : Wrote stamp (some (encode resp)) := by
  rintro h ⟨⟩
  rw [headerOf_encode]
  exact ⟨magic, command⟩

theorem stamped_reply (res : Word) : Stamped stamp (reply stamp res) :=
  stamped_write (f := pure) (wrote_header rfl rfl)

theorem stamped_replyWith (res : Word) (data : Bytes) : Stamped stamp (replyWith stamp res data) :=
  stamped_write (wrote_header rfl rfl)

theorem stamped_ofSize {p : Pc Int} {size cmdlen : Nat} (stamps : Stamped stamp p) :
    Stamped stamp (if cmdlen ≠ size then return -1 else p) := by
  split
  · exact stamped_ret _
  · exact stamps

theorem stamped_withPayload {size cap cmdlen : Nat} {extralen : Word} {body : UsbRead → Pc Int}
    (stamps : ∀ got, Stamped stamp (body got)) :
    Stamped stamp (withPayload size cap extralen cmdlen body) := by
  refine stamped_ofSize ?_
  split
  · exact stamped_ret _
  refine stamped_read _ _ fun got => ?_
  split
  · exact stamped_ret _
  · exact stamps got

theorem stamped_withPath {size cmdlen : Nat} {extralen : Word} {res : Bytes → Pc Word}
    (quiet : ∀ path, Quiet (res path)) : Stamped stamp (withPath stamp size extralen cmdlen res) :=
  stamped_withPayload fun _ => stamped_bind (quiet _) fun _ => stamped_reply _

theorem stamped_withControl {size cmdlen : Nat} {inlen : Word} {body : Pc Int}
    (stamps : Stamped stamp body) : Stamped stamp (withControl size inlen cmdlen body) := by
  refine stamped_ofSize ?_
  split
  · refine stamped_read _ _ fun got => ?_
    split
    · exact stamped_ret _
    · exact stamps
  · exact stamps

theorem stamped_handleRead (cmd : HostFsReadCmd) (cmdlen : Nat) :
    Stamped .read (handleRead cmd cmdlen) := by
  refine stamped_ofSize ?_
  split
  · exact stamped_ret _
  · exact stamped_bind (quiet_readFid _ _) fun _ => stamped_replyWith _ _

theorem stamped_handleDread (cmd : HostFsDidCmd) (cmdlen : Nat) :
    Stamped .read (handleDread cmd cmdlen) :=
  stamped_ofSize (stamped_bind (quiet_of_local (local_nextDirent _)) fun _ => stamped_replyWith _ _)

theorem stamped_handleDevctl (cmd : HostFsDevctlCmd) (cmdlen : Nat) :
    Stamped .devctl (handleDevctl cmd cmdlen) := by
  refine stamped_withControl ?_
  split
  · refine stamped_bind (quiet_of_local (local_getDriveInfo _)) fun info => ?_
    cases info <;> exact stamped_replyWith _ _
  · exact stamped_replyWith _ _

theorem stamped_onPath (fsnum : Word) (path : Bytes) (op : Bytes → FsOp) :
    Quiet (onPath fsnum path fun fullpath => fsOp (op fullpath)) :=
  quiet_of_local (local_onPath _ _ _ fun _ => local_fsOp _)

theorem stamped_dispatch {t : Bytes} {c : HostFsCommand}
    (selected : HostFsCommand.ofCode (headerOf t).command = some c) :
    Stamped c.stampOf (dispatch t) := by
  unfold dispatch
  simp only [selected]
  cases c with
  | hello => exact stamped_write (f := pure) (wrote_header rfl rfl)
  | bye => exact stamped_ret _
  | openFile => exact stamped_withPath fun _ => quiet_openFile _ _ _ _
  | close => exact stamped_ofSize (stamped_bind (quiet_closeFid _) fun _ => stamped_reply _)
  | read => exact stamped_handleRead _ _
  | write => exact stamped_withPayload fun _ => stamped_bind (quiet_writeFid _ _) fun _ => stamped_reply _
  | lseek =>
      exact stamped_ofSize (stamped_bind (quiet_lseekFid _ _ _) fun _ =>
        stamped_write (f := pure) (wrote_header rfl rfl))
  | remove => exact stamped_withPath fun _ => stamped_onPath _ _ _
  | mkdir => exact stamped_withPath fun _ => stamped_onPath _ _ _
  | rmdir => exact stamped_withPath fun _ => stamped_onPath _ _ _
  | dopen => exact stamped_withPath fun _ => quiet_of_local (local_dirOpen _ _)
  | dread => exact stamped_handleDread _ _
  | dclose =>
      exact stamped_ofSize (stamped_bind (quiet_of_local (local_dirClose _)) fun _ => stamped_reply _)
  | getstat =>
      exact stamped_withPayload fun _ =>
        stamped_bind (quiet_of_local (local_statPath _ _)) fun _ => stamped_replyWith _ _
  | chstat =>
      exact stamped_withPath fun _ => quiet_of_local (local_onPath _ _ _ fun _ => local_pspChstat _ _)
  | rename =>
      exact stamped_withPayload fun _ =>
        stamped_bind (quiet_of_local (local_renamePaths _ _ _)) fun _ => stamped_reply _
  | chdir => exact stamped_withPath fun _ => quiet_of_local (local_setCurrdir _ _)
  | ioctl => exact stamped_withControl (stamped_replyWith _ _)
  | devctl => exact stamped_handleDevctl _ _

/-! ## Commands whose response is their own -/

theorem answerable (c : Call) : Nonempty c.Answer := by
  cases c with
  | usbBulkRead => exact ⟨⟨0, [], [], .inl rfl⟩⟩
  | load => exact ⟨⟨fun _ => .cleared, fun _ => .cleared, -1, fun _ => ⟨[], []⟩, ⟨false, false⟩⟩⟩
  | pathEnv => exact ⟨⟨false, fun _ => none⟩⟩
  | openFd | stat | statvfs => exact ⟨Except.error enoent⟩
  | scandir => exact ⟨⟨enoent, []⟩⟩
  | localtime => exact ⟨⟨0, 0, 0, 0, 0, 0⟩⟩
  | lseek => exact ⟨(0 : BitVec 64)⟩
  | usbBulkWrite => exact ⟨(0 : Int)⟩
  | read | write => exact ⟨([] : List _)⟩
  | modify | sockWrite | waitForDevice | closeDevice => exact ⟨()⟩
  | close | fs | mktime => exact ⟨(none : Option _)⟩
  | lockDrives | malloc | clientSock => exact ⟨false⟩

theorem firstWrite_total (w : Option Bytes) (c : Call) : ∃ a w', firstWrite.post w c a w' := by
  obtain ⟨a⟩ := answerable c
  cases c <;> exact ⟨a, _, rfl⟩

theorem handleDread_writes (cmd : HostFsDidCmd) :
    (handleDread cmd (sizeof HostFsDidCmd)).wp firstWrite (fun _ w => w ≠ none) none := by
  unfold handleDread
  rw [if_neg (by simp)]
  refine (Prog.wp_bind _ _ _ _).2 (Prog.wp_mono (fun r w (same : w = none) => ?_)
    (wp_quiet (quiet_of_local (local_nextDirent _))))
  rw [same]
  refine Prog.wp_mono (fun _ w (same : w = some _) => ?_) (wp_write _ _)
  rw [same]
  exact Option.some_ne_none _

theorem stamped_dispatch_iff {t : Bytes} {c : HostFsCommand}
    (selected : HostFsCommand.ofCode (headerOf t).command = some c) :
    Stamped c (dispatch t) ↔ ¬ (c = .dread ∧ t.length = sizeof HostFsDidCmd) := by
  have stamped := stamped_dispatch selected
  by_cases dread : c = .dread
  · subst dread
    have handler : dispatch t = handleDread (decode t) t.length := by
      unfold dispatch
      simp only [selected]
    by_cases size : t.length = sizeof HostFsDidCmd
    · have writes : (dispatch t).wp firstWrite (fun _ w => w ≠ none) none := by
        rw [handler, size]
        exact handleDread_writes _
      refine iff_of_false (fun own => ?_) (fun h => h ⟨rfl, size⟩)
      refine Prog.not_wp_false firstWrite_total (dispatch t) none
        (Prog.wp_mono ?_ (Prog.wp_and writes (Prog.wp_and own stamped)))
      rintro _ w ⟨some, own, read⟩
      obtain ⟨h, rfl⟩ := Option.ne_none_iff_exists'.1 some
      have same := (own h rfl).2.symm.trans (read h rfl).2
      exact absurd same (by decide)
    · refine iff_of_true ?_ fun h => size h.2
      rw [handler]
      unfold handleDread
      rw [if_pos size]
      exact stamped_ret _
  · refine iff_of_true ?_ fun h => dread h.1
    cases c <;> first | exact absurd rfl dread | exact stamped

/-- A response is accepted without being the command's exactly where one of its magic and its
command is wrong and the other is not; every handler stamps its own code but that of a dread; and
what the handlers answer is accepted all the same. -/
theorem responses_authentic_iff {C R : Type} [Packed C] [Packed R] (cmd : C) (outdata : Bytes)
    (inlen : Int) (rx t : Bytes) (c : HostFsCommand) :
    ((((commandXchg R cmd outdata inlen).interp deliver rx).1.isSome = true →
        sizeof R ≤ rx.length ∧ Authentic (headerOf (encode cmd)) (headerOf (rx.take (sizeof R)))) ↔
      ¬ (sizeof R ≤ rx.length ∧
        ¬ ((headerOf (rx.take (sizeof R))).magic = hostfsMagic ↔
          (headerOf (rx.take (sizeof R))).command = (headerOf (encode cmd)).command) ∧
        Arrives (headerOf (rx.take (sizeof R))).extralen inlen (rx.drop (sizeof R)))) ∧
    (HostFsCommand.ofCode (headerOf t).command = some c →
      ((dispatch t).wp firstWrite (fun _ => Wrote c) none ↔
        ¬ (c = .dread ∧ t.length = sizeof HostFsDidCmd)) ∧
      (dispatch t).wp firstWrite (fun _ w => ∀ h, w = some h → Passes (headerOf t) (headerOf h)) none) := by
  refine ⟨?_, fun selected => ⟨stamped_dispatch_iff selected, ?_⟩⟩
  · rw [commandXchg_succeeds]
    unfold Passes Authentic
    generalize headerOf (rx.take (sizeof R)) = resp
    tauto
  · refine Prog.wp_mono (fun _ w wrote h same rejected => ?_) (stamped_dispatch selected)
    exact rejected.1 (wrote h same).1

/-- A response to a close without the magic is accepted, and a dread is answered as a read. -/
theorem response_not_authentic :
    let cmd : HostFsFidCmd := ⟨reqHeader .close 0, 3⟩
    let resp : HostFsResp := ⟨⟨0, HostFsCommand.close.code, 0⟩, 0⟩
    ¬ (((commandXchg HostFsResp cmd [] 0).interp deliver (encode resp)).1.isSome = true →
      Authentic (headerOf (encode cmd)) (headerOf ((encode resp).take (sizeof HostFsResp)))) ∧
    ¬ (dispatch (encode (⟨reqHeader .dread 0, 0⟩ : HostFsDidCmd))).wp firstWrite
      (fun _ => Wrote .dread) none := by
  intro cmd resp
  refine ⟨fun authentic => ?_, fun own => ?_⟩
  · have accepted := (commandXchg_succeeds HostFsResp cmd [] 0 (encode resp)).2
    rw [List.take_of_length_le (by simp), headerOf_encode, headerOf_encode] at accepted
    have magic := (authentic (accepted ⟨by simp, fun rejected => rejected.2 rfl, .inl rfl⟩)).1
    rw [List.take_of_length_le (by simp), headerOf_encode] at magic
    exact absurd magic (by decide)
  · have selected : HostFsCommand.ofCode
        (headerOf (encode (⟨reqHeader .dread 0, 0⟩ : HostFsDidCmd))).command = some .dread := ofCode_encode _ rfl
    exact (stamped_dispatch_iff selected).1 own ⟨rfl, by simp⟩

end Psplink.HostFs
