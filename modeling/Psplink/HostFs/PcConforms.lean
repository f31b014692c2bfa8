import Psplink.HostFs.Calls
import Psplink.HostFs.Protocol

/-!
# The PC keeps to the exchange

Whatever the file system answers, the handler of a command takes the payload of that command and
nothing more, and sends one response with the data that it announces.
-/

namespace Psplink.HostFs
open Psplink.Lib

/-- The link as the PC sees it between two headers. Calls to the system are answered in any way. -/
def pcSide : Prog.Contract Call Call.Answer Phase where
  pre phase c := match c with
    | .usbBulkRead cap size => Expects phase size.toNat ∧ size.toNat ≤ cap
    | .usbBulkWrite data => ∃ phase', Replies phase data phase'
    | _ => True
  post phase c a phase' := match c, a with
    | .usbBulkRead .., a => ∃ t stale, Sends phase t phase' ∧ a = delivered t stale
    | .usbBulkWrite data, a => a = (data.length : Int) ∧ Replies phase data phase'
    | _, _ => phase' = phase

variable {α β : Type} {phase : Phase}

theorem pc_quiet {p : Pc α} (quiet : Quiet p) : p.wp pcSide (fun _ w => w = phase) phase := by
  refine Prog.wp_of_only quiet (fun w c isQuiet _ => ?_) (fun w c a w' isQuiet same answered => ?_) rfl
  · cases c <;> first | exact isQuiet.elim | trivial
  · cases c <;> first | exact isQuiet.elim | exact Eq.trans answered same

theorem pc_bind {p : Pc α} {f : α → Pc β} {R : β → Phase → Prop} {P : α → Prop} (quiet : Quiet p)
    (returns : p.wp pcSide (fun a _ => P a) phase) (next : ∀ a, P a → (f a).wp pcSide R phase) :
    (p >>= f).wp pcSide R phase := by
  refine (Prog.wp_bind _ _ _ _).2 (Prog.wp_mono ?_ (Prog.wp_and (pc_quiet quiet) returns))
  rintro a _ ⟨rfl, holds⟩
  exact next a holds

theorem pc_then {p : Pc α} {f : α → Pc β} {R : β → Phase → Prop} (quiet : Quiet p)
    (next : ∀ a, (f a).wp pcSide R phase) : (p >>= f).wp pcSide R phase :=
  pc_bind quiet (Prog.wp_mono (fun _ _ _ => trivial) (pc_quiet quiet)) fun a _ => next a

/-! ## Responses -/

abbrev Finishes (p : Pc α) (phase : Phase) : Prop := p.wp pcSide (fun _ w => w = .top) phase

theorem pc_respond {f : Int → Pc β} {c : HostFsCommand} {h resp : Bytes}
    (command : Command c h) (response : Response c h resp)
    (next : (f resp.length).wp pcSide (fun _ w => w = .top)
      (afterResponse h (headerOf resp).extralen.toNat)) :
    Finishes (usbBulkWrite resp >>= f) (.response h) := by
  refine ⟨⟨_, .response command response⟩, ?_⟩
  rintro ret phase' ⟨sent, replies⟩
  cases replies
  rw [show ret = (resp.length : Int) from sent]
  exact next

theorem finishes_reply {c : HostFsCommand} {h : Bytes} (command : Command c h) (own : c.stampOf = c)
    (size : responseSize c = sizeof HostFsResp) {res : Word} (result : ResultOk c h res) :
    Finishes (reply c res) (.response h) := by
  have response : Response c h (encode (⟨respHeader c, res⟩ : HostFsResp)) :=
    .encode size.symm (by rw [own]; rfl) (Nat.zero_le _) (by rwa [Packed.decode_encode_self])
  refine pc_respond (f := pure) command response ?_
  rw [headerOf_encode]
  exact rfl

theorem finishes_replyWith {c s : HostFsCommand} {h : Bytes} (command : Command c h)
    (stamp : c.stampOf = s) (size : responseSize c = sizeof HostFsResp) {res : Word} {data : Bytes}
    (result : ResultOk c h res) (fits : data.length ≤ room c h) :
    Finishes (replyWith s res data) (.response h) := by
  have small : data.length < 2 ^ 32 := by
    have := command.room_le
    rw [hostfsMaxBlock] at this
    omega
  have announced : (BitVec.ofNat 32 data.length).toNat = data.length := by
    rw [BitVec.toNat_ofNat, Nat.mod_eq_of_lt small]
  have response : Response c h (encode
      (⟨{ respHeader s with extralen := BitVec.ofNat 32 data.length }, res⟩ : HostFsResp)) :=
    .encode size.symm (by rw [stamp]; rfl) (announced ▸ fits) (by rwa [Packed.decode_encode_self])
  refine pc_respond command response ?_
  rw [headerOf_encode, if_neg (by omega)]
  show Prog.wp pcSide _ _ (afterResponse h (BitVec.ofNat 32 data.length).toNat)
  rw [announced]
  unfold afterResponse
  by_cases empty : data.length = 0
  · rw [if_pos empty, empty, if_neg (by decide)]
    exact rfl
  · have some : BitVec.ofNat 32 data.length ≠ 0 := fun zero => empty (by rw [← announced, zero]; rfl)
    rw [if_neg empty, if_pos some]
    refine ⟨⟨_, .data rfl⟩, ?_⟩
    rintro ret phase' ⟨_, replies⟩
    cases replies
    exact rfl

/-! ## Payloads -/

theorem finishes_withPayload {h : Bytes} {size cap cmdlen : Nat} {extralen : Word}
    {body : UsbRead → Pc Int} (length : cmdlen = size) (announced : extralen = (headerOf h).extralen)
    (some : 0 < (headerOf h).extralen.toNat) (fits : (headerOf h).extralen.toNat ≤ cap)
    (small : cap < 2 ^ 31)
    (finishes : ∀ got, got.data.length = (headerOf h).extralen.toNat →
      Finishes (body got) (.response h)) :
    Finishes (withPayload size cap extralen cmdlen body) (afterCommand h) := by
  have due := payloadLen_eq fits small
  unfold withPayload afterCommand
  rw [if_neg (by simp [length]), if_neg (by rintro rfl; simp [← announced] at some),
    if_neg (by omega)]
  simp only [usbBulkRead_seq]
  subst announced
  refine ⟨⟨due.symm, fits⟩, ?_⟩
  rintro got phase' ⟨t, stale, sends, received⟩
  subst received
  cases sends with
  | payload taken =>
      have whole : BitVec.ofInt 32 (delivered t stale).ret = (headerOf h).extralen := by
        rw [← BitVec.toNat_inj]
        have := (headerOf h).extralen.isLt
        simp [delivered]
        omega
      dsimp only
      rw [if_neg (by simp [whole])]
      exact finishes _ (taken.trans due)

theorem finishes_withPath {c : HostFsCommand} {h : Bytes} {size cmdlen : Nat} {extralen : Word}
    {res : Bytes → Pc Word} (command : Command c h) (own : c.stampOf = c)
    (respSize : responseSize c = sizeof HostFsResp)
    (length : cmdlen = size) (announced : extralen = (headerOf h).extralen)
    (lengths : 0 < (headerOf h).extralen.toNat ∧ (headerOf h).extralen.toNat ≤ hostfsPathmax)
    (any : ∀ w, ResultOk c h w) (quiet : ∀ path, Quiet (res path)) :
    Finishes (withPath c size extralen cmdlen res) (afterCommand h) :=
  finishes_withPayload length announced lengths.1 lengths.2 (by decide) fun _ _ =>
    pc_then (quiet _) fun _ => finishes_reply command own respSize (any _)

theorem finishes_withControl {h : Bytes} {size cmdlen : Nat} {inlen : Word} {body : Pc Int}
    (length : cmdlen = size) (announced : inlen = (headerOf h).extralen)
    (fits : (headerOf h).extralen.toInt ≤ 64 * 1024) (finishes : Finishes body (.response h)) :
    Finishes (withControl size inlen cmdlen body) (afterCommand h) := by
  subst announced
  unfold withControl afterCommand
  rw [if_neg (by simp [length])]
  by_cases some : 0 < (headerOf h).extralen.toInt
  · have due : payloadLen h ≠ 0 := by
      unfold payloadLen
      omega
    have unsigned : (headerOf h).extralen.toNat = payloadLen h := by
      have signed := BitVec.toInt_eq_toNat_cond (headerOf h).extralen
      unfold payloadLen
      split at signed <;> omega
    rw [if_pos some, if_neg due]
    simp only [usbBulkRead_seq]
    refine ⟨⟨unsigned, ?_⟩, ?_⟩
    · unfold payloadLen at unsigned
      omega
    rintro got phase' ⟨t, stale, sends, received⟩
    subst received
    cases sends with
    | payload taken =>
        dsimp only
        have whole : (delivered t stale).ret = (headerOf h).extralen.toInt := by
          simp only [delivered, taken, payloadLen]
          omega
        rw [if_neg (by simp [whole])]
        exact finishes
  · have none : payloadLen h = 0 := by
      unfold payloadLen
      omega
    rw [if_neg some, if_pos none]
    exact finishes

theorem finishes_ofSize {p : Pc Int} {size cmdlen : Nat} (length : cmdlen = size)
    (finishes : Finishes p phase) : Finishes (if cmdlen ≠ size then return -1 else p) phase := by
  rw [if_neg (by simp [length])]
  exact finishes

/-! ## What the functions return -/

theorem getError_le (e : Errno) (len : Nat) : (getError e).toInt ≤ len := by
  have negative := getError_negative e
  omega

theorem count_le {n bound : Nat} (fits : n ≤ bound) (small : bound < 2 ^ 31) :
    (BitVec.ofNat 32 n).toInt ≤ bound := by
  have signed := BitVec.toInt_eq_toNat_cond (BitVec.ofNat 32 n)
  rw [BitVec.toNat_ofNat, Nat.mod_eq_of_lt (by omega)] at signed
  split at signed <;> omega

theorem fixedRead_le {len : Nat} (small : len < 2 ^ 31) (rets : List ReadResult) (block : Bytes)
    (short : block.length ≤ len) :
    (fixedRead rets block len).1.toInt ≤ len ∧ (fixedRead rets block len).2.length ≤ len := by
  induction rets generalizing block with
  | nil => exact ⟨count_le short small, short⟩
  | cons r rest ih =>
      unfold fixedRead
      split
      · split
        · exact ih block short
        · exact ⟨getError_le _ _, short⟩
        · exact ⟨count_le short small, short⟩
        · refine ih _ ?_
          simp only [List.length_append, List.length_take]
          omega
      · exact ⟨count_le short small, short⟩

theorem fixedWrite_le {len : Nat} (small : len < 2 ^ 31) (rets : List WriteResult) (byteswrite : Nat)
    (short : byteswrite ≤ len) : (fixedWrite rets byteswrite len).toInt ≤ len := by
  induction rets generalizing byteswrite with
  | nil => exact count_le short small
  | cons r rest ih =>
      unfold fixedWrite
      split
      · split
        · exact ih byteswrite short
        · exact getError_le _ _
        · exact count_le short small
        · exact ih _ (by omega)
      · exact count_le short small

theorem refused_le (len : Nat) : (-1 : Word).toInt ≤ len := by
  have refused : (-1 : Word).toInt = -1 := rfl
  omega

theorem readFid_returns (fid : Int) {len : Nat} (small : len < 2 ^ 31) :
    (readFid fid len).wp pcSide (fun r _ => r.1.toInt ≤ len ∧ r.2.length ≤ len) phase := by
  have refused := refused_le len
  simp only [readFid, ask_seq]
  split
  · refine ⟨trivial, fun g w _ => ?_⟩
    dsimp only
    split
    · refine ⟨trivial, fun rets w' _ => ?_⟩
      dsimp only
      have bounded := fixedRead_le small rets [] (Nat.zero_le _)
      split
      · exact bounded
      · exact ⟨bounded.1, Nat.zero_le _⟩
    · exact ⟨refused, Nat.zero_le _⟩
  · exact ⟨refused, Nat.zero_le _⟩

theorem writeFid_returns (fid : Int) {data : Bytes} (small : data.length < 2 ^ 31) :
    (writeFid fid data).wp pcSide (fun r _ => r.toInt ≤ data.length) phase := by
  have refused := refused_le data.length
  simp only [writeFid, ask_seq]
  split
  · refine ⟨trivial, fun g w _ => ?_⟩
    dsimp only
    split
    · exact ⟨trivial, fun rets w' _ => fixedWrite_le small rets 0 (Nat.zero_le _)⟩
    · exact refused
  · exact refused

theorem length_elim_encode {γ : Type} [Packed γ] (a : Option γ) :
    (a.elim [] encode).length ≤ sizeof γ := by
  cases a with
  | none => exact Nat.zero_le _
  | some a => exact (Packed.length_encode a).le

/-! ## Every handler -/

theorem afterCommand_of_zero {h : Bytes} (zero : (headerOf h).extralen = 0) :
    afterCommand h = .response h := by
  have none : payloadLen h = 0 := by
    unfold payloadLen
    rw [zero]
    rfl
  exact if_pos none

theorem finishes_handleRead {h : Bytes} (command : Command .read h) :
    Finishes (handleRead (decode h) h.length) (afterCommand h) := by
  obtain ⟨zero, positive, fits⟩ := command.lengths
  rw [afterCommand_of_zero zero]
  refine finishes_ofSize command.length ?_
  rw [if_neg (by omega)]
  have small : room .read h < 2 ^ 31 := Nat.lt_of_le_of_lt fits (by decide)
  exact pc_bind (quiet_readFid _ _) (readFid_returns _ small) fun _ bounded =>
    finishes_replyWith command rfl rfl bounded.1 bounded.2

theorem finishes_handleDread {h : Bytes} (command : Command .dread h) :
    Finishes (handleDread (decode h) h.length) (afterCommand h) := by
  rw [afterCommand_of_zero command.lengths]
  refine finishes_ofSize command.length (pc_then (quiet_of_local (local_nextDirent _)) fun r => ?_)
  exact finishes_replyWith command rfl rfl trivial (length_elim_encode r.2)

theorem finishes_handleGetstat {h : Bytes} (command : Command .getstat h) :
    Finishes (handleGetstat (decode h) h.length) (afterCommand h) := by
  refine finishes_withPayload command.length rfl command.lengths.1 command.lengths.2 (by decide)
    fun _ _ => pc_then (quiet_of_local (local_statPath _ _)) fun r => ?_
  exact finishes_replyWith command rfl rfl trivial (length_elim_encode r.2)

theorem finishes_handleDevctl {h : Bytes} (command : Command .devctl h) :
    Finishes (handleDevctl (decode h) h.length) (afterCommand h) := by
  obtain ⟨inlen, _, infoRoom⟩ := command.lengths
  refine finishes_withControl command.length rfl inlen ?_
  split
  · rename_i getInfo
    refine pc_then (quiet_of_local (local_getDriveInfo _)) fun info => ?_
    cases info with
    | none => exact finishes_replyWith command rfl rfl trivial (Nat.zero_le _)
    | some info =>
        refine finishes_replyWith command rfl rfl trivial ?_
        rw [Packed.length_encode]
        exact infoRoom getInfo
  · exact finishes_replyWith command rfl rfl trivial (Nat.zero_le _)

theorem finishes_dispatch {c : HostFsCommand} {h : Bytes} (command : Command c h) :
    Finishes (dispatch h) (afterCommand h) := by
  have selected : HostFsCommand.ofCode (headerOf h).command = some c := by
    rw [command.command, HostFsCommand.ofCode_code]
  unfold dispatch
  simp only [selected]
  have onPath (op : Bytes → FsOp) (fsnum : Word) (path : Bytes) :
      Quiet (onPath fsnum path fun fullpath => fsOp (op fullpath)) :=
    quiet_of_local (local_onPath _ _ _ fun _ => local_fsOp _)
  cases c with
  | hello =>
      rw [afterCommand_of_zero command.lengths]
      have response : Response .hello h (encode (respHeader .hello)) :=
        .encode rfl rfl (Nat.zero_le _) trivial
      refine pc_respond (f := pure) command response ?_
      rw [headerOf_encode]
      exact rfl
  | bye => exact command.lengths.elim
  | openFile =>
      exact finishes_withPath command rfl rfl command.length rfl command.lengths
        (fun _ => trivial) fun _ => quiet_openFile _ _ _ _
  | close =>
      rw [afterCommand_of_zero command.lengths]
      exact finishes_ofSize command.length (pc_then (quiet_closeFid _) fun _ =>
        finishes_reply command rfl rfl trivial)
  | read => exact finishes_handleRead command
  | write =>
      exact finishes_withPayload command.length rfl command.lengths.1 command.lengths.2 (by decide)
        fun got whole => pc_bind (quiet_writeFid _ _) (writeFid_returns _ (by
          rw [whole]
          exact Nat.lt_of_le_of_lt command.lengths.2 (by decide))) fun _ moved =>
            finishes_reply command rfl rfl (by rwa [whole] at moved)
  | lseek =>
      rw [afterCommand_of_zero command.lengths]
      refine finishes_ofSize command.length (pc_then (quiet_lseekFid _ _ _) fun r => ?_)
      have response : Response .lseek h
          (encode (⟨respHeader .lseek, r.1, r.2⟩ : HostFsLseekResp)) :=
        .encode rfl rfl (Nat.zero_le _) trivial
      refine pc_respond (f := pure) command response ?_
      rw [headerOf_encode]
      exact rfl
  | remove =>
      exact finishes_withPath command rfl rfl command.length rfl command.lengths
        (fun _ => trivial) fun _ => onPath _ _ _
  | rmdir =>
      exact finishes_withPath command rfl rfl command.length rfl command.lengths
        (fun _ => trivial) fun _ => onPath _ _ _
  | mkdir =>
      exact finishes_withPath command rfl rfl command.length rfl command.lengths
        (fun _ => trivial) fun _ => onPath _ _ _
  | dopen =>
      exact finishes_withPath command rfl rfl command.length rfl command.lengths
        (fun _ => trivial) fun _ => quiet_of_local (local_dirOpen _ _)
  | dread => exact finishes_handleDread command
  | dclose =>
      rw [afterCommand_of_zero command.lengths]
      exact finishes_ofSize command.length (pc_then (quiet_of_local (local_dirClose _)) fun _ =>
        finishes_reply command rfl rfl trivial)
  | getstat => exact finishes_handleGetstat command
  | chstat =>
      exact finishes_withPath command rfl rfl command.length rfl command.lengths
        (fun _ => trivial) fun _ => quiet_of_local (local_onPath _ _ _ fun _ => local_pspChstat _ _)
  | rename =>
      exact finishes_withPayload command.length rfl command.lengths.1 command.lengths.2 (by decide)
        fun _ _ => pc_then (quiet_of_local (local_renamePaths _ _ _)) fun _ =>
          finishes_reply command rfl rfl trivial
  | chdir =>
      exact finishes_withPath command rfl rfl command.length rfl command.lengths
        (fun _ => trivial) fun _ => quiet_of_local (local_setCurrdir _ _)
  | ioctl =>
      exact finishes_withControl command.length rfl command.lengths.1
        (finishes_replyWith command rfl rfl trivial (Nat.zero_le _))
  | devctl => exact finishes_handleDevctl command

/-! ## Bulk data -/

theorem pc_readBlocks {len turns read : Nat} {block : Bytes} (enough : len ≤ turns + read)
    (short : read ≤ len) (fits : len ≤ hostfsBulkMaxwrite) :
    (readBlocks len turns read block).wp pcSide (fun r w => r.isSome = true ∧ w = .top)
      (afterBulk (len - read)) := by
  induction turns generalizing read block with
  | zero =>
      rw [show len - read = 0 by omega]
      exact ⟨rfl, rfl⟩
  | succ turns ih =>
      unfold readBlocks
      by_cases more : read < len
      · have left : len - read ≠ 0 := by omega
        have word : (BitVec.ofNat 32 (min hostfsMaxBlock (len - read))).toNat =
            min hostfsMaxBlock (len - read) := by
          rw [BitVec.toNat_ofNat, Nat.mod_eq_of_lt]
          rw [hostfsMaxBlock]
          omega
        rw [if_pos more]
        unfold afterBulk
        rw [if_neg left]
        simp only [usbBulkRead_seq]
        refine ⟨⟨word, ?_⟩, ?_⟩
        · rw [word]
          omega
        rintro got phase' ⟨t, stale, sends, received⟩
        subst received
        cases sends with
        | block length =>
            have readsize : (delivered t stale).ret = (min hostfsMaxBlock (len - read) : Nat) := by
              simp [delivered, length]
            dsimp only
            rw [if_neg (by rw [readsize]; simp), length]
            rw [← Nat.sub_add_eq]
            exact ih (by rw [hostfsMaxBlock]; omega) (by omega)
      · rw [if_neg more, show len - read = 0 by omega]
        exact ⟨rfl, rfl⟩

theorem finishes_doBulk {t : Bytes} (fits : (decode t : BulkCommand).size.toNat ≤ hostfsBulkMaxwrite) :
    Finishes (doBulk t) (afterBulk (decode t : BulkCommand).size.toNat) := by
  have signed : (decode t : BulkCommand).size.toInt.toNat = (decode t : BulkCommand).size.toNat := by
    have := BitVec.toInt_eq_toNat_cond (decode t : BulkCommand).size
    rw [hostfsBulkMaxwrite] at fits
    split at this <;> omega
  unfold doBulk
  dsimp only
  rw [signed]
  refine (Prog.wp_bind _ _ _ _).2 (Prog.wp_mono ?_
    (pc_readBlocks (Nat.le_add_right _ _) (Nat.zero_le _) fits))
  rintro block phase' ⟨whole, rfl⟩
  cases block with
  | none => cases whole
  | some block =>
      refine pc_quiet ?_
      simp only [ask_seq]
      refine .ask trivial fun g => ?_
      split
      · split
        · exact .ask trivial fun _ => .ret _
        · exact .ret _
      · exact .ret _

/-! ## The loop -/

theorem goesOn {p : Pc Unit} (finishes : Finishes p phase) :
    (do p; return true : Pc Bool).wp pcSide (fun again w => again = true ∧ w = .top) phase :=
  (Prog.wp_bind _ _ _ _).2 (Prog.wp_mono (fun _ _ top => ⟨rfl, top⟩) finishes)

theorem pc_serve {t stale : Bytes} {phase' : Phase} (sends : Sends .top t phase') :
    (serve (delivered t stale)).wp pcSide (fun again w => again = true ∧ w = .top) phase' := by
  have readable (four : 4 ≤ t.length) : ¬ (delivered t stale).ret = 0 ∧
      ¬ (delivered t stale).ret = -etimedout ∧ ¬ (delivered t stale).ret < 0 ∧
      ¬ (delivered t stale).data.length < 4 := by
    simp only [delivered, etimedout]
    omega
  have whole (size : Nat) (holds : size ≤ t.length) : ¬ (delivered t stale).data.length < size :=
    Nat.not_lt.mpr holds
  have other (m m' : Word) (magic : magicOf t = m) (differ : m ≠ m') :
      ¬ magicOf (delivered t stale).data = m' := fun same => differ (magic.symm.trans same)
  unfold serve
  cases sends with
  | @command c _ command =>
      have header : sizeof HostFsCmd ≤ t.length := by
        rw [command.length]
        exact (commandSize_bounds c).1
      obtain ⟨h₁, h₂, h₃, h₄⟩ := readable (by have : sizeof HostFsCmd = 12 := rfl; omega)
      rw [if_neg h₁, if_neg h₂, if_neg h₃, if_neg h₄,
        if_pos (show magicOf (delivered t stale).data = _ from command.magic),
        if_neg (whole _ header)]
      exact goesOn ((Prog.wp_bind _ _ _ _).2 (finishes_dispatch command))
  | async magic some fits =>
      obtain ⟨h₁, h₂, h₃, h₄⟩ := readable (by have : sizeof AsyncCommand = 8 := rfl; omega)
      rw [if_neg h₁, if_neg h₂, if_neg h₃, if_neg h₄, if_neg (other _ _ magic (by decide)),
        if_pos (show magicOf (delivered t stale).data = _ from magic), if_neg (whole _ some.le)]
      exact goesOn (pc_quiet (quiet_of_local (local_doAsync t)))
  | bulk magic length some fits =>
      obtain ⟨h₁, h₂, h₃, h₄⟩ := readable (by have : sizeof BulkCommand = 8 := rfl; omega)
      rw [if_neg h₁, if_neg h₂, if_neg h₃, if_neg h₄, if_neg (other _ _ magic (by decide)),
        if_neg (other _ _ magic (by decide)),
        if_pos (show magicOf (delivered t stale).data = _ from magic),
        if_neg (whole _ length.ge)]
      have finishes := finishes_doBulk fits
      rw [afterBulk, if_neg (by omega)] at finishes
      exact goesOn finishes

end Psplink.HostFs
