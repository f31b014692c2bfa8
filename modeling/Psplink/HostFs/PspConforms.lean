import Psplink.HostFs.Driver
import Psplink.HostFs.Protocol

/-!
# The PSP keeps to the exchange

A call of a thread takes the semaphore for whole exchanges only: its requests are the ones the
exchange allows next, and it gives the semaphore up between two exchanges.
-/

namespace Psplink.HostFs
open Psplink.Lib

/-- The semaphore and the link as a thread sees them. -/
inductive Hold
  | without
  /-- `first` until the thread's first transfer since it took the semaphore. -/
  | holding (first : Bool) (phase : Phase)

def pspSide : Prog.Contract PspCall PspCall.Answer Hold where
  pre w c := match c with
    | .waitSema => w = .without
    | .signalSema => ∃ first, w = .holding first .top
    | .usbConnected => True
    | .bulkin data => ∃ first phase phase', w = .holding first phase ∧ (first = true ↔ phase = .top) ∧
        Sends phase data phase'
    | .bulkout size room => ∃ first phase, w = .holding first phase ∧ Awaits phase size ∧ size ≤ room
  post w c a w' := match c, a with
    | .waitSema, a => w' = if a then .holding true .top else .without
    | .signalSema, _ => w' = .without
    | .usbConnected, _ => w' = w
    | .bulkin data, a => a = some data.length ∧ ∃ first phase phase', w = .holding first phase ∧
        Sends phase data phase' ∧ w' = .holding false phase'
    | .bulkout .., a => ∃ t first phase phase', a = some t ∧ w = .holding first phase ∧
        Replies phase t phase' ∧ w' = .holding false phase'

variable {α β : Type}

abbrev Returns (p : Psp α) : Prop := p.wp pspSide (fun _ w => w = .without) .without

theorem returns_bind {p : Psp α} {f : α → Psp β} (first : Returns p) (next : ∀ a, Returns (f a)) :
    Returns (p >>= f) :=
  (Prog.wp_bind _ _ _ _).2 (Prog.wp_mono (fun a w without => by rw [without]; exact next a) first)

/-! ## One request -/

theorem writeLoop_nil (turns writelen : Nat) : writeLoop turns [] writelen = return writelen := by
  cases turns <;> rfl

theorem psp_send {data : Bytes} {first : Bool} {phase phase' : Phase} {f : Int → Psp β}
    {R : β → Hold → Prop} (some : data ≠ []) (fits : data.length ≤ txBuf)
    (fresh : first = true ↔ phase = .top) (sends : Sends phase data phase')
    (next : ∀ phase', Sends phase data phase' →
      (f data.length).wp pspSide R (.holding false phase')) :
    (writeData data >>= f).wp pspSide R (.holding first phase) := by
  refine (Prog.wp_bind _ _ _ _).2 ?_
  obtain ⟨b, rest, rfl⟩ := List.exists_cons_of_ne_nil some
  unfold writeData
  rw [List.length_cons]
  unfold writeLoop
  rw [List.isEmpty_cons, if_neg Bool.false_ne_true, List.take_of_length_le fits]
  simp only [bulkin_seq]
  refine ⟨⟨first, phase, phase', rfl, fresh, sends⟩, ?_⟩
  rintro _ w ⟨rfl, _, _, phase', held, sent, rfl⟩
  cases held
  dsimp only
  rw [if_pos (by simp), List.drop_length, writeLoop_nil, Nat.zero_add]
  exact next phase' sent

theorem psp_receive {size room : Nat} {first : Bool} {phase : Phase} {f : Int × Bytes → Psp β}
    {R : β → Hold → Prop} (some : size ≠ 0) (fits : size ≤ txBuf) (small : size ≤ room)
    (awaits : Awaits phase size) (only : ∀ t phase', Replies phase t phase' → t.length = size)
    (next : ∀ t phase', Replies phase t phase' → t.length = size →
      (f (size, t)).wp pspSide R (.holding false phase')) :
    (readData size room >>= f).wp pspSide R (.holding first phase) := by
  refine (Prog.wp_bind _ _ _ _).2 ?_
  obtain ⟨turns, rfl⟩ := Nat.exists_eq_succ_of_ne_zero some
  unfold readData
  rw [Int.toNat_natCast]
  unfold readLoop
  rw [if_pos (show ([] : Bytes).length < turns.succ from Nat.succ_pos _)]
  simp only [bulkout_seq, List.length_nil, Nat.sub_zero, Nat.min_eq_right fits]
  refine ⟨⟨first, phase, rfl, awaits, small⟩, ?_⟩
  rintro _ w ⟨t, _, _, phase', rfl, held, replies, rfl⟩
  cases held
  have length := only t phase' replies
  have done : readLoop turns.succ room turns t = return (t.length, t) := by
    cases turns with
    | zero => rfl
    | succ turns =>
        unfold readLoop
        rw [if_neg (by omega)]
  dsimp only
  rw [if_neg (by rw [List.isEmpty_iff]; rintro rfl; simp at length), List.nil_append, done, length]
  exact next t phase' replies length

/-! ## What the transfers lead to -/

theorem Sends.of_command {c : HostFsCommand} {t : Bytes} {phase' : Phase} (command : Command c t)
    (sends : Sends .top t phase') : phase' = afterCommand t := by
  have magic : magicOf t = hostfsMagic := command.magic
  cases sends with
  | command => rfl
  | async other => exact absurd (magic.symm.trans other) (by decide)
  | bulk other => exact absurd (magic.symm.trans other) (by decide)

theorem replies_length {c : HostFsCommand} {h t : Bytes} {phase' : Phase} (command : Command c h)
    (replies : Replies (.response h) t phase') : t.length = responseSize c := by
  cases replies with
  | response other response => rw [response.length, other.unique command]

theorem data_length {h t : Bytes} {left : Nat} {phase' : Phase}
    (replies : Replies (.data h left) t phase') : t.length = left := by
  cases replies with
  | data length => exact length

/-! ## Exchanges -/

/-- What comes out of an exchange: the response of the PC to its command, and its data. -/
def Answered (R : Type) [Packed R] (c : HostFsCommand) (h : Bytes) (ret : Option (R × Bytes)) : Prop :=
  ∃ resp data, ret = some (decode resp, data) ∧ Response c h resp ∧ data.length ≤ room c h

section
variable {C R : Type} [Packed C] [Packed R] {cmd : C} {c : HostFsCommand} {outdata : Bytes}
  {inlen : Int}

structure Xchg (R : Type) [Packed R] (c : HostFsCommand) (h outdata : Bytes) (inlen : Int) : Prop where
  command : Command c h
  payload : outdata.length = payloadLen h
  fits : payloadLen h ≤ hostfsMaxBlock
  respSize : sizeof R = responseSize c
  inlen : room c h ≤ inlen.toNat

theorem psp_takeResponse (xchg : Xchg R c (encode cmd) outdata inlen) :
    (takeResponse R (headerOf (encode cmd)) inlen).wp pspSide
      (fun ret w => Answered R c (encode cmd) ret ∧ w = .holding false .top)
      (.holding false (.response (encode cmd))) := by
  obtain ⟨command, _, _, respSize, roomy⟩ := xchg
  have bounds : 0 < responseSize c ∧ responseSize c ≤ 512 := by cases c <;> decide
  unfold takeResponse
  refine psp_receive (by omega) (by rw [txBuf]; omega) (Nat.le_refl _) ⟨c, command, respSize⟩
    (fun t phase' replies => (replies_length command replies).trans respSize.symm)
    fun t phase' replies _ => ?_
  cases replies with
  | @response _ _ t other response =>
      cases other.unique command
      have small := command.room_le
      have extralen := response.extralen
      rw [hostfsMaxBlock] at small
      dsimp only
      rw [if_neg (by simp), if_neg (by simp [response.magic])]
      split
      · have signed : (headerOf t).extralen.toInt = (headerOf t).extralen.toNat := by
          have signed := BitVec.toInt_eq_toNat_cond (headerOf t).extralen
          split at signed <;> omega
        rw [afterResponse, if_neg (by omega), signed]
        refine psp_receive (by omega) (by rw [txBuf]; omega) (by omega) rfl
          (fun data phase' replies => data_length replies) fun data phase' replies length => ?_
        cases replies
        dsimp only
        rw [if_neg (by simp)]
        exact ⟨⟨t, data, rfl, response, by omega⟩, rfl⟩
      · rw [afterResponse, if_pos (by omega)]
        exact ⟨⟨t, [], rfl, response, Nat.zero_le _⟩, rfl⟩

theorem psp_exchange (xchg : Xchg R c (encode cmd) outdata inlen) :
    (exchange R cmd outdata inlen).wp pspSide
      (fun ret w => Answered R c (encode cmd) ret ∧ w = .holding false .top) (.holding true .top) := by
  have bounds := commandSize_bounds c
  have header : sizeof HostFsCmd = 12 := rfl
  have length := xchg.command.length
  unfold exchange
  refine psp_send (by rintro empty; simp [empty] at length; omega) (by rw [txBuf]; omega) (by simp)
    (.command xchg.command) fun phase' sends => ?_
  rw [sends.of_command xchg.command, if_neg (by simp)]
  unfold afterCommand
  split
  · rename_i none
    obtain rfl : outdata = [] := List.eq_nil_of_length_eq_zero (xchg.payload.trans none)
    exact psp_takeResponse xchg
  · have fits := xchg.fits
    have payload := xchg.payload
    refine psp_send (by rintro rfl; exact absurd payload.symm ‹_›)
      (by rw [txBuf]; rw [hostfsMaxBlock] at fits; omega) (by simp) (.payload payload)
      fun phase' sends => ?_
    cases sends
    rw [if_neg (by simp)]
    exact psp_takeResponse xchg

theorem psp_commandXchg (xchg : Xchg R c (encode cmd) outdata inlen) :
    (commandXchg R cmd outdata inlen).wp pspSide
      (fun ret w => w = .without ∧ ∀ r, ret = some r → Answered R c (encode cmd) ret) .without := by
  simp only [commandXchg, waitSema_seq]
  refine ⟨rfl, ?_⟩
  rintro got w rfl
  cases got with
  | false => exact ⟨rfl, nofun⟩
  | true =>
      refine (Prog.wp_bind _ _ _ _).2 (Prog.wp_mono ?_ (psp_exchange xchg))
      rintro ret w ⟨answered, rfl⟩
      exact ⟨⟨false, rfl⟩, fun _ _ without => ⟨without, fun _ _ => answered⟩⟩

theorem psp_request (xchg : Xchg R c (encode cmd) outdata inlen) :
    (request R cmd outdata inlen).wp pspSide
      (fun ret w => w = .without ∧ ∀ r, ret = some r → Answered R c (encode cmd) ret) .without := by
  simp only [request, usbConnected_seq]
  refine ⟨trivial, ?_⟩
  rintro connected w rfl
  cases connected with
  | false => exact ⟨rfl, nofun⟩
  | true => exact psp_commandXchg xchg

theorem returns_request (xchg : Xchg R c (encode cmd) outdata inlen) :
    Returns (request R cmd outdata inlen) :=
  Prog.wp_mono (fun _ _ holds => holds.1) (psp_request xchg)

theorem returns_simpleRequest (xchg : Xchg HostFsResp c (encode cmd) outdata 0) :
    Returns (simpleRequest cmd outdata) := by
  refine returns_bind (returns_request xchg) fun ret => ?_
  cases ret <;> exact rfl

theorem xchg_of [Headed C] {extralen : Word} (header : Headed.cmd cmd = reqHeader c extralen)
    (size : sizeof C = commandSize c) (lengths : LengthsOk c (encode cmd))
    (payload : outdata.length = extralen.toInt.toNat) (fits : extralen.toInt ≤ hostfsMaxBlock)
    (respSize : sizeof R = responseSize c) (roomy : room c (encode cmd) ≤ inlen.toNat) :
    Xchg R c (encode cmd) outdata inlen where
  command := ⟨(Packed.length_encode cmd).trans size, by rw [headerOf_encode, header]; rfl,
    by rw [headerOf_encode, header]; rfl, lengths⟩
  payload := by rw [payloadLen, headerOf_encode, header]; exact payload
  fits := by rw [payloadLen, headerOf_encode, header]; exact Int.toNat_le.mpr fits
  respSize := respSize
  inlen := roomy

end

/-! ## Requests without a buffer, and requests with a path -/

section
variable {C R : Type} [Packed C] [Headed C] [Packed R] {cmd : C} {c : HostFsCommand} {inlen : Int}

theorem xchg_plain (header : Headed.cmd cmd = reqHeader c 0) (size : sizeof C = commandSize c)
    (lengths : (headerOf (encode cmd)).extralen = 0 → LengthsOk c (encode cmd))
    (respSize : sizeof R = responseSize c) (roomy : room c (encode cmd) ≤ inlen.toNat) :
    Xchg R c (encode cmd) [] inlen :=
  xchg_of header size (lengths (by rw [headerOf_encode, header]; rfl)) rfl (by decide) respSize roomy

theorem toInt_ofNat {n : Nat} (small : n < 2 ^ 31) : (BitVec.ofNat 32 n).toInt = n := by
  have signed := BitVec.toInt_eq_toNat_cond (BitVec.ofNat 32 n)
  rw [BitVec.toNat_ofNat, Nat.mod_eq_of_lt (by omega)] at signed
  split at signed <;> omega

theorem xchg_buffer {buf : Bytes} (some : buf ≠ []) (short : buf.length ≤ hostfsMaxBlock)
    (header : Headed.cmd cmd = reqHeader c (BitVec.ofNat 32 buf.length))
    (size : sizeof C = commandSize c)
    (lengths : (headerOf (encode cmd)).extralen.toNat = buf.length → 0 < buf.length →
      LengthsOk c (encode cmd))
    (respSize : sizeof R = responseSize c) (roomy : room c (encode cmd) ≤ inlen.toNat) :
    Xchg R c (encode cmd) buf inlen := by
  rw [hostfsMaxBlock] at short
  have signed : (BitVec.ofNat 32 buf.length).toInt = buf.length := toInt_ofNat (by omega)
  refine xchg_of header size (lengths ?_ (List.length_pos_iff.mpr some)) (by rw [signed]; rfl)
    (by rw [signed, hostfsMaxBlock]; omega) respSize roomy
  rw [headerOf_encode, header]
  show (BitVec.ofNat 32 buf.length).toNat = _
  rw [BitVec.toNat_ofNat, Nat.mod_eq_of_lt (by omega)]

end

def CString.Short (s : CString) : Prop := s.bytes.length ≤ hostfsPathmax

theorem CString.bytes_ne_nil (s : CString) : s.bytes ≠ [] := by simp [CString.bytes]

section
variable {C R : Type} [Packed C] [Headed C] [Packed R] {cmd : C} {c : HostFsCommand} {inlen : Int}

theorem xchg_path {path : CString} (short : path.Short)
    (header : Headed.cmd cmd = reqHeader c (pathLen path)) (size : sizeof C = commandSize c)
    (lengths : 0 < (headerOf (encode cmd)).extralen.toNat ∧
      (headerOf (encode cmd)).extralen.toNat ≤ hostfsPathmax → LengthsOk c (encode cmd))
    (respSize : sizeof R = responseSize c) (roomy : room c (encode cmd) ≤ inlen.toNat) :
    Xchg R c (encode cmd) path.bytes inlen :=
  xchg_buffer path.bytes_ne_nil (Nat.le_trans short (by decide)) header size
    (fun extralen some => lengths (extralen ▸ ⟨some, short⟩)) respSize roomy

end

/-- A path argument; where there is none, nothing is sent. -/
abbrev PathOk (name : Option CString) : Prop := ∀ path ∈ name, path.Short

theorem returns_ioOpen (fsnum mode mask : Word) {file : Option CString} (short : PathOk file) :
    Returns (ioOpen fsnum file mode mask) := by
  cases file with
  | none => exact rfl
  | some file =>
      refine returns_bind (returns_request (c := .openFile)
        (xchg_path (short file rfl) rfl rfl id rfl (Nat.le_refl 0))) fun ret => ?_
      cases ret <;> exact rfl

theorem returns_ioDopen (fsnum : Word) {dir : Option CString} (short : PathOk dir) :
    Returns (ioDopen fsnum dir) := by
  cases dir with
  | none => exact rfl
  | some dir =>
      refine returns_bind (returns_request (c := .dopen)
        (xchg_path (short dir rfl) rfl rfl id rfl (Nat.le_refl 0))) fun ret => ?_
      cases ret <;> exact rfl

theorem returns_ioGetstat (fsnum : Word) (notNull : Bool) {file : Option CString}
    (short : PathOk file) : Returns (ioGetstat fsnum file notNull) := by
  cases file with
  | none => exact rfl
  | some file =>
      cases notNull with
      | false => exact rfl
      | true =>
          refine returns_bind (returns_request (c := .getstat)
            (xchg_path (short file rfl) rfl rfl id rfl (Nat.le_refl 88))) fun ret => ?_
          cases ret <;> exact rfl

theorem returns_ioRemove (fsnum : Word) {name : Option CString} (short : PathOk name) :
    Returns (ioRemove fsnum name) := by
  cases name with
  | none => exact rfl
  | some name =>
      exact returns_simpleRequest (c := .remove)
        (xchg_path (short name rfl) rfl rfl id rfl (Nat.le_refl 0))

theorem returns_ioMkdir (fsnum mode : Word) {name : Option CString} (short : PathOk name) :
    Returns (ioMkdir fsnum name mode) := by
  cases name with
  | none => exact rfl
  | some name =>
      exact returns_simpleRequest (c := .mkdir)
        (xchg_path (short name rfl) rfl rfl id rfl (Nat.le_refl 0))

theorem returns_ioRmdir (fsnum : Word) {name : Option CString} (short : PathOk name) :
    Returns (ioRmdir fsnum name) := by
  cases name with
  | none => exact rfl
  | some name =>
      exact returns_simpleRequest (c := .rmdir)
        (xchg_path (short name rfl) rfl rfl id rfl (Nat.le_refl 0))

theorem returns_ioChdir (fsnum : Word) {dir : Option CString} (short : PathOk dir) :
    Returns (ioChdir fsnum dir) := by
  cases dir with
  | none => exact rfl
  | some dir =>
      exact returns_simpleRequest (c := .chdir)
        (xchg_path (short dir rfl) rfl rfl id rfl (Nat.le_refl 0))

theorem returns_ioChstat (fsnum bits : Word) (stat : Option SceIoStat) {file : Option CString}
    (short : PathOk file) : Returns (ioChstat fsnum file stat bits) := by
  cases file with
  | none => exact rfl
  | some file =>
      cases stat with
      | none => exact rfl
      | some stat =>
          exact returns_simpleRequest (c := .chstat)
            (xchg_path (short file rfl) rfl rfl id rfl (Nat.le_refl 0))

theorem returns_ioRename (fsnum : Word) (oldname newname : Option CString) :
    Returns (ioRename fsnum oldname newname) := by
  cases oldname with
  | none => exact rfl
  | some oldname =>
      cases newname with
      | none => exact rfl
      | some newname =>
          simp only [ioRename]
          split
          · exact rfl
          · rename_i fits
            rw [hostfsRenameBufsize] at fits
            refine returns_simpleRequest (c := .rename) (xchg_buffer
              (by simp [CString.bytes_ne_nil]) (by rw [hostfsMaxBlock]; omega) rfl rfl
              (fun extralen some => ?_) rfl (Nat.le_refl 0))
            rw [LengthsOk, extralen, hostfsPathmax]
            omega

theorem returns_ioClose (fid : Word) : Returns (ioClose fid) :=
  returns_simpleRequest (c := .close) (xchg_plain rfl rfl id rfl (Nat.le_refl 0))

theorem returns_ioDclose (did : Word) : Returns (ioDclose did) :=
  returns_simpleRequest (c := .dclose) (xchg_plain rfl rfl id rfl (Nat.le_refl 0))

theorem returns_ioDread (did : Word) (notNull : Bool) : Returns (ioDread did notNull) := by
  cases notNull with
  | false => exact rfl
  | true =>
      refine returns_bind (returns_request (c := .dread)
        (xchg_plain rfl rfl id rfl (Nat.le_refl 352))) fun ret => ?_
      cases ret <;> exact rfl

theorem returns_ioLseek (fid : Word) (ofs : BitVec 64) (whence : Word) :
    Returns (ioLseek fid ofs whence) := by
  refine returns_bind (returns_request (c := .lseek)
    (xchg_plain rfl rfl id rfl (Nat.le_refl 0))) fun ret => ?_
  cases ret <;> exact rfl

theorem returns_sendHelloCmd : Returns sendHelloCmd := by
  have xchg : Xchg HostFsCmd .hello
      (encode (⟨hostfsMagic, HostFsCommand.hello.code, 0⟩ : HostFsCmd)) [] 0 :=
    xchg_plain rfl rfl id rfl (Nat.le_refl 0)
  exact returns_bind (Prog.wp_mono (fun _ _ holds => holds.1) (psp_commandXchg xchg)) fun _ => rfl

/-! ## Control calls -/

/-- The input of a control call is there, and is at most 64K. -/
def ControlOk (indata : Option Bytes) (inlen : Word) : Prop :=
  inlen.toInt ≤ 64 * 1024 ∧ ∀ mem ∈ indata, inlen.toInt ≤ mem.length

theorem controlLen_le (indata : Option Bytes) {inlen : Word} (small : inlen.toInt ≤ 64 * 1024) :
    (controlLen indata inlen).toInt ≤ 64 * 1024 := by
  unfold controlLen
  split
  · decide
  · exact small

theorem length_controlData {indata : Option Bytes} {inlen : Word} (ok : ControlOk indata inlen) :
    (controlData indata (controlLen indata inlen)).length =
      (controlLen indata inlen).toInt.toNat := by
  unfold controlData controlLen
  cases indata with
  | none => rfl
  | some mem =>
      have whole := ok.2 mem rfl
      simp only [Option.isNone_some, Bool.false_eq_true, if_false, Option.getD_some,
        List.length_take]
      omega

theorem returns_ioIoctl (fid cmdno : Word) {indata outdata : Option Bytes} {inlen outlen : Word}
    (ok : ControlOk indata inlen) (small : outlen.toInt ≤ 64 * 1024) :
    Returns (ioIoctl fid cmdno indata inlen outdata outlen) := by
  have inSmall := controlLen_le indata ok.1
  have outSmall := controlLen_le outdata small
  have roomy : room .ioctl (encode (⟨reqHeader .ioctl (controlLen indata inlen), fid, cmdno,
      controlLen outdata outlen⟩ : HostFsIoctlCmd)) = (controlLen outdata outlen).toInt.toNat := by
    rw [room, Packed.decode_encode_self]
  refine returns_bind (returns_request (c := .ioctl) (xchg_of rfl rfl ⟨?_, ?_⟩
    (length_controlData ok) inSmall rfl roomy.le)) fun ret => ?_
  · rw [headerOf_encode]
    exact inSmall
  · omega
  · cases ret <;> exact rfl

theorem returns_devctlXchg (fsnum cmdno : Word) {indata outdata : Option Bytes}
    {inlen outlen : Word} (ok : ControlOk indata inlen) (small : outlen.toInt ≤ 64 * 1024)
    (info : cmdno = devctlGetInfo → sizeof DevctlGetInfo ≤ (controlLen outdata outlen).toInt.toNat) :
    Returns (devctlXchg fsnum cmdno indata inlen outdata outlen) := by
  have inSmall := controlLen_le indata ok.1
  have outSmall := controlLen_le outdata small
  have roomy : room .devctl (encode (⟨reqHeader .devctl (controlLen indata inlen), cmdno, fsnum,
      controlLen outdata outlen⟩ : HostFsDevctlCmd)) = (controlLen outdata outlen).toInt.toNat := by
    rw [room, Packed.decode_encode_self]
  refine returns_bind (returns_request (c := .devctl) (xchg_of rfl rfl ⟨?_, ?_, ?_⟩
    (length_controlData ok) inSmall rfl roomy.le)) fun ret => ?_
  · rw [headerOf_encode]
    exact inSmall
  · omega
  · rw [Packed.decode_encode_self, roomy]
    exact info
  · cases ret <;> exact rfl

theorem returns_ioDevctl (fsnum cmdno : Word) (name : Option CString) (info : Bytes)
    {indata outdata : Option Bytes} {inlen outlen : Word} (ok : ControlOk indata inlen)
    (small : outlen.toInt ≤ 64 * 1024) :
    Returns (ioDevctl fsnum name cmdno indata inlen outdata outlen info) := by
  unfold ioDevctl
  cases name with
  | none => exact rfl
  | some name =>
      rw [if_neg (by simp)]
      split
      · cases indata with
        | none => exact rfl
        | some mem =>
            dsimp only
            split
            · exact rfl
            · exact returns_devctlXchg _ _ ⟨by decide, nofun⟩ (by decide) fun _ => Nat.le_refl 20
      · exact returns_devctlXchg _ _ ok small fun getInfo => absurd getInfo ‹_›

/-! ## Reads and writes -/

def Moves (step : (ofs len : Nat) → Bytes → Psp (Option Word × Bytes)) (total : Nat) : Prop :=
  ∀ ofs len mem, 0 < len → len ≤ hostfsMaxBlock → ofs + len ≤ total → total ≤ mem.length →
    (step ofs len mem).wp pspSide
      (fun r w => w = .without ∧ total ≤ r.2.length ∧ ∀ res, r.1 = some res → res.toInt ≤ len)
      .without

theorem moves_writeBlock (fd : Word) (total : Nat) : Moves (writeBlock fd) total := by
  intro ofs len mem some short within whole
  rw [hostfsMaxBlock] at short
  have moved : ((mem.drop ofs).take len).length = len := by
    rw [List.length_take, List.length_drop]
    omega
  have xchg : Xchg HostFsResp .write
      (encode (⟨reqHeader .write (BitVec.ofNat 32 len), fd⟩ : HostFsFidCmd))
      ((mem.drop ofs).take len) 0 := by
    refine xchg_buffer (by rintro empty; simp [empty] at moved; omega)
      (by rw [moved, hostfsMaxBlock]; omega) (by rw [moved]; rfl) rfl (fun extralen some => ?_) rfl
      (Nat.le_refl 0)
    rw [LengthsOk, extralen, moved, hostfsMaxBlock]
    omega
  refine (Prog.wp_bind _ _ _ _).2 (Prog.wp_mono ?_ (psp_request xchg))
  rintro ret w ⟨rfl, answered⟩
  cases ret with
  | none =>
      refine ⟨rfl, whole, ?_⟩
      intro res same
      cases same
  | some r =>
      obtain ⟨resp, data, same, response, fits⟩ := answered r rfl
      cases same
      refine ⟨rfl, whole, fun res same => ?_⟩
      cases same
      have result := response.result
      rw [ResultOk, headerOf_encode] at result
      have exact : (BitVec.ofNat 32 len).toNat = len := by
        rw [BitVec.toNat_ofNat, Nat.mod_eq_of_lt (by omega)]
      rw [← exact]
      exact result

theorem length_putAt {mem data : Bytes} {ofs : Nat} (within : ofs + data.length ≤ mem.length) :
    (putAt mem ofs data).length = mem.length := by
  simp only [putAt, List.length_append, List.length_take, List.length_drop]
  omega

theorem moves_readBlock (fd : Word) (total : Nat) : Moves (readBlock fd) total := by
  intro ofs len mem some short within whole
  rw [hostfsMaxBlock] at short
  have exact : (BitVec.ofNat 32 len).toNat = len := by
    rw [BitVec.toNat_ofNat, Nat.mod_eq_of_lt (by omega)]
  have roomy : room .read (encode (⟨reqHeader .read 0, fd, BitVec.ofNat 32 len⟩ : HostFsReadCmd)) =
      len := by
    rw [room, Packed.decode_encode_self, exact]
  have xchg : Xchg HostFsResp .read
      (encode (⟨reqHeader .read 0, fd, BitVec.ofNat 32 len⟩ : HostFsReadCmd)) [] len := by
    refine xchg_plain rfl rfl (fun zero => ⟨zero, ?_, ?_⟩) rfl ?_
    · rw [Packed.decode_encode_self, toInt_ofNat (by omega)]
      omega
    · rw [roomy, hostfsMaxBlock]
      omega
    · rw [roomy]
      omega
  refine (Prog.wp_bind _ _ _ _).2 (Prog.wp_mono ?_ (psp_request xchg))
  rintro ret w ⟨rfl, answered⟩
  cases ret with
  | none =>
      refine ⟨rfl, whole, ?_⟩
      intro res same
      cases same
  | some r =>
      obtain ⟨resp, data, same, response, fits⟩ := answered r rfl
      cases same
      rw [roomy] at fits
      refine ⟨rfl, ?_, fun res same => ?_⟩
      · rw [length_putAt (by omega)]
        exact whole
      · cases same
        have result := response.result
        rwa [ResultOk, roomy] at result

theorem afterBlock_goes {ret ret' res : Word} {len total : Nat}
    (goes : afterBlock ret (some res) = (true, ret')) (moved : res.toInt ≤ len)
    (within : ret.toNat + len ≤ total) (small : total < 2 ^ 31) :
    ret'.toNat ≤ ret.toNat + len := by
  simp only [afterBlock] at goes
  split at goes
  · have signed := BitVec.toInt_eq_toNat_cond res
    cases goes
    rw [BitVec.toNat_add]
    split at signed <;> omega
  · split at goes <;> simp at goes

theorem psp_blockLoop {step : (ofs len : Nat) → Bytes → Psp (Option Word × Bytes)}
    {total blocks : Nat} {ret : Word} {mem : Bytes} (residual : Nat) (moves : Moves step total)
    (small : total < 2 ^ 31) (within : ret.toNat + blocks * hostfsMaxBlock + residual ≤ total)
    (whole : total ≤ mem.length) :
    (blockLoop step blocks ret mem).wp pspSide
      (fun r w => w = .without ∧ total ≤ r.2.2.length ∧
        (r.1 = true → r.2.1.toNat + residual ≤ total)) .without := by
  induction blocks generalizing ret mem with
  | zero => exact ⟨rfl, whole, fun _ => by simpa using within⟩
  | succ blocks ih =>
      rw [Nat.succ_mul] at within
      unfold blockLoop
      refine (Prog.wp_bind _ _ _ _).2 (Prog.wp_mono ?_ (moves ret.toNat hostfsMaxBlock mem
        (by decide) (Nat.le_refl _) (by omega) whole))
      rintro ⟨res, mem'⟩ w ⟨rfl, whole', moved⟩
      dsimp only
      cases goes : afterBlock ret res with
      | mk goesOn ret' =>
          cases goesOn with
          | false => exact ⟨rfl, whole', nofun⟩
          | true =>
              cases res with
              | none => cases goes
              | some res =>
                  have next := afterBlock_goes goes (moved res rfl) (by omega) small
                  exact ih (by omega) whole'

theorem returns_transfer {step : (ofs len : Nat) → Bytes → Psp (Option Word × Bytes)} {len : Nat}
    {mem : Bytes} (moves : Moves step len) (small : len < 2 ^ 31) (whole : len ≤ mem.length) :
    Returns (transfer step len mem) := by
  have parts := Nat.div_add_mod' len hostfsMaxBlock
  refine (Prog.wp_bind _ _ _ _).2 (Prog.wp_mono ?_ (psp_blockLoop (len % hostfsMaxBlock)
    moves small (by simpa using parts.le) whole))
  rintro ⟨all, ret, mem'⟩ w ⟨rfl, whole', within⟩
  dsimp only
  split
  · rename_i last
    refine (Prog.wp_bind _ _ _ _).2 (Prog.wp_mono ?_ (moves ret.toNat (len % hostfsMaxBlock) mem'
      last.2 (Nat.mod_lt _ (by decide)).le (within last.1) whole'))
    rintro r w ⟨rfl, _⟩
    exact rfl
  · exact rfl

theorem toNat_of_pos {len : Word} (positive : ¬ len.toInt < 0) :
    (len.toNat : Int) = len.toInt ∧ len.toNat < 2 ^ 31 := by
  have signed := BitVec.toInt_eq_toNat_cond len
  split at signed <;> omega

abbrev BufferOk (data : Option Bytes) (len : Word) : Prop := ∀ mem ∈ data, len.toInt ≤ mem.length

theorem returns_usbReadData (fd : Word) {data : Option Bytes} {len : Word}
    (ok : BufferOk data len) : Returns (usbReadData fd data len) := by
  unfold usbReadData
  split
  · exact rfl
  · obtain ⟨signed, small⟩ := toNat_of_pos ‹¬ len.toInt < 0›
    split
    · exact rfl
    · cases data with
      | none => exact rfl
      | some mem =>
          have whole := ok mem rfl
          exact returns_transfer (moves_readBlock fd _) small (by omega)

theorem returns_usbWriteData (fd : Word) {data : Option Bytes} {len : Word}
    (ok : BufferOk data len) : Returns (usbWriteData fd data len) := by
  unfold usbWriteData
  split
  · exact rfl
  · obtain ⟨signed, small⟩ := toNat_of_pos ‹¬ len.toInt < 0›
    split
    · exact rfl
    · cases data with
      | none => exact rfl
      | some mem =>
          have whole := ok mem rfl
          exact returns_bind (returns_transfer (moves_writeBlock fd _) small (by omega)) fun _ => rfl

/-! ## Asynchronous and bulk writes -/

theorem Sends.of_async {t : Bytes} {phase' : Phase} (magic : magicOf t = asyncMagic)
    (sends : Sends .top t phase') : phase' = .top := by
  cases sends with
  | command command =>
      exact absurd ((show magicOf t = hostfsMagic from command.magic).symm.trans magic) (by decide)
  | async => rfl
  | bulk other => exact absurd (magic.symm.trans other) (by decide)

theorem Sends.of_bulk {t : Bytes} {phase' : Phase} (magic : magicOf t = bulkMagic)
    (sends : Sends .top t phase') : phase' = .bulk (decode t : BulkCommand).size.toNat := by
  cases sends with
  | command command =>
      exact absurd ((show magicOf t = hostfsMagic from command.magic).symm.trans magic) (by decide)
  | async other => exact absurd (magic.symm.trans other) (by decide)
  | bulk => rfl

theorem returns_sendAsync {chan : Word} {part : Bytes} (some : part ≠ [])
    (fits : part.length ≤ asyncBuf - sizeof AsyncCommand) :
    Returns (sendAsync (encode (⟨asyncMagic, chan⟩ : AsyncCommand) ++ part)) := by
  have magic : magicOf (encode (⟨asyncMagic, chan⟩ : AsyncCommand) ++ part) = asyncMagic :=
    magicOf_async _ _
  have length : (encode (⟨asyncMagic, chan⟩ : AsyncCommand) ++ part).length =
      sizeof AsyncCommand + part.length := by
    rw [List.length_append, Packed.length_encode]
  have header : sizeof AsyncCommand = 8 := rfl
  have positive := List.length_pos_iff.mpr some
  rw [asyncBuf, header] at fits
  simp only [sendAsync, waitSema_seq]
  refine ⟨rfl, ?_⟩
  rintro got w rfl
  cases got with
  | false => exact rfl
  | true =>
      refine psp_send (by simp [some]) (by rw [length, header, txBuf]; omega) (by simp)
        (.async magic (by omega) (by omega)) fun phase' sends => ?_
      rw [sends.of_async magic]
      exact ⟨⟨false, rfl⟩, fun _ _ without => without⟩

theorem returns_asyncLoop (chan : Word) (turns : Nat) (rest : Bytes) (written : Nat) :
    Returns (asyncLoop chan turns rest written) := by
  induction turns generalizing rest written with
  | zero => exact rfl
  | succ turns ih =>
      unfold asyncLoop
      split
      · exact rfl
      · rename_i some
        refine returns_bind (returns_sendAsync ?_ (List.length_take_le _ _)) fun sent => ?_
        · cases rest with
          | nil => simp at some
          | cons b rest => simp [asyncBuf, show sizeof AsyncCommand = 8 from rfl]
        · split
          · exact ih _ _
          · exact rfl

theorem returns_usbAsyncWrite (chan : Word) (data : Bytes) : Returns (usbAsyncWrite chan data) := by
  simp only [usbAsyncWrite, usbConnected_seq]
  refine ⟨trivial, ?_⟩
  rintro connected w rfl
  cases connected with
  | false => exact rfl
  | true => exact returns_bind (returns_asyncLoop _ _ _ _) fun _ => rfl

theorem psp_writeLoop {turns writelen : Nat} {rest : Bytes} (enough : rest.length ≤ turns)
    (some : rest ≠ []) :
    (writeLoop turns rest writelen).wp pspSide (fun _ w => w = .holding false .top)
      (.holding false (.bulk rest.length)) := by
  induction turns generalizing rest writelen with
  | zero => exact absurd (List.eq_nil_of_length_eq_zero (Nat.le_zero.mp enough)) some
  | succ turns ih =>
      have positive := List.length_pos_iff.mpr some
      have taken : (rest.take txBuf).length = min hostfsMaxBlock rest.length := by
        rw [List.length_take]
        rfl
      have block : 0 < (rest.take txBuf).length := by
        rw [taken, hostfsMaxBlock]
        omega
      unfold writeLoop
      rw [if_neg (by simpa using some)]
      simp only [bulkin_seq]
      refine ⟨⟨false, _, _, rfl, by simp, .block taken⟩, ?_⟩
      rintro _ w ⟨rfl, _, _, phase', held, sends, rfl⟩
      cases held
      cases sends
      dsimp only
      rw [if_pos block, afterBulk, ← List.length_drop]
      split
      · rename_i ended
        rw [List.eq_nil_of_length_eq_zero ended, writeLoop_nil]
        exact rfl
      · refine ih ?_ fun empty => ?_
        · rw [List.length_drop]
          omega
        · rename_i more
          rw [empty] at more
          exact more rfl

theorem psp_bulkWrite {data : Bytes} (some : data ≠ []) (fits : data.length ≤ hostfsBulkMaxwrite) :
    (bulkWrite data).wp pspSide (fun _ w => w = .holding false .top) (.holding true .top) := by
  have magic : magicOf (encode (⟨bulkMagic, BitVec.ofNat 32 data.length⟩ : BulkCommand)) = bulkMagic :=
    magicOf_bulk _
  have announced :
      (decode (encode (⟨bulkMagic, BitVec.ofNat 32 data.length⟩ : BulkCommand)) : BulkCommand).size.toNat
        = data.length := by
    rw [Packed.decode_encode_self]
    rw [hostfsBulkMaxwrite] at fits
    show (BitVec.ofNat 32 data.length).toNat = _
    rw [BitVec.toNat_ofNat, Nat.mod_eq_of_lt (by omega)]
  unfold bulkWrite
  refine psp_send nofun (by rw [Packed.length_encode]; decide) (by simp)
    (.bulk magic (Packed.length_encode _) (by rw [announced]; exact List.length_pos_iff.mpr some)
      (by rw [announced]; exact fits)) fun phase' sends => ?_
  rw [sends.of_bulk magic, announced, Packed.length_encode, if_neg (by simp)]
  exact (Prog.wp_bind _ _ _ _).2 (Prog.wp_mono (fun _ _ top => top) (psp_writeLoop (Nat.le_refl _) some))

theorem returns_usbWriteBulkData (data : Bytes) : Returns (usbWriteBulkData data) := by
  simp only [usbWriteBulkData, usbConnected_seq]
  refine ⟨trivial, ?_⟩
  rintro connected w rfl
  cases connected with
  | false => exact rfl
  | true =>
      simp only [waitSema_seq, Bool.not_true, Bool.false_eq_true, if_false]
      split
      · exact rfl
      · rename_i bounds
        refine ⟨rfl, ?_⟩
        rintro got w rfl
        cases got with
        | false => exact rfl
        | true =>
            refine (Prog.wp_bind _ _ _ _).2 (Prog.wp_mono ?_ (psp_bulkWrite ?_ (by omega)))
            · rintro sent w rfl
              exact ⟨⟨false, rfl⟩, fun _ _ without => without⟩
            · rintro rfl
              exact bounds (.inl rfl)

/-! ## Calls -/

/-- What a thread can ask of the driver and of the two writers beside it; `hello` is sent by the
thread that sees the connection come up. -/
inductive DriverCall
  | hello
  | ioOpen (fsnum : Word) (file : Option CString) (mode mask : Word)
  | ioClose (fid : Word)
  | ioRead (fid : Word) (data : Option Bytes) (len : Word)
  | ioWrite (fid : Word) (data : Option Bytes) (len : Word)
  | ioLseek (fid : Word) (ofs : BitVec 64) (whence : Word)
  | ioIoctl (fid cmdno : Word) (indata : Option Bytes) (inlen : Word) (outdata : Option Bytes)
      (outlen : Word)
  | ioRemove (fsnum : Word) (name : Option CString)
  | ioMkdir (fsnum : Word) (name : Option CString) (mode : Word)
  | ioRmdir (fsnum : Word) (name : Option CString)
  | ioDopen (fsnum : Word) (dir : Option CString)
  | ioDclose (did : Word)
  | ioDread (did : Word) (notNull : Bool)
  | ioGetstat (fsnum : Word) (file : Option CString) (notNull : Bool)
  | ioChstat (fsnum : Word) (file : Option CString) (stat : Option SceIoStat) (bits : Word)
  | ioRename (fsnum : Word) (oldname newname : Option CString)
  | ioChdir (fsnum : Word) (dir : Option CString)
  | ioDevctl (fsnum : Word) (name : Option CString) (cmdno : Word) (indata : Option Bytes)
      (inlen : Word) (outdata : Option Bytes) (outlen : Word) (info : Bytes)
  | usbAsyncWrite (chan : Word) (data : Bytes)
  | usbWriteBulkData (data : Bytes)

def DriverCall.run : DriverCall → Psp Unit
  | .hello => discard sendHelloCmd
  | .ioOpen fsnum file mode mask => discard (HostFs.ioOpen fsnum file mode mask)
  | .ioClose fid => discard (HostFs.ioClose fid)
  | .ioRead fid data len => discard (usbReadData fid data len)
  | .ioWrite fid data len => discard (usbWriteData fid data len)
  | .ioLseek fid ofs whence => discard (HostFs.ioLseek fid ofs whence)
  | .ioIoctl fid cmdno indata inlen outdata outlen =>
      discard (HostFs.ioIoctl fid cmdno indata inlen outdata outlen)
  | .ioRemove fsnum name => discard (HostFs.ioRemove fsnum name)
  | .ioMkdir fsnum name mode => discard (HostFs.ioMkdir fsnum name mode)
  | .ioRmdir fsnum name => discard (HostFs.ioRmdir fsnum name)
  | .ioDopen fsnum dir => discard (HostFs.ioDopen fsnum dir)
  | .ioDclose did => discard (HostFs.ioDclose did)
  | .ioDread did notNull => discard (HostFs.ioDread did notNull)
  | .ioGetstat fsnum file notNull => discard (HostFs.ioGetstat fsnum file notNull)
  | .ioChstat fsnum file stat bits => discard (HostFs.ioChstat fsnum file stat bits)
  | .ioRename fsnum oldname newname => discard (HostFs.ioRename fsnum oldname newname)
  | .ioChdir fsnum dir => discard (HostFs.ioChdir fsnum dir)
  | .ioDevctl fsnum name cmdno indata inlen outdata outlen info =>
      discard (HostFs.ioDevctl fsnum name cmdno indata inlen outdata outlen info)
  | .usbAsyncWrite chan data => discard (HostFs.usbAsyncWrite chan data)
  | .usbWriteBulkData data => discard (HostFs.usbWriteBulkData data)

/-- Paths of at most 4095 bytes, control buffers of at most 64K, and buffers that are as long as
the call says. -/
def DriverCall.Valid : DriverCall → Prop
  | .ioOpen _ name _ _ | .ioRemove _ name | .ioMkdir _ name _ | .ioRmdir _ name | .ioDopen _ name
  | .ioGetstat _ name _ | .ioChstat _ name _ _ | .ioChdir _ name => PathOk name
  | .ioRead _ data len | .ioWrite _ data len => BufferOk data len
  | .ioIoctl _ _ indata inlen _ outlen | .ioDevctl _ _ _ indata inlen _ outlen _ =>
      ControlOk indata inlen ∧ outlen.toInt ≤ 64 * 1024
  | .hello | .ioClose _ | .ioLseek .. | .ioDclose _ | .ioDread .. | .ioRename .. | .usbAsyncWrite ..
  | .usbWriteBulkData _ => True

theorem returns_discard {p : Psp α} (returns : Returns p) : Returns (discard p) :=
  returns_bind returns fun _ => rfl

theorem returns_run {call : DriverCall} (valid : call.Valid) : Returns call.run := by
  cases call with
  | hello => exact returns_discard returns_sendHelloCmd
  | ioOpen => exact returns_discard (returns_ioOpen _ _ _ valid)
  | ioClose => exact returns_discard (returns_ioClose _)
  | ioRead => exact returns_discard (returns_usbReadData _ valid)
  | ioWrite => exact returns_discard (returns_usbWriteData _ valid)
  | ioLseek => exact returns_discard (returns_ioLseek _ _ _)
  | ioIoctl => exact returns_discard (returns_ioIoctl _ _ valid.1 valid.2)
  | ioRemove => exact returns_discard (returns_ioRemove _ valid)
  | ioMkdir => exact returns_discard (returns_ioMkdir _ _ valid)
  | ioRmdir => exact returns_discard (returns_ioRmdir _ valid)
  | ioDopen => exact returns_discard (returns_ioDopen _ valid)
  | ioDclose => exact returns_discard (returns_ioDclose _)
  | ioDread => exact returns_discard (returns_ioDread _ _)
  | ioGetstat => exact returns_discard (returns_ioGetstat _ _ valid)
  | ioChstat => exact returns_discard (returns_ioChstat _ _ _ valid)
  | ioRename => exact returns_discard (returns_ioRename _ _ _)
  | ioChdir => exact returns_discard (returns_ioChdir _ valid)
  | ioDevctl => exact returns_discard (returns_ioDevctl _ _ _ _ valid.1 valid.2)
  | usbAsyncWrite => exact returns_discard (returns_usbAsyncWrite _ _)
  | usbWriteBulkData => exact returns_discard (returns_usbWriteBulkData _)

end Psplink.HostFs
