import Psplink.HostFs.Remote

/-!
# Remote writes

What `usb_write_data` returns on the PSP against what `write(2)` has taken on the PC.
-/

namespace Psplink.HostFs
open Psplink.Lib

variable {other : (c : Call) → c.Answer}

/-! ## The daemon's side -/

/-- An error meets a block of which bytes have been taken. -/
def failsLate : List WriteResult → (byteswrite len : Nat) → Bool
  | [], _, _ => false
  | r :: rest, byteswrite, len =>
      if byteswrite < len then
        match r with
        | .eintr => failsLate rest byteswrite len
        | .error _ => 0 < byteswrite
        | .count 0 => false
        | .count n => failsLate rest (byteswrite + min n (len - byteswrite)) len
      else false

/-- How `fixed_write` ends: with what it has written, or with an error that says nothing of it. -/
theorem fixedWrite_cases (rets : List WriteResult) {byteswrite len : Nat} (part : byteswrite ≤ len) :
    byteswrite ≤ taken rets byteswrite len ∧ taken rets byteswrite len ≤ len ∧
      (fixedWrite rets byteswrite len = BitVec.ofNat 32 (taken rets byteswrite len) ∧
          failsLate rets byteswrite len = false ∨
        (fixedWrite rets byteswrite len).toInt < 0 ∧
          (failsLate rets byteswrite len = true ↔ 0 < taken rets byteswrite len)) := by
  induction rets generalizing byteswrite with
  | nil => exact ⟨Nat.le_refl _, part, .inl ⟨rfl, rfl⟩⟩
  | cons r rest ih =>
      unfold fixedWrite taken failsLate
      by_cases more : byteswrite < len
      · rw [if_pos more, if_pos more, if_pos more]
        cases r with
        | eintr => exact ih part
        | error e => exact ⟨Nat.le_refl _, part, .inr ⟨getError_negative e, by simp⟩⟩
        | count n =>
            cases n with
            | zero => exact ⟨Nat.le_refl _, part, .inl ⟨rfl, rfl⟩⟩
            | succ n =>
                obtain ⟨least, rest⟩ := ih (show byteswrite + min (n + 1) (len - byteswrite) ≤ len by omega)
                exact ⟨(Nat.le_add_right _ _).trans least, rest⟩
      · rw [if_neg more, if_neg more, if_neg more]
        exact ⟨Nat.le_refl _, part, .inl ⟨rfl, rfl⟩⟩

/-- The world after one write command to an open file. -/
def Remote.wrote (w : Remote) (fid : Nat) (data : Bytes) : Remote :=
  { w with
    files := Function.update w.files fid ((w.files fid).write (w.rets 0) data)
    rets := fun i => w.rets (i + 1) }

theorem writeFid_open (other : (c : Call) → c.Answer) {w : Remote} {fd : Word} (opened : w.Opened fd) (data : Bytes) :
    (writeFid fd.toInt data).interp (pcAnswer other) w =
      (fixedWrite (w.rets 0) 0 data.length, w.wrote fd.toInt.toNat data) := by
  simp only [writeFid, ask_seq]
  rw [if_pos opened.valid]
  simp only [Prog.interp_ask, pcAnswer, opened.opened, if_true, Prog.pure_def, Prog.interp_ret]
  rfl

theorem writeFid_closed {w : Remote} {fd : Word} (closed : ¬ w.Opened fd) (data : Bytes) :
    (writeFid fd.toInt data).interp (pcAnswer other) w = (-1, w) := by
  simp only [writeFid, ask_seq]
  by_cases valid : 0 ≤ fd.toInt ∧ fd.toInt < maxFiles
  · have cleared : ¬ (w.globals.openFiles fd.toInt.toNat).opened = true := fun opened => closed ⟨valid, opened⟩
    rw [if_pos valid]
    simp only [Prog.interp_ask, pcAnswer, cleared, Bool.false_eq_true, if_false, Prog.pure_def, Prog.interp_ret]
  · rw [if_neg valid]
    rfl

theorem bulkRead_interp {α : Type} (cap : Nat) (size : Word) (f : UsbRead → Pc α) (data : Bytes) (w : Remote) :
    (usbBulkRead cap size >>= f).interp (pcAnswer other) { w with sent := [data] } =
      (f (delivered (data.take size.toNat) [])).interp (pcAnswer other) { w with sent := [] } := rfl

def writeCmd (fd : Word) (len : Nat) : HostFsFidCmd := ⟨reqHeader .write (BitVec.ofNat 32 len), fd⟩

theorem dispatch_write (fd : Word) (len : Nat) :
    dispatch (encode (writeCmd fd len)) = handleWrite (writeCmd fd len) (sizeof HostFsFidCmd) := by
  rw [dispatch, ofCode_encode (c := .write) (writeCmd fd len) rfl]
  dsimp only
  rw [Packed.decode_encode_self, Packed.length_encode]

theorem pcTurn_write {w w' : Remote} (idle : w.Idle) (idle' : w'.Idle) {fd : Word} {data : Bytes} {res : Word}
    (some : data ≠ []) (small : data.length ≤ hostfsMaxBlock)
    (body : (writeFid fd.toInt data).interp (pcAnswer other) w = (res, w')) :
    pcTurn other { w with sent := transfers (encode (writeCmd fd data.length)) data } =
      { w' with sent := [], replies := encode (⟨respHeader .write, res⟩ : HostFsResp) } := by
  have unsigned : (BitVec.ofNat 32 data.length).toNat = data.length := toNat_count (count_small small)
  have more : transfers (encode (writeCmd fd data.length)) data = [encode (writeCmd fd data.length), data] :=
    congrArg _ (if_neg some)
  rw [more, pcTurn_command (writeCmd fd data.length) (by decide) (by decide) rfl, dispatch_write, handleWrite]
  have positive : 0 < data.length := List.length_pos_iff.mpr some
  have announced : (writeCmd fd data.length).cmd.extralen ≠ 0 := by
    intro zero
    have size := congrArg BitVec.toNat (show BitVec.ofNat 32 data.length = 0 from zero)
    rw [unsigned] at size
    exact absurd size (Nat.pos_iff_ne_zero.mp positive)
  have payload : data.take (writeCmd fd data.length).cmd.extralen.toNat = data :=
    List.take_of_length_le (le_of_eq unsigned.symm)
  have all : BitVec.ofInt 32 (delivered data []).ret = (writeCmd fd data.length).cmd.extralen :=
    BitVec.ofInt_natCast ..
  have arrived : { w with sent := [] } = w := by
    obtain ⟨globals, files, splits, rets, sent, replies⟩ := w
    cases idle.sent
    rfl
  rw [withPayload, if_neg (by simp), if_neg announced, bulkRead_interp, payload, arrived, if_neg (fun differ => differ all),
    Prog.interp_bind]
  have read : (writeFid (writeCmd fd data.length).fid.toInt (delivered data []).data).interp (pcAnswer other) w =
      (res, w') := body
  rw [read]
  have replied : (reply .write res).interp (pcAnswer other) w' =
      (((encode (⟨respHeader .write, res⟩ : HostFsResp)).length : Int),
        { w' with replies := w'.replies ++ encode (⟨respHeader .write, res⟩ : HostFsResp) }) := rfl
  rw [replied, idle'.replies, idle'.sent, List.nil_append]

/-! ## The driver's side -/

theorem writeBlock_remote {w w' : Remote} (idle : w.Idle) (idle' : w'.Idle) {fd : Word} {mem : Bytes} {ofs len : Nat}
    {res : Word} (positive : 0 < len) (small : len ≤ hostfsMaxBlock) (room : ofs + len ≤ mem.length)
    (body : (writeFid fd.toInt ((mem.drop ofs).take len)).interp (pcAnswer other) w = (res, w')) :
    (writeBlock fd ofs len mem).interp (pspAnswer other) w = ((some res, mem), w') := by
  generalize block : (mem.drop ofs).take len = data at body
  have size : data.length = len := by
    rw [← block, List.length_take, List.length_drop]
    omega
  have some : data ≠ [] := List.length_pos_iff.mp (by omega)
  have fits : data.length ≤ txBuf := by rwa [size]
  have turn := pcTurn_write idle idle' some (by omega) body
  have asked : (request HostFsResp (writeCmd fd data.length) data 0).interp (pspAnswer other) w =
      (Option.some ((⟨respHeader .write, res⟩ : HostFsResp), []), { w' with sent := [], replies := [] }) :=
    remote_request { w' with sent := [] } (encode_fits (by decide)) fits (by decide) rfl rfl (fun none => absurd rfl none)
      idle.sent idle.replies (by rw [turn, List.append_nil])
  rw [idle'.emptied, size, writeCmd] at asked
  rw [writeBlock, Prog.interp_bind, block, asked]
  rfl

/-- The world when the first `n` bytes of `mem` have been written through `fd` since `w₀`. -/
structure Remote.Written (w₀ : Remote) (fd : Word) (mem : Bytes) (n : Nat) (w : Remote) : Prop where
  idle : w.Idle
  globals : w.globals = w₀.globals
  files : w.files = Function.update w₀.files fd.toInt.toNat
    { w₀.files fd.toInt.toNat with written := (w₀.files fd.toInt.toNat).written ++ mem.take n }

namespace Remote.Written

variable {w₀ w : Remote} {fd : Word} {mem : Bytes} {n : Nat}

theorem refl (idle : w₀.Idle) : w₀.Written fd mem 0 w₀ := by
  refine ⟨idle, rfl, ?_⟩
  rw [List.take_zero, List.append_nil]
  exact (Function.update_eq_self _ _).symm

theorem wrote (written : w₀.Written fd mem n w) {len : Nat} (room : n + len ≤ mem.length) :
    w₀.Written fd mem (n + taken (w.rets 0) 0 len) (w.wrote fd.toInt.toNat ((mem.drop n).take len)) := by
  have size : ((mem.drop n).take len).length = len := by
    rw [List.length_take, List.length_drop]
    omega
  have part : taken (w.rets 0) 0 len ≤ len := (fixedWrite_cases _ (Nat.zero_le _)).2.1
  refine ⟨⟨written.idle.sent, written.idle.replies⟩, written.globals, ?_⟩
  rw [Remote.wrote, HostFile.write, size, List.take_take, Nat.min_eq_left part, written.files, Function.update_self,
    Function.update_idem, List.append_assoc, ← List.take_add]

end Remote.Written

/-- No error meets a block of which bytes have been taken, in the blocks that are written. -/
def NoLateError : List Nat → (rets : Nat → List WriteResult) → Prop
  | [], _ => True
  | size :: sizes, rets =>
      failsLate (rets 0) 0 size = false ∧
        (0 < taken (rets 0) 0 size → NoLateError sizes fun i => rets (i + 1))

/-- What a caller takes `ret` to say. -/
def Reports (ret : Word) (n : Nat) : Prop := (0 ≤ ret.toInt → ret.toNat = n) ∧ (ret.toInt < 0 → n = 0)

theorem reports_count {k n : Nat} (small : k < 2 ^ 31) : Reports (BitVec.ofNat 32 k) n ↔ k = n := by
  rw [Reports, toInt_count small, toNat_count small]
  exact ⟨fun reports => reports.1 (Int.natCast_nonneg k), fun same => ⟨fun _ => same, fun negative => by omega⟩⟩

theorem reports_error {ret : Word} {n : Nat} (negative : ret.toInt < 0) : Reports ret n ↔ n = 0 :=
  ⟨fun reports => reports.2 negative, fun none => ⟨fun nonneg => by omega, fun _ => none⟩⟩

theorem afterBlock_count {k t : Nat} (small : k + t < 2 ^ 31) :
    afterBlock (BitVec.ofNat 32 k) (some (BitVec.ofNat 32 t)) = (decide (0 < t), BitVec.ofNat 32 (k + t)) := by
  rw [afterBlock, toInt_count (show t < 2 ^ 31 by omega)]
  by_cases more : 0 < t
  · rw [if_pos (Int.natCast_pos.mpr more), BitVec.ofNat_add, decide_eq_true more]
  · rw [if_neg (by omega), if_neg (by omega), show t = 0 by omega, Nat.add_zero]
    rfl

theorem afterBlock_error {k : Nat} (small : k < 2 ^ 31) {res : Word} (negative : res.toInt < 0) :
    afterBlock (BitVec.ofNat 32 k) (some res) = (false, if k = 0 then res else BitVec.ofNat 32 k) := by
  rw [afterBlock, if_neg (by omega)]
  by_cases first : k = 0
  · rw [if_pos ⟨negative, by rw [first]; rfl⟩, if_pos first]
  · rw [if_neg, if_neg first]
    rintro ⟨-, zero⟩
    have value := congrArg BitVec.toNat zero
    rw [toNat_count small] at value
    exact first value

theorem moveBlocks_write (other : (c : Call) → c.Answer) {w₀ : Remote} {fd : Word} {mem : Bytes} (opened : w₀.Opened fd) {sizes : List Nat}
    (sized : ∀ size ∈ sizes, 0 < size ∧ size ≤ hostfsMaxBlock) {k : Nat} (room : k + sizes.sum ≤ mem.length)
    (small : k + sizes.sum < 2 ^ 31) {w : Remote} (written : w₀.Written fd mem k w) :
    ∃ ret n w', (moveBlocks (writeBlock fd) sizes (BitVec.ofNat 32 k) mem).interp (pspAnswer other) w =
        ((ret, mem), w') ∧
      w₀.Written fd mem n w' ∧ n ≤ k + sizes.sum ∧ (NoLateError sizes w.rets ↔ Reports ret n) := by
  induction sizes generalizing k w with
  | nil => exact ⟨_, k, w, rfl, written, Nat.le_refl _, fun _ => (reports_count small).mpr rfl, fun _ => trivial⟩
  | cons size sizes ih =>
      rw [List.sum_cons] at small room ⊢
      obtain ⟨first, others⟩ := List.forall_mem_cons.mp sized
      have wopened : w.Opened fd := ⟨opened.valid, by rw [written.globals, opened.opened]⟩
      have length : ((mem.drop k).take size).length = size := by
        rw [List.length_take, List.length_drop]
        omega
      have written' := written.wrote (show k + size ≤ mem.length by omega)
      have body := writeFid_open other wopened ((mem.drop k).take size)
      rw [length] at body
      have block := writeBlock_remote written.idle written'.idle first.1 first.2 (by omega) body
      obtain ⟨-, part, ends⟩ := fixedWrite_cases (w.rets 0) (Nat.zero_le size)
      have unsigned : (BitVec.ofNat 32 k).toNat = k := toNat_count (by omega)
      simp only [moveBlocks, Prog.interp_bind, unsigned, block]
      generalize took : taken (w.rets 0) 0 size = t at *
      obtain ⟨count, fine⟩ | ⟨negative, late⟩ := ends
      · simp only [count, afterBlock_count (show k + t < 2 ^ 31 by omega)]
        by_cases more : 0 < t
        · rw [decide_eq_true more, if_pos rfl]
          obtain ⟨ret, n, w', run, done, bound, clean⟩ := ih others (show k + t + sizes.sum ≤ mem.length by omega) (by omega) written'
          refine ⟨ret, n, w', run, done, by omega, ?_⟩
          rw [← clean, NoLateError, took, fine]
          exact ⟨fun rest => rest.2 more, fun rest => ⟨rfl, fun _ => rest⟩⟩
        · rw [decide_eq_false more, if_neg (by simp)]
          refine ⟨_, _, _, rfl, written', by omega, fun _ => (reports_count (by omega)).mpr rfl, fun _ => ?_⟩
          rw [NoLateError, took, fine]
          exact ⟨rfl, fun positive => absurd positive more⟩
      · simp only [afterBlock_error (show k < 2 ^ 31 by omega) negative]
        rw [if_neg (by simp)]
        refine ⟨_, _, _, rfl, written', by omega, ?_⟩
        have clean : NoLateError (size :: sizes) w.rets ↔ t = 0 := by
          rw [NoLateError, took, ← Bool.not_eq_true, late]
          exact ⟨fun none => by omega, fun none => ⟨by omega, fun positive => by omega⟩⟩
        rw [clean]
        by_cases first : k = 0
        · rw [if_pos first, reports_error negative]
          omega
        · rw [if_neg first, reports_count (by omega)]
          omega

/-! ## Accounting -/

/-- The bytes of `data` that the world `w'` has in the file, and the world `w` has not, are as many as `ret` says. -/
def Accounted (w w' : Remote) (fd : Word) (data : Bytes) (ret : Word) : Prop :=
  (0 ≤ ret.toInt → ret.toNat ≤ data.length ∧
    (w'.files fd.toInt.toNat).written = (w.files fd.toInt.toNat).written ++ data.take ret.toNat) ∧
  (ret.toInt < 0 → (w'.files fd.toInt.toNat).written = (w.files fd.toInt.toNat).written)

theorem accounted_iff {w w' : Remote} {fd : Word} {mem : Bytes} {n len : Nat} (written : w.Written fd mem n w')
    (part : n ≤ len) (room : len ≤ mem.length) (ret : Word) : Accounted w w' fd (mem.take len) ret ↔ Reports ret n := by
  have size : (mem.take n).length = n := by rw [List.length_take]; omega
  have total : (mem.take len).length = len := by rw [List.length_take]; omega
  rw [Accounted, Reports, written.files, Function.update_self, total, List.append_right_inj]
  refine and_congr (forall_congr' fun _ => ⟨fun same => ?_, fun same => ?_⟩) (forall_congr' fun _ => ⟨fun same => ?_, fun none => ?_⟩)
  · have lengths := congrArg List.length same.2
    rw [size, List.length_take, total] at lengths
    omega
  · rw [same, List.take_take, Nat.min_eq_left part]
    exact ⟨part, rfl⟩
  · rw [← size, List.append_right_eq_self.mp same, List.length_nil]
  · rw [none, List.take_zero, List.append_nil]

theorem transfer_write_open (other : (c : Call) → c.Answer) {w : Remote} {fd : Word} {mem : Bytes} {len : Nat} (idle : w.Idle) (opened : w.Opened fd)
    (small : len < 2 ^ 31) (room : len ≤ mem.length) :
    ∃ ret n w', (transfer (writeBlock fd) len mem).interp (pspAnswer other) w = ((ret, mem), w') ∧
      w.Written fd mem n w' ∧ n ≤ len ∧ (NoLateError (blockSizes len) w.rets ↔ Reports ret n) := by
  have sized : ∀ size ∈ blockSizes len, 0 < size ∧ size ≤ hostfsMaxBlock := fun _ member => blockSizes_bounds member
  have total : 0 + (blockSizes len).sum = len := by rw [sum_blockSizes, Nat.zero_add]
  have begun : w.Written fd mem 0 w := Remote.Written.refl idle
  have blocks := moveBlocks_write other opened sized (by rwa [total]) (by rwa [total]) begun
  rw [total] at blocks
  rw [transfer_blocks]
  exact blocks

theorem transfer_write_closed {w : Remote} {fd : Word} {mem : Bytes} {len : Nat} (idle : w.Idle)
    (closed : ¬ w.Opened fd) (positive : 0 < len) (room : len ≤ mem.length) :
    (transfer (writeBlock fd) len mem).interp (pspAnswer other) w = ((-1, mem), w) := by
  rw [transfer_blocks]
  have total := sum_blockSizes len
  cases sizes : blockSizes len with
  | nil =>
      rw [sizes, List.sum_nil] at total
      omega
  | cons size sizes' =>
      obtain ⟨some, small⟩ := blockSizes_bounds (show size ∈ blockSizes len by rw [sizes]; exact List.mem_cons_self)
      rw [sizes, List.sum_cons] at total
      have body : (writeFid fd.toInt ((mem.drop 0).take size)).interp (pcAnswer other) w = (-1, w) :=
        writeFid_closed closed _
      have block := writeBlock_remote idle idle some small (show 0 + size ≤ mem.length by omega) body
      have zero : (0 : Word).toNat = 0 := rfl
      simp only [moveBlocks, Prog.interp_bind, zero, block]
      rfl

/-- A remote write accounts for the bytes that it writes exactly when no error meets a block of
which bytes have been taken: `fixed_write` forgets them. -/
theorem usbWriteData_accounts_iff {w : Remote} {fd : Word} (idle : w.Idle) {data : Option Bytes} {len : Word}
    (nonneg : 0 ≤ len.toInt) (room : len.toNat ≤ (data.getD []).length) :
    let run := (usbWriteData fd data len).interp (pspAnswer other) w
    Accounted w run.2 fd ((data.getD []).take len.toNat) run.1 ↔
      (w.Opened fd → NoLateError (blockSizes len.toNat) w.rets) := by
  intro run
  have signed : ¬ len.toInt < 0 := Int.not_lt.mpr nonneg
  by_cases zero : len = 0
  · have done : run = (0, w) := by
      change (usbWriteData fd data len).interp _ w = _
      unfold usbWriteData
      rw [if_neg signed, if_pos zero]
      rfl
    have nothing : (w.Written fd (data.getD []) 0 w) := Remote.Written.refl idle
    rw [done, accounted_iff nothing (Nat.zero_le _) room, zero]
    exact ⟨fun _ _ => trivial, fun _ => ⟨fun _ => rfl, fun _ => rfl⟩⟩
  · have positive : 0 < len.toNat := Nat.pos_of_ne_zero fun none => zero (BitVec.toNat_inj.mp none)
    have small : len.toNat < 2 ^ 31 := by
      have sign := BitVec.toInt_eq_toNat_cond len
      have bound := len.isLt
      omega
    cases data with
    | none => simp at room; omega
    | some mem =>
        change len.toNat ≤ mem.length at room
        have runs : run = (((transfer (writeBlock fd) len.toNat mem).interp (pspAnswer other) w).1.1,
            ((transfer (writeBlock fd) len.toNat mem).interp (pspAnswer other) w).2) := by
          change (usbWriteData fd (some mem) len).interp _ w = _
          rw [usbWriteData, if_neg signed, if_neg zero, Prog.interp_bind]
          rfl
        change Accounted w run.2 fd (mem.take len.toNat) run.1 ↔ _
        by_cases opened : w.Opened fd
        · obtain ⟨ret, n, w', moved, written, part, clean⟩ := transfer_write_open other idle opened small room
          rw [runs, moved, accounted_iff written part room, ← clean]
          exact ⟨fun held _ => held, fun held => held opened⟩
        · have begun : w.Written fd mem 0 w := Remote.Written.refl idle
          rw [runs, transfer_write_closed idle opened positive room, accounted_iff begun (Nat.zero_le _) room]
          exact ⟨fun _ opened' => absurd opened' opened, fun _ => (reports_error (show (-1 : Word).toInt < 0 by decide)).mpr rfl⟩

/-- A disk with room for one byte: `write(2)` takes it, and fails with `ENOSPC` for the other. -/
def fullDisk : Remote := Remote.withFile [] [] fun _ => [.count 1, .error 28]

theorem usbWriteData_forgets :
    let run := (usbWriteData 3 (some [1, 2]) 2).interp (pspAnswer refused) fullDisk
    ¬ Accounted fullDisk run.2 3 [1, 2] run.1 := by
  intro run accounted
  have failed : run.1.toInt < 0 := by decide +kernel
  have grown : (run.2.files 3).written = [1] := by decide +kernel
  have same := accounted.2 failed
  rw [show (3 : Word).toInt.toNat = 3 from rfl, grown] at same
  exact absurd same (List.cons_ne_nil _ _)

theorem usbWriteData_accounts_iff_disk :
    let run := (usbWriteData 3 (some [1, 2]) 2).interp (pspAnswer refused) fullDisk
    Accounted fullDisk run.2 3 [1, 2] run.1 ↔ (fullDisk.Opened 3 → NoLateError (blockSizes 2) fullDisk.rets) :=
  usbWriteData_accounts_iff ⟨rfl, rfl⟩ (by decide) (by decide)

end Psplink.HostFs
