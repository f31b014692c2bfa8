import Psplink.HostFs.Remote

/-!
# Remote reads

`usb_read_data` on the PSP with `handle_read` on the PC, against a read of the file itself.
-/

namespace Psplink.HostFs
open Psplink.Lib

variable {other : (c : Call) → c.Answer}

/-! ## The daemon's side -/

theorem fixedRead_bytes (data : Bytes) (rets : List ReadResult) (block : Bytes) (len : Nat) :
    fixedRead (.bytes data :: rets) block len =
      if block.length < len ∧ data ≠ [] then fixedRead rets (block ++ data.take (len - block.length)) len
      else (BitVec.ofNat 32 block.length, block) := by
  cases data <;> simp [fixedRead]

namespace HostFile

def advance (f : HostFile) (n : Nat) : HostFile := { f with pos := f.pos + n }

theorem left_advance (f : HostFile) (n : Nat) : (f.advance n).left = f.left.drop n := by
  rw [left, left, advance, List.drop_drop]

theorem advance_advance (f : HostFile) (n m : Nat) : (f.advance n).advance m = f.advance (n + m) := by
  simp only [advance, Nat.add_assoc]

@[simp] theorem advance_zero (f : HostFile) : f.advance 0 = f := rfl

theorem take_eq (f : HostFile) (n : Nat) : f.take n = (f.left.take n, f.advance (f.left.take n).length) := rfl

/-- However they are split, the reads give what there is, up to what is wanted. -/
theorem reads_eq (splits : List Split) (want : Nat) (f : HostFile) (block : Bytes) :
    fixedRead (f.reads splits want).1 block (block.length + want) =
        (BitVec.ofNat 32 (block ++ f.left.take want).length, block ++ f.left.take want) ∧
      (f.reads splits want).2 = f.advance (f.left.take want).length := by
  induction splits generalizing want f block with
  | nil =>
      refine ⟨?_, rfl⟩
      have size : (f.left.take want).take want = f.left.take want := by rw [List.take_take, Nat.min_self]
      rw [reads, take_eq, fixedRead_bytes, Nat.add_sub_cancel_left, size, fixedRead]
      split
      · rfl
      · rename_i done
        have none : f.left.take want = [] := by
          by_contra some
          have more : 0 < (f.left.take want).length := List.length_pos_iff.mpr some
          rw [List.length_take] at more
          exact done ⟨by omega, some⟩
        rw [none, List.append_nil]
  | cons split splits ih =>
      cases split with
      | eintr =>
          obtain ⟨read, position⟩ := ih want f block
          refine ⟨?_, position⟩
          rw [reads, fixedRead]
          split
          · exact read
          · rename_i enough
            rw [show want = 0 by omega, List.take_zero, List.append_nil]
      | short n =>
          rw [reads, take_eq]
          dsimp only
          generalize size : min (n + 1) want = k
          obtain ⟨read, position⟩ := ih (want - (f.left.take k).length) (f.advance (f.left.take k).length)
            (block ++ f.left.take k)
          have cut : (f.left.take k).take want = f.left.take k := by
            rw [List.take_take, Nat.min_eq_right (by omega)]
          have all : f.left.take k ++ (f.advance (f.left.take k).length).left.take (want - (f.left.take k).length) =
              f.left.take want := by
            rw [left_advance, List.length_take]
            by_cases less : k ≤ f.left.length
            · rw [Nat.min_eq_left less, ← List.take_add, Nat.add_sub_cancel' (by omega)]
            · rw [Nat.min_eq_right (by omega), List.take_of_length_le (by omega), List.drop_length, List.take_nil,
                List.append_nil, List.take_of_length_le (by omega)]
          refine ⟨?_, ?_⟩
          · rw [fixedRead_bytes, Nat.add_sub_cancel_left, cut]
            have part : (f.left.take k).length ≤ want := by rw [List.length_take]; omega
            rw [← all, ← List.append_assoc]
            split
            · rw [← read, List.length_append, Nat.add_assoc, Nat.add_sub_cancel' part]
            · rename_i done
              have none : f.left.take want = [] := by
                by_cases enough : want = 0
                · rw [enough, List.take_zero]
                · have stop : f.left.take k = [] := by
                    by_contra some
                    exact done ⟨by omega, some⟩
                  obtain zero | empty := List.take_eq_nil_iff.mp stop
                  · omega
                  · rw [empty, List.take_nil]
              rw [List.append_assoc, all, none, List.append_nil]
          · rw [position, advance_advance, ← List.length_append, all]

end HostFile

theorem readFid_open {fid : Int} {len : Nat} {w : Remote} (valid : 0 ≤ fid ∧ fid < maxFiles)
    (opened : (w.globals.openFiles fid.toNat).opened = true) (small : len ≤ hostfsMaxBlock) :
    (readFid fid len).interp (pcAnswer other) w =
      ((BitVec.ofNat 32 ((w.files fid.toNat).left.take len).length, (w.files fid.toNat).left.take len),
        { w with
          files := Function.update w.files fid.toNat
            ((w.files fid.toNat).advance ((w.files fid.toNat).left.take len).length)
          splits := fun i => w.splits (i + 1) }) := by
  have reads := (w.files fid.toNat).reads_eq (w.splits 0) len []
  rw [List.length_nil, Nat.zero_add, List.nil_append] at reads
  have nonneg : 0 ≤ (BitVec.ofNat 32 ((w.files fid.toNat).left.take len).length).toInt := by
    have size := List.length_take_le len (w.files fid.toNat).left
    rw [toInt_count (count_small (size.trans small))]
    exact Int.natCast_nonneg _
  simp only [readFid, ask_seq]
  rw [if_pos valid]
  simp only [Prog.interp_ask, pcAnswer, opened, if_true, reads.1, reads.2, nonneg, Prog.pure_def, Prog.interp_ret]

/-- The world after one read command. -/
def Remote.read (w : Remote) (fid len : Nat) : Remote :=
  { w with
    files := Function.update w.files fid ((w.files fid).advance ((w.files fid).left.take len).length)
    splits := fun i => w.splits (i + 1) }

def readCmd (fd : Word) (len : Nat) : HostFsReadCmd := ⟨reqHeader .read 0, fd, BitVec.ofNat 32 len⟩

def readResp (data : Bytes) : HostFsResp :=
  ⟨{ respHeader .read with extralen := BitVec.ofNat 32 data.length }, BitVec.ofNat 32 data.length⟩

theorem replyWith_interp {c : HostFsCommand} {res : Word} {data : Bytes} (small : data.length < 2 ^ 32) (w : Remote) :
    ((replyWith c res data).interp (pcAnswer other) w).2 =
      { w with replies := w.replies ++ encode (⟨{ respHeader c with extralen := BitVec.ofNat 32 data.length }, res⟩ :
        HostFsResp) ++ data } := by
  generalize response : encode (⟨{ respHeader c with extralen := BitVec.ofNat 32 data.length }, res⟩ : HostFsResp) = resp
  have first : (replyWith c res data).interp (pcAnswer other) w =
      (if (resp.length : Int) < 0 then return (resp.length : Int)
        else if BitVec.ofNat 32 data.length ≠ 0 then usbBulkWrite data
        else return (resp.length : Int) : Pc Int).interp (pcAnswer other) { w with replies := w.replies ++ resp } := by
    rw [← response]
    rfl
  rw [first, if_neg (by omega)]
  by_cases none : data = []
  · subst none
    rw [if_neg (by simp), List.append_nil]
    rfl
  · have some : BitVec.ofNat 32 data.length ≠ 0 := by
      intro zero
      have size := congrArg BitVec.toNat zero
      rw [BitVec.toNat_ofNat, Nat.mod_eq_of_lt small] at size
      exact none (List.length_eq_zero_iff.mp size)
    rw [if_pos some]
    rfl

theorem dispatch_read (fd : Word) (len : Nat) :
    dispatch (encode (readCmd fd len)) = handleRead (readCmd fd len) (sizeof HostFsReadCmd) := by
  rw [dispatch, ofCode_encode (c := .read) (readCmd fd len) rfl]
  dsimp only
  rw [Packed.decode_encode_self, Packed.length_encode]

theorem pcTurn_read {w : Remote} {fd : Word} (opened : w.Opened fd) (replies : w.replies = []) {len : Nat}
    (positive : 0 < len) (small : len ≤ hostfsMaxBlock) :
    pcTurn other { w with sent := [encode (readCmd fd len)] } =
      { w.read fd.toInt.toNat len with
        sent := [], replies := encode (readResp ((w.files fd.toInt.toNat).left.take len)) ++
          (w.files fd.toInt.toNat).left.take len } := by
  have block : len < 2 ^ 31 := count_small small
  have size := List.length_take_le len (w.files fd.toInt.toNat).left
  have unsigned : (readCmd fd len).len.toNat = len := toNat_count block
  have signed : ¬ (readCmd fd len).len.toInt ≤ 0 := by
    change ¬ (BitVec.ofNat 32 len).toInt ≤ 0
    rw [toInt_count block]
    omega
  rw [pcTurn_command (readCmd fd len) (by decide) (by decide) rfl, dispatch_read, handleRead, if_neg (by simp),
    if_neg signed, Prog.interp_bind, unsigned]
  have fid : (readCmd fd len).fid = fd := rfl
  rw [fid, readFid_open (w := { w with sent := [] }) opened.valid opened.opened small]
  dsimp only
  rw [replyWith_interp (by omega), replies, List.nil_append]
  rfl

/-! ## The driver's side -/

theorem Remote.read_idle {w : Remote} (idle : w.Idle) (fid len : Nat) : (w.read fid len).Idle :=
  ⟨idle.sent, idle.replies⟩

theorem readBlock_remote {w : Remote} {fd : Word} (idle : w.Idle) (opened : w.Opened fd) {len : Nat}
    (positive : 0 < len) (small : len ≤ hostfsMaxBlock) (ofs : Nat) (mem : Bytes) :
    (readBlock fd ofs len mem).interp (pspAnswer other) w =
      ((some (BitVec.ofNat 32 ((w.files fd.toInt.toNat).left.take len).length),
        putAt mem ofs ((w.files fd.toInt.toNat).left.take len)), w.read fd.toInt.toNat len) := by
  generalize block : (w.files fd.toInt.toNat).left.take len = data
  have size : data.length ≤ hostfsMaxBlock := by
    rw [← block]
    exact (List.length_take_le ..).trans small
  have announced : (BitVec.ofNat 32 data.length).toInt = data.length := toInt_count (count_small size)
  have turn : pcTurn other { w with sent := transfers (encode (readCmd fd len)) [] } =
      { w.read fd.toInt.toNat len with sent := [], replies := encode (readResp data) ++ data } := by
    rw [← block]
    exact pcTurn_read opened idle.replies positive small
  have asked : (request HostFsResp (readCmd fd len) [] len).interp (pspAnswer other) w =
      (some (readResp data, data), { w.read fd.toInt.toNat len with sent := [], replies := [] }) :=
    remote_request { w.read fd.toInt.toNat len with sent := [] } (encode_fits (by decide)) (by simp) (by decide) rfl
      announced (fun _ => by omega) idle.sent idle.replies turn
  rw [(Remote.read_idle idle _ _).emptied, readCmd] at asked
  rw [readBlock, Prog.interp_bind, asked]
  rfl

theorem putAt_append (mem a b : Bytes) : putAt (putAt mem 0 a) a.length b = putAt mem 0 (a ++ b) := by
  simp only [putAt, List.take_zero, List.nil_append, Nat.zero_add, List.length_append]
  rw [List.take_left, List.drop_append, List.drop_of_length_le (by omega), List.nil_append, Nat.add_sub_cancel_left,
    List.drop_drop]

/-- The world when `data` has been read through `fd` since `w₀`. -/
structure Remote.Progress (w₀ : Remote) (fd : Word) (data : Bytes) (w : Remote) : Prop where
  idle : w.Idle
  globals : w.globals = w₀.globals
  files : w.files =
    Function.update w₀.files fd.toInt.toNat ((w₀.files fd.toInt.toNat).advance data.length)

namespace Remote.Progress

variable {w₀ w : Remote} {fd : Word} {data : Bytes}

theorem refl (idle : w₀.Idle) : w₀.Progress fd [] w₀ :=
  ⟨idle, rfl, (Function.update_eq_self _ _).symm⟩

theorem opened (progress : w₀.Progress fd data w) (opened : w₀.Opened fd) : w.Opened fd :=
  ⟨opened.valid, by rw [progress.globals, opened.opened]⟩

theorem file (progress : w₀.Progress fd data w) :
    w.files fd.toInt.toNat = (w₀.files fd.toInt.toNat).advance data.length := by
  rw [progress.files, Function.update_self]

theorem read (progress : w₀.Progress fd data w) (len : Nat) :
    w₀.Progress fd (data ++ (w.files fd.toInt.toNat).left.take len) (w.read fd.toInt.toNat len) := by
  refine ⟨read_idle progress.idle _ _, progress.globals, ?_⟩
  change Function.update w.files _ _ = _
  rw [progress.file, HostFile.advance_advance, List.length_append, progress.files, Function.update_idem]

end Remote.Progress

/-- What is read in the next block continues what has been read. -/
theorem take_continues (left : Bytes) (k len : Nat) :
    left.take k ++ (left.drop (left.take k).length).take len = left.take (k + len) := by
  rw [List.length_take]
  by_cases less : k ≤ left.length
  · rw [Nat.min_eq_left less, ← List.take_add]
  · rw [Nat.min_eq_right (by omega), List.drop_length, List.take_nil, List.append_nil,
      List.take_of_length_le (by omega), List.take_of_length_le (by omega)]

section

variable (other) {w₀ : Remote} {fd : Word} {left : Bytes}

theorem readBlock_continues (opened : w₀.Opened fd) (start : (w₀.files fd.toInt.toNat).left = left) {k len : Nat}
    (positive : 0 < len) (small : len ≤ hostfsMaxBlock) {w : Remote} (progress : w₀.Progress fd (left.take k) w)
    (mem : Bytes) :
    ∃ w' res, (readBlock fd (left.take k).length len (putAt mem 0 (left.take k))).interp (pspAnswer other) w =
        ((some res, putAt mem 0 (left.take (k + len))), w') ∧
      res = BitVec.ofNat 32 ((left.drop (left.take k).length).take len).length ∧
      w₀.Progress fd (left.take (k + len)) w' := by
  have here : (w.files fd.toInt.toNat).left = left.drop (left.take k).length := by
    rw [progress.file, HostFile.left_advance, start]
  have next := progress.read len
  rw [here, take_continues] at next
  refine ⟨_, _, ?_, rfl, next⟩
  rw [readBlock_remote progress.idle (progress.opened opened) positive small, here, putAt_append, take_continues]

/-- The loops go on after a block that had something to read, and end at the end of the file. -/
theorem afterBlock_read (left : Bytes) {k len : Nat} (small : k + len < 2 ^ 31) :
    ∃ whole, afterBlock (BitVec.ofNat 32 (left.take k).length)
        (some (BitVec.ofNat 32 ((left.drop (left.take k).length).take len).length)) =
          (whole, BitVec.ofNat 32 (left.take (k + len)).length) ∧
      (whole = false → len = 0 ∨ left.length ≤ k) := by
  have part := List.length_take_le k left
  have block := List.length_take_le len (left.drop (left.take k).length)
  have signed : (BitVec.ofNat 32 ((left.drop (left.take k).length).take len).length).toInt =
      ((left.drop (left.take k).length).take len).length := toInt_count (by omega)
  rw [← take_continues left k len, List.length_append, BitVec.ofNat_add, afterBlock, signed]
  by_cases more : 0 < ((left.drop (left.take k).length).take len).length
  · exact ⟨true, if_pos (Int.natCast_pos.mpr more), nofun⟩
  · have none : ((left.drop (left.take k).length).take len).length = 0 := by omega
    refine ⟨false, ?_, fun _ => ?_⟩
    · rw [none, if_neg (by simp), if_neg (by simp), BitVec.add_zero]
    · rw [List.length_take, List.length_drop, List.length_take] at none
      omega

theorem moveBlocks_read (opened : w₀.Opened fd) (start : (w₀.files fd.toInt.toNat).left = left) (mem : Bytes)
    {sizes : List Nat} (sized : ∀ size ∈ sizes, 0 < size ∧ size ≤ hostfsMaxBlock) {k : Nat}
    (small : k + sizes.sum < 2 ^ 31) {w : Remote} (progress : w₀.Progress fd (left.take k) w) :
    ∃ w', (moveBlocks (readBlock fd) sizes (BitVec.ofNat 32 (left.take k).length)
          (putAt mem 0 (left.take k))).interp (pspAnswer other) w =
        ((BitVec.ofNat 32 (left.take (k + sizes.sum)).length, putAt mem 0 (left.take (k + sizes.sum))), w') ∧
      w₀.Progress fd (left.take (k + sizes.sum)) w' := by
  induction sizes generalizing k w with
  | nil => exact ⟨w, rfl, progress⟩
  | cons size sizes ih =>
      rw [List.sum_cons] at small ⊢
      obtain ⟨first, others⟩ := List.forall_mem_cons.mp sized
      have part := List.length_take_le k left
      have unsigned : (BitVec.ofNat 32 (left.take k).length).toNat = (left.take k).length := toNat_count (by omega)
      obtain ⟨w', res, block, count, progress'⟩ := readBlock_continues other opened start first.1 first.2
        progress mem
      obtain ⟨goes_on, after, ends⟩ := afterBlock_read left (show k + size < 2 ^ 31 by omega)
      simp only [moveBlocks, Prog.interp_bind, unsigned, block, count, after]
      cases goes_on with
      | true =>
          rw [← Nat.add_assoc]
          exact ih others (by omega) progress'
      | false =>
          have ended : left.length ≤ k := (ends rfl).resolve_left (by omega)
          have same : left.take (k + (size + sizes.sum)) = left.take (k + size) := by
            rw [List.take_of_length_le (by omega), List.take_of_length_le (by omega)]
          rw [same]
          exact ⟨w', rfl, progress'⟩

theorem transfer_read (opened : w₀.Opened fd) (start : (w₀.files fd.toInt.toNat).left = left) (mem : Bytes)
    (idle : w₀.Idle) {len : Nat} (small : len < 2 ^ 31) :
    ∃ w', (transfer (readBlock fd) len mem).interp (pspAnswer other) w₀ =
        ((BitVec.ofNat 32 (left.take len).length, putAt mem 0 (left.take len)), w') ∧
      w₀.Progress fd (left.take len) w' := by
  have begun : w₀.Progress fd (left.take 0) w₀ := Remote.Progress.refl idle
  have sized : ∀ size ∈ blockSizes len, 0 < size ∧ size ≤ hostfsMaxBlock := fun _ member => blockSizes_bounds member
  have blocks := moveBlocks_read other opened start mem sized (by rw [sum_blockSizes]; omega) begun
  rw [sum_blockSizes, Nat.zero_add, List.take_zero, List.length_nil,
    show putAt mem 0 [] = mem from List.take_append_drop 0 mem] at blocks
  rw [transfer_blocks]
  exact blocks

end

/-! ## Refinement -/

/-- A remote read is a read: what is left of the file, up to `len`, goes to the start of the buffer,
and nothing else of the buffer or of the world behind the link changes but the position. -/
theorem usbReadData_refines {w : Remote} {fd : Word} (idle : w.Idle) (opened : w.Opened fd) {data : Option Bytes}
    {len : Word} (nonneg : 0 ≤ len.toInt) (room : len.toNat ≤ (data.getD []).length) :
    let file := w.files fd.toInt.toNat
    let n := min len.toNat file.left.length
    ∃ w', (usbReadData fd data len).interp (pspAnswer other) w =
        ((BitVec.ofNat 32 n, file.left.take n ++ (data.getD []).drop n), w') ∧
      w'.files = Function.update w.files fd.toInt.toNat { file with pos := file.pos + n } ∧
      w'.globals = w.globals ∧ w'.Idle := by
  intro file n
  have signed : ¬ len.toInt < 0 := Int.not_lt.mpr nonneg
  by_cases zero : len = 0
  · have nothing : n = 0 := by
      change min len.toNat _ = 0
      rw [zero]
      exact Nat.zero_min _
    refine ⟨w, ?_, ?_, rfl, idle⟩
    · unfold usbReadData
      rw [if_neg signed, if_pos zero, nothing]
      rfl
    · rw [nothing]
      exact (Function.update_eq_self _ _).symm
  · have positive : 0 < len.toNat := Nat.pos_of_ne_zero fun none => zero (BitVec.toNat_inj.mp none)
    have small : len.toNat < 2 ^ 31 := by
      have sign := BitVec.toInt_eq_toNat_cond len
      have bound := len.isLt
      omega
    have count : (file.left.take len.toNat).length = n := List.length_take ..
    have same : file.left.take len.toNat = file.left.take n := List.take_eq_take_min
    cases data with
    | none => simp at room; omega
    | some mem =>
        obtain ⟨w', run, progress⟩ := transfer_read other opened rfl mem idle small
        have files := progress.files
        rw [count] at run files
        refine ⟨w', ?_, files, progress.globals, progress.idle⟩
        rw [usbReadData, if_neg signed, if_neg zero, run, putAt, count, same, Nat.zero_add]
        rfl

/-- Three bytes of a file of five, byte by byte. -/
theorem usbReadData_refines_split :
    let w := Remote.withFile [1, 2, 3, 4, 5] [.eintr, .short 0] fun _ => []
    ∃ w', (usbReadData 3 (some [0, 0, 0, 0]) 3).interp (pspAnswer refused) w = ((3, [1, 2, 3, 0]), w') ∧
      w'.files = Function.update w.files 3 ⟨[1, 2, 3, 4, 5], 3, []⟩ ∧ w'.globals = w.globals ∧ w'.Idle :=
  usbReadData_refines ⟨rfl, rfl⟩ (⟨by decide, rfl⟩ : Remote.Opened _ 3) (by decide) (by decide)

end Psplink.HostFs
