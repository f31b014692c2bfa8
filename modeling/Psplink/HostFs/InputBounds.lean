import Psplink.HostFs.Calls

/-!
# Lengths from the wire

Which commands make the daemon ask for more than a buffer holds, or use a string that does not end
in its buffer. The world is the tables of the daemon and the claim that the strings of the path
buffer end in it; every call that a handler makes rests on that claim.
-/

namespace Psplink.HostFs
open Psplink.Lib

/-- What is asked for fits the buffer; the length of a transfer is an `int`. -/
def Call.InBuffer : Call → Prop
  | .usbBulkRead cap size => size.toInt ≤ cap
  | .read _ cap len => len ≤ cap
  | _ => True

def Whole (size : Word) (got : UsbRead) : Prop := BitVec.ofInt 32 got.ret = size

/-- The strings that a handler finds in its path buffer: two for a rename, which clears the buffer
first. -/
def Terminated : HostFsCommand → UsbRead → Prop
  | .rename, got =>
      let path := (got.data ++ List.replicate (hostfsPathmax - got.data.length) 0).take hostfsPathmax
      (0 : UInt8) ∈ path ∧ (0 : UInt8) ∈ path.drop ((cstr path).length + 1)
  | _, got => (0 : UInt8) ∈ (got.data ++ got.stale).take hostfsPathmax

structure Reading where
  globals : Globals
  ends : Prop

def reading (c : HostFsCommand) (path : UsbRead) : Prog.Contract Call Call.Answer Reading where
  pre w q := w.ends ∧ q.InBuffer
  post
    | w, .load, g, w' => g = w.globals ∧ w' = w
    | w, .modify f, _, w' => w' = { w with globals := f w.globals }
    | w, .usbBulkRead cap size, got, w' =>
        if cap = hostfsPathmax then got = path ∧ w' = { w with ends := Whole size path → Terminated c path }
        else w' = w
    | w, _, _, w' => w' = w

/-! ## The condition -/

def payloadCap : HostFsCommand → Option Nat
  | .openFile | .dopen | .remove | .rmdir | .mkdir | .chdir | .rename | .getstat | .chstat =>
      some hostfsPathmax
  | .write => some hostfsMaxBlock
  | .ioctl | .devctl => some (64 * 1024)
  | .hello | .bye | .close | .read | .lseek | .dread | .dclose => none

def Uses (g : Globals) (fid : Int) : Prop :=
  0 ≤ fid ∧ fid < maxFiles ∧ (g.openFiles fid.toNat).opened = true

/-- The lengths in a command are at most the sizes of the buffers, and its path has its NULs. -/
structure Fits (g : Globals) (c : HostFsCommand) (t : Bytes) (path : UsbRead) : Prop where
  payload : ∀ cap, payloadCap c = some cap → t.length = commandSize c → (headerOf t).extralen ≠ 0 →
    (headerOf t).extralen.toInt ≤ cap ∧
      (cap = hostfsPathmax → Whole (headerOf t).extralen path → Terminated c path)
  count : c = .read → t.length = commandSize c → Uses g (decode t : HostFsReadCmd).fid.toInt →
    (decode t : HostFsReadCmd).len.toInt ≤ hostfsMaxBlock

/-! ## Handlers -/

def Call.Plain : Call → Prop
  | .usbBulkRead .. => False
  | .read _ cap len => len ≤ cap
  | _ => True

theorem plain_of_isLocal (c : Call) (h : c.IsLocal) : c.Plain := by
  cases c <;> trivial

section
variable {c : HostFsCommand} {path : UsbRead} {w : Reading} {α : Type}

theorem wp_plain {p : Pc α} (plain : p.Only Call.Plain) (ends : w.ends) :
    p.wp (reading c path) (fun _ w => w.ends) w := by
  apply Prog.wp_of_only plain _ _ ends
  · intro w q plain ends
    refine ⟨ends, ?_⟩
    cases q with
    | usbBulkRead => exact plain.elim
    | read => exact plain
    | _ => trivial
  · intro w q a w' plain ends answered
    cases q with
    | usbBulkRead => exact plain.elim
    | load => exact answered.2 ▸ ends
    | modify f =>
        cases answered
        exact ends
    | _ => exact (answered : w' = w) ▸ ends

theorem wp_plain_true {p : Pc α} (plain : p.Only Call.Plain) (ends : w.ends) :
    p.wp (reading c path) (fun _ _ => True) w :=
  Prog.wp_mono (fun _ _ _ => trivial) (wp_plain plain ends)

theorem wp_reply {p : Pc α} {f : α → Pc Int} (plain : p.Only Call.Plain)
    (replies : ∀ a, ∃ data k, f a = .ask (.usbBulkWrite data) k ∧ ∀ ret, (k ret).Only Call.Plain) :
    (p >>= f).wp (reading c path) (fun _ _ => True) w ↔ w.ends := by
  constructor
  · intro h
    cases p with
    | ret a =>
        obtain ⟨data, k, asks, -⟩ := replies a
        have h : (f a).wp (reading c path) (fun _ _ => True) w := h
        rw [asks] at h
        exact h.1.1
    | ask q k => exact h.1.1
  · intro ends
    apply wp_plain_true _ ends
    apply plain.bind
    intro a
    obtain ⟨data, k, asks, rest⟩ := replies a
    rw [asks]
    exact .ask trivial rest

theorem replies_reply (res : Word) :
    ∃ data k, reply c res = .ask (.usbBulkWrite data) k ∧ ∀ ret, (k ret).Only Call.Plain :=
  ⟨_, _, rfl, fun _ => .ret _⟩

theorem replies_replyWith (res : Word) (data : Bytes) :
    ∃ first k, replyWith c res data = .ask (.usbBulkWrite first) k ∧
      ∀ ret, (k ret).Only Call.Plain := by
  refine ⟨_, _, rfl, ?_⟩
  intro ret
  apply Prog.Only.bind (.ret ret)
  intro ret
  split
  · exact .ret _
  · split
    · exact .ask trivial fun _ => .ret _
    · exact .ret _

/-! ## Payloads -/

theorem wp_withPayload {size cap cmdlen : Nat} {extralen : Word} {body : UsbRead → Pc Int}
    (noPath : cap ≠ hostfsPathmax) (ends : w.ends)
    (plain : ∀ got, (body got).Only Call.Plain) :
    (withPayload size cap extralen cmdlen body).wp (reading c path) (fun _ _ => True) w ↔
      (cmdlen = size → extralen ≠ 0 → extralen.toInt ≤ cap) := by
  unfold withPayload
  by_cases sized : cmdlen = size
  · by_cases empty : extralen = 0
    · simp [sized, empty]
    · rw [if_neg (by simp [sized]), if_neg empty, usbBulkRead_seq]
      constructor
      · intro h _ _
        exact h.1.2
      · intro fits
        refine ⟨⟨ends, fits sized empty⟩, ?_⟩
        intro got w' answered
        have same : w' = w := by simpa [reading, noPath] using answered
        rw [same]
        dsimp only
        split
        · trivial
        · exact wp_plain_true (plain got) ends
  · simp [sized]

theorem wp_withPath_iff {size cmdlen : Nat} {extralen : Word} {body : UsbRead → Pc Int}
    (ends : w.ends) (uses : ∀ w', (body path).wp (reading c path) (fun _ _ => True) w' ↔ w'.ends) :
    (withPayload size hostfsPathmax extralen cmdlen body).wp (reading c path) (fun _ _ => True) w ↔
      (cmdlen = size → extralen ≠ 0 →
        extralen.toInt ≤ hostfsPathmax ∧ (Whole extralen path → Terminated c path)) := by
  unfold withPayload
  by_cases sized : cmdlen = size
  · by_cases empty : extralen = 0
    · simp [sized, empty]
    · rw [if_neg (by simp [sized]), if_neg empty, usbBulkRead_seq]
      have answers (got : UsbRead) (w' : Reading) :
          (reading c path).post w (.usbBulkRead hostfsPathmax extralen) got w' ↔
            got = path ∧ w' = { w with ends := Whole extralen path → Terminated c path } := by
        show (if hostfsPathmax = hostfsPathmax then got = path ∧ w' = _ else w' = w) ↔ _
        rw [if_pos rfl]
      constructor
      · intro h _ _
        refine ⟨h.1.2, ?_⟩
        intro whole
        have used := h.2 path _ ((answers _ _).2 ⟨rfl, rfl⟩)
        dsimp only at used
        have whole' : ¬ BitVec.ofInt 32 path.ret ≠ extralen := not_not.2 whole
        rw [if_neg whole', uses] at used
        exact used whole
      · intro fits
        refine ⟨⟨ends, (fits sized empty).1⟩, ?_⟩
        intro got w' answered
        obtain ⟨rfl, rfl⟩ := (answers _ _).1 answered
        dsimp only
        split
        · trivial
        · exact (uses _).2 (fits sized empty).2
  · simp [sized]

theorem wp_withPath {size cmdlen : Nat} {extralen : Word} {res : Bytes → Pc Word} (ends : w.ends)
    (plain : ∀ path, (res path).Only Call.Plain) :
    (withPath c size extralen cmdlen res).wp (reading c path) (fun _ _ => True) w ↔
      (cmdlen = size → extralen ≠ 0 →
        extralen.toInt ≤ hostfsPathmax ∧ (Whole extralen path → Terminated c path)) :=
  wp_withPath_iff ends fun _ => wp_reply (plain _) fun _ => replies_reply _

theorem wp_withControl {size cmdlen : Nat} {inlen : Word} {body : Pc Int} (ends : w.ends)
    (plain : body.Only Call.Plain) :
    (withControl size inlen cmdlen body).wp (reading c path) (fun _ _ => True) w ↔
      (cmdlen = size → inlen ≠ 0 → inlen.toInt ≤ (64 * 1024 : Nat)) := by
  unfold withControl
  by_cases sized : cmdlen = size
  · rw [if_neg (by simp [sized])]
    by_cases positive : 0 < inlen.toInt
    · have nonzero : inlen ≠ 0 := by
        rintro rfl
        cases positive
      rw [if_pos positive, usbBulkRead_seq]
      constructor
      · intro h _ _
        exact h.1.2
      · intro fits
        refine ⟨⟨ends, fits sized nonzero⟩, ?_⟩
        intro got w' answered
        have same : w' = w := by simpa [reading, hostfsPathmax] using answered
        rw [same]
        dsimp only
        split
        · trivial
        · exact wp_plain_true plain ends
    · rw [if_neg positive]
      constructor
      · intro _ _ _
        omega
      · intro _
        exact wp_plain_true plain ends
  · simp [sized]

end

/-! ## Dispatch -/

section
variable {c : HostFsCommand} {path : UsbRead} {w : Reading} {α : Type}

theorem plain_openFile (drive : Word) (path : Bytes) (mode mask : Word) :
    (openFile drive path mode mask).Only Call.Plain := by
  apply only_openFile plain_of_isLocal
  intro fullpath flags
  apply (calls_openPath fullpath flags mode mask).mono
  rintro c (rfl | ⟨fd, rfl⟩ | ⟨f, rfl⟩) <;> trivial

theorem plain_writeFid (fid : Int) (data : Bytes) : (writeFid fid data).Only Call.Plain := by
  apply (calls_writeFid fid data).mono
  rintro c (rfl | rfl) <;> trivial

theorem plain_closeFid (fid : Int) : (closeFid fid).Only Call.Plain := by
  apply (calls_closeFid fid).mono
  rintro c (rfl | rfl | ⟨f, rfl⟩) <;> trivial

theorem plain_lseekFid (fid : Int) (ofs : BitVec 64) (whence : Word) :
    (lseekFid fid ofs whence).Only Call.Plain := by
  apply (calls_lseekFid fid ofs whence).mono
  rintro c (rfl | rfl) <;> trivial

theorem plain_reply (c : HostFsCommand) (res : Word) : (reply c res).Only Call.Plain :=
  .ask trivial fun _ => .ret _

theorem plain_replyWith (c : HostFsCommand) (res : Word) (data : Bytes) :
    (replyWith c res data).Only Call.Plain := by
  obtain ⟨first, k, asks, rest⟩ := replies_replyWith (c := c) res data
  rw [asks]
  exact .ask trivial rest

theorem plain_local {p : Pc α} (h : Local p) : p.Only Call.Plain := h.mono plain_of_isLocal

theorem fits_of_bounded {g : Globals} {t : Bytes} (cap : payloadCap c = none) (other : c ≠ .read) :
    Fits g c t path where
  payload n at_c := by simp [cap] at at_c
  count read := absurd read other

theorem fits_of_payload {g : Globals} {t : Bytes} {cap : Nat} (at_c : payloadCap c = some cap)
    (other : c ≠ .read) : Fits g c t path ↔
      (t.length = commandSize c → (headerOf t).extralen ≠ 0 →
        (headerOf t).extralen.toInt ≤ cap ∧
          (cap = hostfsPathmax → Whole (headerOf t).extralen path → Terminated c path)) := by
  constructor
  · intro fits
    exact fits.payload cap at_c
  · intro holds
    constructor
    · intro n at_c'
      cases at_c.symm.trans at_c'
      exact holds
    · intro read
      exact absurd read other

theorem bound_of_readFid {fid : Int} {len : Nat} {R : Word × Bytes → Reading → Prop}
    (h : (readFid fid len).wp (reading c path) R w) (uses : Uses w.globals fid) :
    len ≤ hostfsMaxBlock := by
  simp only [readFid, ask_seq, if_pos (And.intro uses.1 uses.2.1)] at h
  have read := h.2 w.globals w ⟨rfl, rfl⟩
  simp only [if_pos uses.2.2] at read
  exact read.1.2

theorem wp_readFid {fid : Int} {len : Nat} (ends : w.ends)
    (fits : Uses w.globals fid → len ≤ hostfsMaxBlock) :
    (readFid fid len).wp (reading c path) (fun _ w => w.ends) w := by
  simp only [readFid, ask_seq]
  by_cases range : 0 ≤ fid ∧ fid < maxFiles
  · rw [if_pos range]
    refine ⟨⟨ends, trivial⟩, ?_⟩
    rintro g w' ⟨rfl, rfl⟩
    dsimp only
    by_cases opened : (w'.globals.openFiles fid.toNat).opened = true
    · rw [if_pos opened]
      refine ⟨⟨ends, fits ⟨range.1, range.2, opened⟩⟩, ?_⟩
      intro rets w'' same
      cases (same : w'' = w')
      dsimp only
      split <;> exact ends
    · rw [if_neg opened]
      exact ends
  · rw [if_neg range]
    exact ends

theorem wp_handleRead {cmd : HostFsReadCmd} {cmdlen : Nat} (ends : w.ends) :
    (handleRead cmd cmdlen).wp (reading c path) (fun _ _ => True) w ↔
      (cmdlen = sizeof HostFsReadCmd → Uses w.globals cmd.fid.toInt →
        cmd.len.toInt ≤ hostfsMaxBlock) := by
  unfold handleRead
  by_cases sized : cmdlen = sizeof HostFsReadCmd
  · rw [if_neg (by simp [sized])]
    by_cases empty : cmd.len.toInt ≤ 0
    · rw [if_pos empty]
      constructor
      · intro _ _ _
        omega
      · intro _
        trivial
    · rw [if_neg empty]
      have nonneg : cmd.len.toInt = cmd.len.toNat := by
        have := BitVec.toInt_eq_toNat_cond cmd.len
        have := cmd.len.isLt
        split at * <;> omega
      rw [nonneg, Prog.wp_bind]
      constructor
      · intro h _ uses
        exact Int.ofNat_le.2 (bound_of_readFid h uses)
      · intro fits
        apply Prog.wp_mono _ (wp_readFid ends fun uses => Int.ofNat_le.1 (fits sized uses))
        intro result w' ends
        exact wp_plain_true (plain_replyWith _ _ _) ends
  · simp [sized]

theorem pathmax_ne_block : hostfsMaxBlock ≠ hostfsPathmax := by decide

/-- A command keeps to the buffers exactly if its lengths fit and its path has its terminators. -/
theorem dispatch_inBuffer {t : Bytes} (command : HostFsCommand.ofCode (headerOf t).command = some c)
    (g : Globals) (path : UsbRead) :
    (dispatch t).wp (reading c path) (fun _ _ => True) ⟨g, True⟩ ↔ Fits g c t path := by
  have pathFits {size : Nat} (at_c : payloadCap c = some hostfsPathmax) (other : c ≠ .read)
      (sized : commandSize c = size) {p : Pc Int} (handled : p.wp (reading c path) (fun _ _ => True)
        ⟨g, True⟩ ↔ (t.length = size → (headerOf t).extralen ≠ 0 → (headerOf t).extralen.toInt ≤ hostfsPathmax ∧
          (Whole (headerOf t).extralen path → Terminated c path))) :
      p.wp (reading c path) (fun _ _ => True) ⟨g, True⟩ ↔ Fits g c t path := by
    rw [handled, fits_of_payload at_c other, sized]
    simp only [forall_true_left]
  have blockFits {size cap : Nat} (at_c : payloadCap c = some cap) (noPath : cap ≠ hostfsPathmax)
      (other : c ≠ .read) (sized : commandSize c = size) {p : Pc Int}
      (handled : p.wp (reading c path) (fun _ _ => True) ⟨g, True⟩ ↔
        (t.length = size → (headerOf t).extralen ≠ 0 → (headerOf t).extralen.toInt ≤ cap)) :
      p.wp (reading c path) (fun _ _ => True) ⟨g, True⟩ ↔ Fits g c t path := by
    rw [handled, fits_of_payload at_c other, sized]
    simp only [noPath, false_implies, and_true]
  have free {p : Pc Int} (plain : p.Only Call.Plain) (cap : payloadCap c = none) (other : c ≠ .read) :
      p.wp (reading c path) (fun _ _ => True) ⟨g, True⟩ ↔ Fits g c t path :=
    iff_of_true (wp_plain_true plain trivial) (fits_of_bounded cap other)
  have ofSize {p : Pc Int} {size : Nat} (plain : p.Only Call.Plain) :
      (if t.length ≠ size then return -1 else p : Pc Int).Only Call.Plain := by
    split
    · exact .ret _
    · exact plain
  unfold dispatch
  dsimp only
  rw [command]
  cases c with
  | hello => exact free (.ask trivial fun _ => .ret _) rfl nofun
  | bye => exact free (.ret _) rfl nofun
  | close => exact free (ofSize ((plain_closeFid _).bind fun _ => plain_reply _ _)) rfl nofun
  | lseek => exact free (ofSize ((plain_lseekFid _ _ _).bind fun _ => .ask trivial fun _ => .ret _)) rfl nofun
  | dclose => exact free (ofSize ((plain_local (local_dirClose _)).bind fun _ => plain_reply _ _)) rfl nofun
  | dread =>
      exact free (ofSize ((plain_local (local_nextDirent _)).bind fun _ => plain_replyWith _ _ _)) rfl nofun
  | openFile => exact pathFits rfl nofun rfl (wp_withPath trivial fun _ => plain_openFile _ _ _ _)
  | dopen => exact pathFits rfl nofun rfl (wp_withPath trivial fun _ => plain_local (local_dirOpen _ _))
  | remove | rmdir | mkdir =>
      exact pathFits rfl nofun rfl
        (wp_withPath trivial fun _ => plain_local (local_onPath _ _ _ fun _ => local_fsOp _))
  | chdir => exact pathFits rfl nofun rfl (wp_withPath trivial fun _ => plain_local (local_setCurrdir _ _))
  | chstat =>
      exact pathFits rfl nofun rfl
        (wp_withPath trivial fun _ => plain_local (local_onPath _ _ _ fun _ => local_pspChstat _ _))
  | rename =>
      exact pathFits rfl nofun rfl (wp_withPath_iff trivial fun _ =>
        wp_reply (plain_local (local_renamePaths _ _ _)) fun _ => replies_reply _)
  | getstat =>
      exact pathFits rfl nofun rfl (wp_withPath_iff trivial fun _ =>
        wp_reply (plain_local (local_statPath _ _)) fun _ => replies_replyWith _ _)
  | write =>
      exact blockFits rfl pathmax_ne_block nofun rfl (wp_withPayload pathmax_ne_block trivial fun _ =>
        (plain_writeFid _ _).bind fun _ => plain_reply _ _)
  | ioctl =>
      exact blockFits rfl pathmax_ne_block nofun rfl (wp_withControl trivial (plain_replyWith _ _ _))
  | devctl =>
      apply blockFits rfl pathmax_ne_block nofun rfl
      apply wp_withControl trivial
      split
      · apply (plain_local (local_getDriveInfo _)).bind
        intro info
        cases info <;> exact plain_replyWith _ _ _
      · exact plain_replyWith _ _ _
  | read =>
      refine (wp_handleRead trivial).trans ?_
      constructor
      · intro fits
        exact ⟨nofun, fun _ => fits⟩
      · intro fits
        exact fits.count rfl

/-! ## Bulk blocks -/

theorem toInt_readsize {n : Nat} (small : n ≤ hostfsMaxBlock) : (BitVec.ofNat 32 n).toInt = n := by
  rw [hostfsMaxBlock] at small
  have low : (BitVec.ofNat 32 n).toNat = n := by
    rw [BitVec.toNat_ofNat]
    omega
  rw [BitVec.toInt_eq_toNat_of_lt (by omega), low]

theorem wp_readBlocks {len : Nat} (fits : len ≤ hostfsBulkMaxwrite) (turns read : Nat) (block : Bytes)
    (aligned : hostfsMaxBlock ∣ read ∨ len ≤ read) (ends : w.ends) :
    (readBlocks len turns read block).wp (reading c path) (fun _ w => w.ends) w := by
  induction turns generalizing read block w with
  | zero => exact ends
  | succ turns ih =>
      simp only [readBlocks, usbBulkRead_seq]
      by_cases more : read < len
      · rw [if_pos more]
        have noPath : hostfsBulkMaxwrite - read ≠ hostfsPathmax := by
          obtain ⟨k, rfl⟩ := aligned.resolve_right (by omega)
          simp only [hostfsBulkMaxwrite, hostfsMaxBlock, hostfsPathmax]
          omega
        refine ⟨⟨ends, ?_⟩, ?_⟩
        · show (BitVec.ofNat 32 _).toInt ≤ _
          rw [toInt_readsize (Nat.min_le_left ..)]
          omega
        · intro got w' answered
          have same : w' = w := by
            have answered : (if hostfsBulkMaxwrite - read = hostfsPathmax then _ else w' = w) := answered
            rwa [if_neg noPath] at answered
          rw [same]
          dsimp only
          split
          · exact ends
          · apply ih _ _ _ ends
            by_cases last : len - read ≤ hostfsMaxBlock
            · right
              omega
            · left
              rw [Nat.min_eq_left (by omega)]
              exact Nat.dvd_add (aligned.resolve_right (by omega)) (Nat.dvd_refl _)
      · rw [if_neg more]
        exact ends

/-- Where every block arrives, the block after the last that fits is asked for. -/
theorem not_wp_readBlocks {len : Nat} (beyond : hostfsBulkMaxwrite < len) {turns read : Nat}
    (enough : len ≤ read + turns) (aligned : hostfsMaxBlock ∣ read) (room : read ≤ hostfsBulkMaxwrite)
    (block : Bytes) (R : Option Bytes → Reading → Prop) :
    ¬ (readBlocks len turns read block).wp (reading c path) R w := by
  induction turns generalizing read block w with
  | zero => omega
  | succ turns ih =>
      intro h
      simp only [readBlocks, usbBulkRead_seq] at h
      rw [if_pos (by omega)] at h
      have asked : (BitVec.ofNat 32 (min hostfsMaxBlock (len - read))).toInt ≤
          (hostfsBulkMaxwrite - read : Nat) := h.1.2
      rw [toInt_readsize (Nat.min_le_left ..)] at asked
      obtain ⟨k, rfl⟩ := aligned
      have full : min hostfsMaxBlock (len - hostfsMaxBlock * k) = hostfsMaxBlock ∧
          hostfsMaxBlock * k + hostfsMaxBlock ≤ hostfsBulkMaxwrite := by
        simp only [hostfsBulkMaxwrite, hostfsMaxBlock] at beyond room asked ⊢
        omega
      have noPath : hostfsBulkMaxwrite - hostfsMaxBlock * k ≠ hostfsPathmax := by
        simp only [hostfsBulkMaxwrite, hostfsMaxBlock, hostfsPathmax]
        omega
      let got : UsbRead := ⟨hostfsMaxBlock, List.replicate hostfsMaxBlock 0, [], .inl (by simp)⟩
      have arrived := h.2 got w (by
        show (if hostfsBulkMaxwrite - hostfsMaxBlock * k = hostfsPathmax then _ else w = w)
        rw [if_neg noPath])
      dsimp only at arrived
      rw [full.1, if_neg (by simp [got])] at arrived
      have positive : 0 < hostfsMaxBlock := by decide
      exact ih (by omega) (Nat.dvd_add (Nat.dvd_mul_right ..) (Nat.dvd_refl _)) full.2 _ arrived

theorem doBulk_inBuffer (t : Bytes) (g : Globals) :
    (doBulk t).wp (reading c path) (fun _ _ => True) ⟨g, True⟩ ↔
      (decode t : BulkCommand).size.toInt ≤ hostfsBulkMaxwrite := by
  unfold doBulk
  dsimp only
  rw [Prog.wp_bind]
  constructor
  · intro h
    by_contra beyond
    exact not_wp_readBlocks (by omega) (Nat.zero_add _).ge (Nat.dvd_zero _) (Nat.zero_le _) _ _ h
  · intro fits
    apply Prog.wp_mono _ (wp_readBlocks (by omega) _ _ _ (.inl (Nat.dvd_zero _)) trivial)
    intro block w ends
    apply wp_plain_true _ ends
    cases block with
    | none => exact .ret _
    | some block =>
        simp only [ask_seq]
        apply Prog.Only.ask trivial
        intro g
        split
        · split
          · exact .ask trivial fun _ => .ret _
          · exact .ret _
        · exact .ret _

end

/-! ## A turn of the command loop -/

/-- A transfer at the top of the loop that is looked at. -/
def Served (got : UsbRead) : Prop :=
  got.ret ≠ 0 ∧ got.ret ≠ -etimedout ∧ ¬ got.ret < 0 ∧ ¬ got.data.length < 4

def commandOf (t : Bytes) : HostFsCommand := (HostFsCommand.ofCode (headerOf t).command).getD .hello

structure InBounds (g : Globals) (got path : UsbRead) : Prop where
  command : Served got → magicOf got.data = hostfsMagic → ¬ got.data.length < sizeof HostFsCmd →
    ∀ c, HostFsCommand.ofCode (headerOf got.data).command = some c → Fits g c got.data path
  bulk : Served got → magicOf got.data = bulkMagic → ¬ got.data.length < sizeof BulkCommand →
    (decode got.data : BulkCommand).size.toInt ≤ hostfsBulkMaxwrite

section
variable {c : HostFsCommand} {path : UsbRead} {w : Reading}

theorem wp_then {α β : Type} {p : Pc α} {b : β} :
    (p >>= fun _ => pure b).wp (reading c path) (fun _ _ => True) w ↔
      p.wp (reading c path) (fun _ _ => True) w :=
  Prog.wp_bind _ _ _ _

end

theorem serve_inBuffer (g : Globals) (got path : UsbRead) :
    (serve got).wp (reading (commandOf got.data) path) (fun _ _ => True) ⟨g, True⟩ ↔
      InBounds g got path := by
  by_cases served : Served got
  · obtain ⟨nonzero, inTime, ok, enough⟩ := id served
    unfold serve
    rw [if_neg nonzero, if_neg inTime, if_neg ok, if_neg enough]
    by_cases hostfs : magicOf got.data = hostfsMagic
    · have noBulk : magicOf got.data ≠ bulkMagic := by
        rw [hostfs]
        decide
      rw [if_pos hostfs]
      by_cases short : got.data.length < sizeof HostFsCmd
      · rw [if_pos short]
        exact iff_of_true trivial ⟨fun _ _ enough => absurd short enough, fun _ bulk => absurd bulk noBulk⟩
      · rw [if_neg short, doHostfs, wp_then, wp_then]
        cases command : HostFsCommand.ofCode (headerOf got.data).command with
        | none =>
            apply iff_of_true
            · rw [dispatch, command]
              trivial
            · exact ⟨fun _ _ _ c other => by simp [command] at other, fun _ bulk => absurd bulk noBulk⟩
        | some c =>
            rw [commandOf, command, Option.getD_some, dispatch_inBuffer command]
            constructor
            · intro fits
              refine ⟨?_, fun _ bulk => absurd bulk noBulk⟩
              intro _ _ _ c' same
              cases command.symm.trans same
              exact fits
            · intro bounds
              exact bounds.command served hostfs short c command
    · rw [if_neg hostfs]
      by_cases async : magicOf got.data = asyncMagic
      · have noBulk : magicOf got.data ≠ bulkMagic := by
          rw [async]
          decide
        rw [if_pos async]
        apply iff_of_true
        · split
          · trivial
          · exact wp_then.2 (wp_plain_true (plain_local (local_doAsync _)) trivial)
        · exact ⟨fun _ same => absurd same hostfs, fun _ bulk => absurd bulk noBulk⟩
      · rw [if_neg async]
        by_cases bulk : magicOf got.data = bulkMagic
        · rw [if_pos bulk]
          by_cases short : got.data.length < sizeof BulkCommand
          · rw [if_pos short]
            exact iff_of_true trivial ⟨fun _ same => absurd same hostfs, fun _ _ enough => absurd short enough⟩
          · rw [if_neg short, wp_then, doBulk_inBuffer]
            constructor
            · intro fits
              exact ⟨fun _ same => absurd same hostfs, fun _ _ _ => fits⟩
            · intro bounds
              exact bounds.bulk served bulk short
        · rw [if_neg bulk]
          exact iff_of_true trivial ⟨fun _ same => absurd same hostfs, fun _ same => absurd same bulk⟩
  · apply iff_of_true
    · unfold serve
      repeat' split
      all_goals first | trivial | exact absurd ⟨‹_›, ‹_›, ‹_›, ‹_›⟩ served
    · exact ⟨fun yes => absurd yes served, fun yes => absurd yes served⟩

def longOpen : HostFsOpenCmd := ⟨⟨hostfsMagic, HostFsCommand.openFile.code, 4097⟩, 1, 0, 0⟩

/-- A path of one byte more than its buffer. -/
theorem open_not_inBuffer :
    ¬ (dispatch (encode longOpen)).wp (reading .openFile silence) (fun _ _ => True)
      ⟨zeroGlobals, True⟩ := by
  have header : headerOf (encode longOpen) = longOpen.cmd := headerOf_encode longOpen
  intro h
  rw [dispatch_inBuffer (ofCode_encode longOpen rfl)] at h
  have long := (h.payload hostfsPathmax rfl (Packed.length_encode longOpen) (by rw [header]; decide)).1
  rw [header] at long
  exact absurd long (by decide)

end Psplink.HostFs
