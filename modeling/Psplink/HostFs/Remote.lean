import Psplink.HostFs.Link

/-!
# The driver and the daemon together

The PSP's calls answered by a link that delivers, behind which the daemon takes a turn of its loop
whenever the PSP waits for a response. Below the daemon are files, whose `read(2)` and `write(2)`
are as short and as often interrupted as they like.
-/

namespace Psplink.HostFs
open Psplink.Lib

/-! ## Files -/

/-- How one `read(2)` comes out where it does not give all it could: interrupted, or cut to so many bytes and one. -/
inductive Split
  | eintr
  | short (n : Nat)

structure HostFile where
  content : Bytes
  pos : Nat
  /-- What `write(2)` has taken, in order. -/
  written : Bytes

def HostFile.left (f : HostFile) : Bytes := f.content.drop f.pos

/-- `read(2)` of as many bytes. -/
def HostFile.take (f : HostFile) (n : Nat) : Bytes × HostFile :=
  (f.left.take n, { f with pos := f.pos + (f.left.take n).length })

/-- The returns of the successive `read(2)` calls until there are `want` bytes or no more. -/
def HostFile.reads : List Split → (want : Nat) → HostFile → List ReadResult × HostFile
  | [], want, f => ([.bytes (f.take want).1], (f.take want).2)
  | .eintr :: splits, want, f => (.eintr :: (f.reads splits want).1, (f.reads splits want).2)
  | .short n :: splits, want, f =>
      let got := f.take (min (n + 1) want)
      (.bytes got.1 :: (got.2.reads splits (want - got.1.length)).1, (got.2.reads splits (want - got.1.length)).2)

/-- How many bytes the successive `write(2)` calls take of `len`, when so many are taken. -/
def taken : List WriteResult → (byteswrite len : Nat) → Nat
  | [], byteswrite, _ => byteswrite
  | r :: rest, byteswrite, len =>
      if byteswrite < len then
        match r with
        | .eintr => taken rest byteswrite len
        | .error _ => byteswrite
        | .count 0 => byteswrite
        | .count n => taken rest (byteswrite + min n (len - byteswrite)) len
      else byteswrite

def HostFile.write (f : HostFile) (rets : List WriteResult) (data : Bytes) : HostFile :=
  { f with written := f.written ++ data.take (taken rets 0 data.length) }

/-! ## Environments -/

structure Remote where
  globals : Globals
  files : Nat → HostFile
  /-- What comes of the system calls of the next `fixed_read`, of the one after it, and so on. -/
  splits : Nat → List Split
  /-- The same for `fixed_write`. -/
  rets : Nat → List WriteResult
  /-- Transfers on their way to the PC. -/
  sent : List Bytes
  /-- Bytes on their way to the PSP. -/
  replies : Bytes

/-- The daemon's calls; those that neither transfer nor touch an open file are answered in any way. -/
def pcAnswer (other : (c : Call) → c.Answer) : (c : Call) → Remote → c.Answer × Remote
  | .usbBulkRead _ size, w =>
      match w.sent with
      | [] => (silence, w)
      | t :: sent => (delivered (t.take size.toNat) [], { w with sent := sent })
  | .usbBulkWrite data, w => ((data.length : Int), { w with replies := w.replies ++ data })
  | .load, w => (w.globals, w)
  | .modify f, w => ((), { w with globals := f w.globals })
  | .read fd _ len, w =>
      (((w.files fd).reads (w.splits 0) len).1,
        { w with
          files := Function.update w.files fd ((w.files fd).reads (w.splits 0) len).2
          splits := fun i => w.splits (i + 1) })
  | .write fd data, w =>
      (w.rets 0,
        { w with
          files := Function.update w.files fd ((w.files fd).write (w.rets 0) data)
          rets := fun i => w.rets (i + 1) })
  | c, w => (other c, w)

def pcTurn (other : (c : Call) → c.Answer) (w : Remote) : Remote :=
  ((startHostfs .commands).interp (pcAnswer other) w).2

/-- Who waits for a response lets the daemon run. -/
def awaited (other : (c : Call) → c.Answer) (w : Remote) : Remote := if w.replies = [] then pcTurn other w else w

def pspAnswer (other : (c : Call) → c.Answer) : (c : PspCall) → Remote → c.Answer × Remote
  | .waitSema, w => (true, w)
  | .signalSema, w => ((), w)
  | .usbConnected, w => (true, w)
  | .bulkin data, w => (some data.length, { w with sent := w.sent ++ [data] })
  | .bulkout size _, w =>
      if (awaited other w).replies = [] then (none, awaited other w)
      else (some ((awaited other w).replies.take size),
        { awaited other w with replies := (awaited other w).replies.drop size })

variable {other : (c : Call) → c.Answer}

/-- A daemon with the files opened, and one file for all of them. -/
def Remote.withFile (content : Bytes) (splits : List Split) (rets : Nat → List WriteResult) : Remote where
  globals := { zeroGlobals with openFiles := fun _ => ⟨true, 0, none⟩ }
  files := fun _ => ⟨content, 0, []⟩
  splits := fun _ => splits
  rets := rets
  sent := []
  replies := []

/-- A descriptor that the daemon has opened. -/
structure Remote.Opened (w : Remote) (fd : Word) : Prop where
  valid : 0 ≤ fd.toInt ∧ fd.toInt < maxFiles
  opened : (w.globals.openFiles fd.toInt.toNat).opened = true

/-- Nothing is on its way. -/
structure Remote.Idle (w : Remote) : Prop where
  sent : w.sent = []
  replies : w.replies = []

theorem Remote.Idle.emptied {w : Remote} (idle : w.Idle) : { w with sent := [], replies := [] } = w := by
  obtain ⟨globals, files, splits, rets, sent, replies⟩ := w
  cases idle.sent
  cases idle.replies
  rfl

/-! ## Counts -/

theorem count_small {n : Nat} (block : n ≤ hostfsMaxBlock) : n < 2 ^ 31 := by
  rw [hostfsMaxBlock] at block
  omega

/-! ## Exchanges -/

def remoteLine (other : (c : Call) → c.Answer) : Line Remote where
  sent := Remote.sent
  replies := Remote.replies
  put sent replies w := { w with sent := sent, replies := replies }
  turn := pcTurn other
  sent_put _ _ _ := rfl
  replies_put _ _ _ := rfl
  put_put _ _ _ _ _ := rfl
  put_self _ := rfl

theorem pspAnswer_eq (other : (c : Call) → c.Answer) : pspAnswer other = (remoteLine other).answer := by
  funext c w
  cases c <;> rfl

theorem remote_request {R : Type} [Packed R] [Headed R] {inlen : Int} {resp : R} {data : Bytes} {C : Type} [Packed C]
    {cmd : C} {outdata : Bytes} {w : Remote} (w' : Remote)
    (command : (encode cmd).length ≤ txBuf ∧ encode cmd ≠ []) (small : outdata.length ≤ txBuf)
    (positive : 0 < sizeof R) (magic : (Headed.cmd resp).magic = hostfsMagic)
    (announced : (Headed.cmd resp).extralen.toInt = data.length) (wanted : data ≠ [] → 0 < inlen)
    (sent : w.sent = []) (replies : w.replies = [])
    (turn : pcTurn other { w with sent := transfers (encode cmd) outdata } = { w' with replies := encode resp ++ data }) :
    (request R cmd outdata inlen).interp (pspAnswer other) w = (some (resp, data), { w' with replies := [] }) := by
  rw [pspAnswer_eq]
  refine (remoteLine other).request w' (s := w'.sent) command small positive magic announced wanted sent replies ?_
  have put : (remoteLine other).put (transfers (encode cmd) outdata) [] w =
      { w with sent := transfers (encode cmd) outdata } := by
    rw [← replies]
    rfl
  rw [put]
  exact turn

/-! ## Blocks -/

def blockSizes (len : Nat) : List Nat :=
  List.replicate (len / hostfsMaxBlock) hostfsMaxBlock ++
    if 0 < len % hostfsMaxBlock then [len % hostfsMaxBlock] else []

theorem sum_blockSizes (len : Nat) : (blockSizes len).sum = len := by
  rw [blockSizes, List.sum_append, List.sum_replicate_nat, Nat.mul_comm]
  split
  · exact Nat.div_add_mod len hostfsMaxBlock
  · have whole : len % hostfsMaxBlock = 0 := by omega
    have parts := Nat.div_add_mod len hostfsMaxBlock
    rwa [whole] at parts

theorem blockSizes_bounds {len size : Nat} (member : size ∈ blockSizes len) : 0 < size ∧ size ≤ hostfsMaxBlock := by
  obtain whole | residual := List.mem_append.mp member
  · rw [List.eq_of_mem_replicate whole]
    exact ⟨by decide, Nat.le_refl _⟩
  · split at residual
    · rename_i positive
      rw [List.mem_singleton.mp residual]
      exact ⟨positive, (Nat.mod_lt _ (by decide)).le⟩
    · exact absurd residual (List.not_mem_nil)

/-- The blocks of a transfer and the residual block, one after the other. -/
def moveBlocks (step : (ofs len : Nat) → Bytes → Psp (Option Word × Bytes)) :
    List Nat → (ret : Word) → (mem : Bytes) → Psp (Word × Bytes)
  | [], ret, mem => return (ret, mem)
  | size :: sizes, ret, mem => do
      let moved ← step ret.toNat size mem
      let after := afterBlock ret moved.1
      if after.1 then moveBlocks step sizes after.2 moved.2 else return (after.2, moved.2)

section

variable {W : Type} (h : (c : PspCall) → W → c.Answer × W) (step : (ofs len : Nat) → Bytes → Psp (Option Word × Bytes))

theorem blockLoop_seq {next : Bool × Word × Bytes → Psp (Word × Bytes)} {sizes : List Nat}
    (whole : ∀ ret mem w, (next (true, ret, mem)).interp h w = (moveBlocks step sizes ret mem).interp h w)
    (stopped : ∀ ret mem, next (false, ret, mem) = return (ret, mem)) (blocks : Nat) (ret : Word) (mem : Bytes) (w : W) :
    (blockLoop step blocks ret mem >>= next).interp h w =
      (moveBlocks step (List.replicate blocks hostfsMaxBlock ++ sizes) ret mem).interp h w := by
  induction blocks generalizing ret mem w with
  | zero => exact whole ret mem w
  | succ blocks ih =>
      rw [List.replicate_succ, List.cons_append, moveBlocks, blockLoop, Prog.interp_bind, Prog.interp_bind,
        Prog.interp_bind]
      generalize (step ret.toNat hostfsMaxBlock mem).interp h w = moved
      obtain ⟨⟨res, mem'⟩, w'⟩ := moved
      dsimp only
      generalize afterBlock ret res = after
      obtain ⟨goes_on, ret'⟩ := after
      cases goes_on with
      | true => rw [← Prog.interp_bind, ih, if_pos rfl]
      | false => exact congrArg (fun p => Prog.interp h p w') (stopped ret' mem')

theorem transfer_blocks (len : Nat) (mem : Bytes) (w : W) :
    (transfer step len mem).interp h w = (moveBlocks step (blockSizes len) 0 mem).interp h w := by
  refine blockLoop_seq h step (fun ret mem w => ?_) (fun ret mem => rfl) _ 0 mem w
  by_cases more : 0 < len % hostfsMaxBlock
  · simp only [more, and_self, if_true, moveBlocks, Prog.interp_bind, Prog.pure_def, ite_self]
  · simp only [more, and_false, if_false, moveBlocks]

end

/-! ## The daemon's turn -/

theorem pcTurn_command {C : Type} [Packed C] [Headed C] (cmd : C) (whole : sizeof HostFsCmd ≤ sizeof C)
    (small : sizeof C ≤ 512) (magic : (Headed.cmd cmd).magic = hostfsMagic) (more : List Bytes) (w : Remote) :
    pcTurn other { w with sent := encode cmd :: more } =
      ((dispatch (encode cmd)).interp (pcAnswer other) { w with sent := more }).2 := by
  have all : (encode cmd).take (512 : Word).toNat = encode cmd := by
    rw [List.take_of_length_le]
    rwa [Packed.length_encode]
  refine turn_command whole magic ?_
  simp only [pcAnswer, all]
  rfl

end Psplink.HostFs
