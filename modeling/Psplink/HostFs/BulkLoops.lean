import Psplink.HostFs.Driver
import Psplink.Lib.Flat

/-!
# The bulk loops in memory

`read_data` and `write_data` of usbhostfs/main.c with the memory that they move a pointer through, one request at a
time: what has gone over the USB link when they return, and what they have touched.
-/

namespace Psplink.HostFs.Bulk
open Psplink.Lib Psplink.Lib.Flat

/-! ## The code -/

/-- What `sceKernelWaitEventFlag` returns, and what the request then says. -/
structure Completion where
  ret : Int
  retcode : Int
  recvsize : Int

def Completion.Done (c : Completion) : Prop := c.ret = 0 ∧ c.retcode = 0 ∧ 0 < c.recvsize

instance (c : Completion) : Decidable c.Done := inferInstanceAs (Decidable (_ ∧ _ ∧ _))

inductive BulkCall
  | memcpy (dst src : Addr) (n : Nat)
  | sceUsbbdReqSend (data : Addr) (size : Nat)
  | sceUsbbdReqRecv (data : Addr) (size : Nat)
  | waitBulkin
  | waitBulkout

@[reducible] def BulkCall.Answer : BulkCall → Type
  | .memcpy .. => Unit
  | .sceUsbbdReqSend .. | .sceUsbbdReqRecv .. => Int
  | .waitBulkin | .waitBulkout => Completion

abbrev Code := Prog BulkCall BulkCall.Answer

/-- `tx_buf`, and the data of a call, which is no part of it. -/
structure Buffers where
  tx : Addr
  data : Addr
  size : Word
  aligned : tx &&& 63 = 0
  apart : Apart data size.toInt.toNat tx txBuf

def Buffers.length (b : Buffers) : Nat := b.size.toInt.toNat

def memcpy (dst src : Addr) (n : Nat) : Code Unit := Prog.call (BulkCall.memcpy dst src n)
def waitBulkin : Code Completion := Prog.call BulkCall.waitBulkin
def waitBulkout : Code Completion := Prog.call BulkCall.waitBulkout

def setBulkinReq (data : Addr) (size : Nat) : Code Int := Prog.call (BulkCall.sceUsbbdReqSend data size)

def setBulkoutReq (data : Addr) (size : Nat) : Code Int :=
  if data &&& ~~~63 ≠ data then return -1 else Prog.call (BulkCall.sceUsbbdReqRecv data size)

/-- A turn takes at least one byte, so there are turns enough when there are as many as bytes. -/
def readLoop (b : Buffers) : (turns : Nat) → (data : Addr) → (readlen : Nat) → Code Int
  | 0, _, readlen => return readlen
  | turns + 1, data, readlen => do
      if readlen < b.length then
        let nextsize := min txBuf (b.length - readlen)
        if (← setBulkoutReq b.tx nextsize) < 0 then return -1
        let req ← waitBulkout
        if req.Done then
          memcpy data b.tx req.recvsize.toNat
          readLoop b turns (offset data req.recvsize.toNat) (readlen + req.recvsize.toNat)
        else return -1
      else return readlen

def readData (b : Buffers) : Code Int := readLoop b b.length b.data 0

/-- Where the two loops of `write_data` differ. -/
def sendNext (b : Buffers) (staged : Bool) (data : Addr) (nextsize : Nat) : Code Unit := do
  if staged then
    memcpy b.tx data nextsize
    let _ ← setBulkinReq b.tx nextsize
  else
    let _ ← setBulkinReq data nextsize

def writeLoop (b : Buffers) (staged : Bool) : (turns : Nat) → (data : Addr) → (writelen : Nat) → Code Int
  | 0, _, writelen => return writelen
  | turns + 1, data, writelen => do
      if writelen < b.length then
        sendNext b staged data (min txBuf (b.length - writelen))
        let req ← waitBulkin
        if req.Done then
          writeLoop b staged turns (offset data req.recvsize.toNat) (writelen + req.recvsize.toNat)
        else return -1
      else return writelen

def writeData (b : Buffers) : Code Int := writeLoop b (b.data &&& 63 ≠ 0) b.length b.data 0

/-! ## The link -/

/-- `failed`: a request was refused or its completion failed. `received` is what came with the others. -/
structure Transfers where
  mem : Flat
  request : Option (Addr × Nat) := none
  sent : Bytes := []
  received : Bytes := []
  failed : Bool := false

/-- The bytes are in the data, or in `tx_buf`. -/
def Buffers.Within (b : Buffers) (a : Addr) (n : Nat) : Prop := ∀ x, In a n x → In b.data b.length x ∨ In b.tx txBuf x

/-- Every access is in the buffers, and a request is made only if none has failed. A request that is accepted completes with
at most its size. -/
def bulk (b : Buffers) : Prog.Contract BulkCall BulkCall.Answer Transfers where
  pre w
    | .memcpy dst src n => b.Within dst n ∧ b.Within src n
    | .sceUsbbdReqSend data size | .sceUsbbdReqRecv data size =>
        w.failed = false ∧ 0 < size ∧ size ≤ txBuf ∧ b.Within data size
    | .waitBulkin | .waitBulkout => True
  post w
    | .memcpy dst src n, _, w' => w' = { w with mem := store w.mem dst (bytesAt w.mem src n) }
    | .sceUsbbdReqSend data size, ret, w' | .sceUsbbdReqRecv data size, ret, w' =>
        w' = if 0 ≤ ret then { w with request := some (data, size) } else { w with request := none, failed := true }
    | .waitBulkin, req, w' => ∃ data size, w.request = some (data, size) ∧ w'.mem = w.mem ∧
        if req.Done then
          req.recvsize ≤ size ∧ w'.failed = w.failed ∧ w'.sent = w.sent ++ bytesAt w.mem data req.recvsize.toNat
        else w'.failed = true
    | .waitBulkout, req, w' => ∃ data size block, w.request = some (data, size) ∧ block.length ≤ size ∧
        w'.mem = store w.mem data block ∧
        if req.Done then
          req.recvsize = block.length ∧ w'.failed = w.failed ∧ w'.received = w.received ++ block
        else w'.failed = true ∧ w'.received = w.received

variable {b : Buffers} {mem : Flat} {w w' : Transfers} {staged : Bool} {turns done : Nat}

theorem Buffers.length_small (b : Buffers) : b.length < 2 ^ 31 := by
  have := @BitVec.toInt_lt 32 b.size
  unfold length
  omega

theorem Buffers.within_data {n : Nat} (fits : done + n ≤ b.length) : b.Within (offset b.data done) n := fun _ inside =>
  .inl (in_of_offset fits (by have := b.length_small; omega) inside)

theorem Buffers.within_tx {n : Nat} (fits : n ≤ txBuf) : b.Within b.tx n := fun _ inside =>
  .inr (Nat.lt_of_lt_of_le inside fits)

/-! ## Sending -/

/-- The memory outside of `tx_buf` is as it was. -/
def Same (b : Buffers) (mem mem' : Flat) : Prop := ∀ x, ¬ In b.tx txBuf x → mem' x = mem x

theorem Same.bytesAt {mem' : Flat} (same : Same b mem mem') {n : Nat} (fits : done + n ≤ b.length) :
    bytesAt mem' (offset b.data done) n = bytesAt mem (offset b.data done) n := by
  have small : b.length ≤ 2 ^ 32 := b.length_small.le.trans (by decide)
  refine bytesAt_congr (by omega) fun x inside => same x ?_
  exact b.apart x (in_of_offset fits small inside)

def Wrote (b : Buffers) (mem : Flat) (ret : Int) (w : Transfers) : Prop :=
  Same b mem w.mem ∧ if w.failed then ret = -1 else ret = b.length ∧ w.sent = bytesAt mem b.data b.length

theorem Wrote.of_all (same : Same b mem w.mem) (good : w.failed = false) (sent : w.sent = bytesAt mem b.data done)
    (all : b.length = done) : Wrote b mem done w := by
  refine ⟨same, ?_⟩
  rw [good, all]
  exact ⟨rfl, sent⟩

/-- Either way the next bytes of the data are what is offered. -/
theorem sendNext_wp {R : Unit → Transfers → Prop} {next : Nat} (most : next ≤ txBuf) (some_ : 0 < next)
    (fits : done + next ≤ b.length) (same : Same b mem w.mem) (good : w.failed = false)
    (offered : ∀ w' : Transfers, Same b mem w'.mem → w'.sent = w.sent →
      (∀ data size, w'.request = some (data, size) → w'.failed = false ∧
        size = next ∧ bytesAt w'.mem data next = bytesAt mem (offset b.data done) next) → R () w') :
    (sendNext b staged (offset b.data done) next).wp (bulk b) R w := by
  unfold sendNext setBulkinReq
  cases staged with
  | true =>
      refine ⟨⟨b.within_tx most, b.within_data fits⟩, fun _ w₁ copied => ?_⟩
      obtain rfl := copied
      have length := length_bytesAt w.mem (offset b.data done) next
      have same' : Same b mem (store w.mem b.tx (bytesAt w.mem (offset b.data done) next)) := by
        refine fun x outside => (store_outside fun inside => outside ?_).trans (same x outside)
        rw [length] at inside
        exact Nat.lt_of_lt_of_le inside most
      have copied := @bytesAt_store w.mem b.tx (bytesAt w.mem (offset b.data done) next)
        (by rw [length]; exact most.trans (by decide))
      rw [length] at copied
      refine ⟨⟨good, some_, most, b.within_tx most⟩, ?_⟩
      rintro ret _ rfl
      split
      · refine offered _ same' rfl fun data size request => ?_
        obtain ⟨rfl, rfl⟩ := Prod.mk.inj (Option.some.inj request)
        exact ⟨good, rfl, copied.trans (same.bytesAt fits)⟩
      · exact offered _ same' rfl nofun
  | false =>
      refine ⟨⟨good, some_, most, b.within_data fits⟩, ?_⟩
      rintro ret _ rfl
      split
      · refine offered _ same rfl fun data size request => ?_
        obtain ⟨rfl, rfl⟩ := Prod.mk.inj (Option.some.inj request)
        exact ⟨good, rfl, same.bytesAt fits⟩
      · exact offered _ same rfl nofun

theorem writeLoop_wp (enough : b.length ≤ done + turns) (le : done ≤ b.length) (same : Same b mem w.mem)
    (good : w.failed = false) (sent : w.sent = bytesAt mem b.data done) :
    (writeLoop b staged turns (offset b.data done) done).wp (bulk b) (Wrote b mem) w := by
  induction turns generalizing done w with
  | zero => exact .of_all same good sent (by omega)
  | succ turns ih =>
      rw [writeLoop]
      split
      · next more =>
        rw [Prog.wp_bind]
        have fits : done + min txBuf (b.length - done) ≤ b.length := by omega
        refine sendNext_wp (Nat.min_le_left _ _) ?_ fits same good fun w₁ same₁ sent₁ offered => ?_
        · exact Nat.lt_min.mpr ⟨by decide, Nat.sub_pos_of_lt more⟩
        refine ⟨trivial, fun req w₂ completed => ?_⟩
        obtain ⟨data, size, request, mem₂, completed⟩ := completed
        obtain ⟨good₁, rfl, bytes⟩ := offered data size request
        change (if req.Done then writeLoop b staged turns _ _ else return -1).wp (bulk b) (Wrote b mem) w₂
        split
        · next finished =>
          rw [if_pos finished] at completed
          obtain ⟨most, good₂, sent₂⟩ := completed
          have most : req.recvsize.toNat ≤ min txBuf (b.length - done) := by omega
          rw [offset_offset]
          have sent' : w₂.sent = bytesAt mem b.data (done + req.recvsize.toNat) := by
            have whole := @take_bytesAt mem b.data (done + req.recvsize.toNat) done (Nat.le_add_right _ _)
            have rest := drop_bytesAt mem b.data (done + req.recvsize.toNat) done
            rw [Nat.add_sub_cancel_left] at rest
            rw [sent₂, sent₁, sent, ← take_bytesAt most, bytes, take_bytesAt most, ← whole, ← rest, List.take_append_drop]
          exact ih (by have := finished.2.2; omega) (by omega) (by rwa [mem₂]) (by rw [good₂, good₁]) sent'
        · next failed =>
          rw [if_neg failed] at completed
          refine ⟨by rwa [mem₂], ?_⟩
          rw [completed]
          rfl
      · next all => exact .of_all same good sent (by omega)

theorem writeData_wp (b : Buffers) (mem : Flat) : (writeData b).wp (bulk b) (Wrote b mem) { mem } := by
  have run := @writeLoop_wp b mem { mem } (decide (b.data &&& 63 ≠ 0)) b.length 0 (by omega) (Nat.zero_le _)
    (fun _ _ => rfl) rfl rfl
  rwa [offset_zero] at run

/-! ## Receiving -/

/-- The bytes stand in the data from its start on, and the memory outside of `tx_buf` is otherwise as it was. -/
def Filled (b : Buffers) (mem : Flat) (got : Bytes) (w : Transfers) : Prop :=
  w.received = got ∧ got.length ≤ b.length ∧ Same b (store mem b.data got) w.mem

def Read (b : Buffers) (mem : Flat) (ret : Int) (w : Transfers) : Prop :=
  ∃ got, Filled b mem got w ∧ if w.failed then ret = -1 else ret = b.length ∧ got.length = b.length

theorem Read.of_all {got : Bytes} (filled : Filled b mem got w) (good : w.failed = false) (all : b.length = got.length) :
    Read b mem got.length w := by
  refine ⟨got, filled, ?_⟩
  rw [good, all]
  exact ⟨rfl, rfl⟩

/-- `tx_buf` passes the check for an address that is on a cache line. -/
theorem setBulkoutReq_tx (b : Buffers) (size : Nat) :
    setBulkoutReq b.tx size = Prog.call (BulkCall.sceUsbbdReqRecv b.tx size) := by
  refine if_neg (not_not.mpr ?_)
  calc b.tx &&& ~~~63 = (b.tx &&& 63) ||| (b.tx &&& ~~~63) := by
        rw [b.aligned]
        exact BitVec.zero_or.symm
    _ = b.tx := by rw [← BitVec.and_or_distrib_left, BitVec.or_not_self, BitVec.and_allOnes]

/-- What came into `tx_buf` is put behind what is there. -/
theorem Same.append {mem' : Flat} {got block : Bytes} (same : Same b (store mem b.data got) mem')
    (fits : got.length + block.length ≤ b.length) (most : block.length ≤ txBuf) :
    Same b (store mem b.data (got ++ block)) (store (store mem' b.tx block) (offset b.data got.length) block) := by
  have small := b.length_small
  intro x outside
  rw [store_append (by omega)]
  by_cases inside : In (offset b.data got.length) block.length x
  · exact store_congr inside
  · rw [store_outside inside, store_outside inside, store_outside fun there => outside (Nat.lt_of_lt_of_le there most)]
    exact same x outside

theorem readLoop_wp {got : Bytes} (enough : b.length ≤ got.length + turns) (filled : Filled b mem got w)
    (good : w.failed = false) :
    (readLoop b turns (offset b.data got.length) got.length).wp (bulk b) (Read b mem) w := by
  have le := filled.2.1
  induction turns generalizing got w with
  | zero => exact .of_all filled good (by omega)
  | succ turns ih =>
      rw [readLoop]
      split
      · next more =>
        have most : min txBuf (b.length - got.length) ≤ txBuf := Nat.min_le_left _ _
        dsimp only
        rw [setBulkoutReq_tx]
        refine ⟨⟨good, Nat.lt_min.mpr ⟨by decide, Nat.sub_pos_of_lt more⟩, most, b.within_tx most⟩, ?_⟩
        rintro ret _ rfl
        change (if ret < 0 then return -1 else _ : Code Int).wp (bulk b) (Read b mem) _
        split
        · next refused =>
          rw [if_neg (Int.not_le.mpr refused)]
          exact ⟨got, filled, rfl⟩
        · next accepted =>
          rw [if_pos (Int.not_lt.mp accepted)]
          refine ⟨trivial, fun req w₂ completed => ?_⟩
          obtain ⟨data, size, block, request, fits, mem₂, completed⟩ := completed
          obtain ⟨rfl, rfl⟩ := Prod.mk.inj (Option.some.inj request)
          change (if req.Done then _ else return -1 : Code Int).wp (bulk b) (Read b mem) w₂
          split
          · next finished =>
            rw [if_pos finished] at completed
            obtain ⟨count, good₂, received⟩ := completed
            have count : req.recvsize.toNat = block.length := by omega
            have some_ : 0 < block.length := by
              have := finished.2.2
              omega
            have fits' : got.length + block.length ≤ b.length := by omega
            rw [count]
            refine ⟨⟨b.within_data fits', b.within_tx (fits.trans most)⟩, ?_⟩
            intro _ w₃ copied
            have mem₃ : w₃.mem = store (store w.mem b.tx block) (offset b.data got.length) block := by
              rw [copied]
              dsimp only
              rw [mem₂, bytesAt_store w.mem b.tx ((fits.trans most).trans (by decide))]
            have good₃ : w₃.failed = false := by
              rw [copied]
              exact good₂.trans good
            have filled₃ : Filled b mem (got ++ block) w₃ := by
              refine ⟨?_, by rwa [List.length_append], mem₃ ▸ filled.2.2.append fits' (fits.trans most)⟩
              rw [copied]
              exact received.trans (congrArg (· ++ block) filled.1)
            rw [offset_offset, ← List.length_append]
            exact ih (by rw [List.length_append]; omega) filled₃ good₃ filled₃.2.1
          · next failed =>
            rw [if_neg failed] at completed
            refine ⟨got, ?_, ?_⟩
            · refine ⟨completed.2.trans filled.1, filled.2.1, fun x outside => ?_⟩
              rw [mem₂, store_outside fun inside => outside (Nat.lt_of_lt_of_le inside (fits.trans most))]
              exact filled.2.2 x outside
            · rw [completed.1]
              rfl
      · next all => exact .of_all filled good (by omega)

theorem readData_wp (b : Buffers) (mem : Flat) : (readData b).wp (bulk b) (Read b mem) { mem } := by
  have filled : Filled b mem [] { mem } := ⟨rfl, Nat.zero_le _, fun _ _ => rfl⟩
  have run := @readLoop_wp b mem { mem } b.length [] (by simp) filled rfl
  rwa [List.length_nil, offset_zero] at run

/-! ## The loops on bytes -/

section OnLink

variable {W : Type}

structure OnLink (W : Type) where
  mem : Flat
  link : W
  request : Option (Addr × Nat) := none
  got : Nat := 0

/-- The requests over a link that knows bytes only. -/
def onLink (b : Buffers) (h : (c : PspCall) → W → c.Answer × W) : (c : BulkCall) → OnLink W → c.Answer × OnLink W
  | .memcpy dst src n, s => ((), { s with mem := store s.mem dst (bytesAt s.mem src n) })
  | .sceUsbbdReqSend data size, s | .sceUsbbdReqRecv data size, s => (0, { s with request := some (data, size) })
  | .waitBulkin, s =>
      match s.request with
      | none => (⟨-1, 0, 0⟩, s)
      | some (data, size) =>
          match h (.bulkin (bytesAt s.mem data size)) s.link with
          | (some count, link) => (⟨0, 0, count⟩, { s with link })
          | (none, link) => (⟨0, -1, 0⟩, { s with link })
  | .waitBulkout, s =>
      match s.request with
      | none => (⟨-1, 0, 0⟩, s)
      | some (data, size) =>
          match h (.bulkout size (b.length - s.got)) s.link with
          | (some block, link) =>
              (⟨0, 0, block.length⟩, { s with mem := store s.mem data block, link, got := s.got + block.length })
          | (none, link) => (⟨0, -1, 0⟩, { s with link })

variable (h : (c : PspCall) → W → c.Answer × W) {s : OnLink W}

theorem sendNext_interp (staged : Bool) {next : Nat} (most : next ≤ txBuf) (fits : done + next ≤ b.length) (same : Same b mem s.mem) :
    ∃ s' data, (sendNext b staged (offset b.data done) next).interp (onLink b h) s = ((), s') ∧ Same b mem s'.mem ∧
      s'.link = s.link ∧ s'.request = some (data, next) ∧
      bytesAt s'.mem data next = bytesAt mem (offset b.data done) next := by
  cases staged with
  | true =>
      have length := length_bytesAt s.mem (offset b.data done) next
      have copied := @bytesAt_store s.mem b.tx (bytesAt s.mem (offset b.data done) next)
        (by rw [length]; exact most.trans (by decide))
      rw [length] at copied
      refine ⟨_, b.tx, rfl, fun x outside => ?_, rfl, rfl, copied.trans (same.bytesAt fits)⟩
      refine (store_outside fun inside => outside ?_).trans (same x outside)
      rw [length] at inside
      exact Nat.lt_of_lt_of_le inside most
  | false => exact ⟨_, offset b.data done, rfl, same, rfl, rfl, same.bytesAt fits⟩

theorem writeLoop_interp (same : Same b mem s.mem) :
    let run := (writeLoop b staged turns (offset b.data done) done).interp (onLink b h) s
    (run.1, run.2.link) =
      (HostFs.writeLoop turns (bytesAt mem (offset b.data done) (b.length - done)) done).interp h s.link := by
  induction turns generalizing done s with
  | zero => rfl
  | succ turns ih =>
      rw [writeLoop, HostFs.writeLoop]
      have empty : (bytesAt mem (offset b.data done) (b.length - done)).isEmpty = !decide (done < b.length) := by
        rw [Bool.eq_iff_iff, List.isEmpty_iff_length_eq_zero, length_bytesAt]
        simp [Nat.sub_eq_zero_iff_le]
      rw [empty]
      by_cases more : done < b.length
      · rw [if_pos more, decide_eq_true more, Prog.interp_bind]
        have fits : done + min txBuf (b.length - done) ≤ b.length := by omega
        obtain ⟨s₁, data, sent, same₁, link, request, offered⟩ :=
          sendNext_interp h staged (Nat.min_le_left txBuf (b.length - done)) fits same
        have taken : (bytesAt mem (offset b.data done) (b.length - done)).take txBuf =
            bytesAt s₁.mem data (min txBuf (b.length - done)) := by
          rw [offered, ← take_bytesAt (Nat.min_le_right txBuf (b.length - done)), List.take_eq_take_iff, length_bytesAt]
          omega
        rw [sent, taken]
        simp only [waitBulkin, Prog.call_bind, Prog.interp_ask, onLink, request, link, bulkin_seq, Bool.not_true,
          Bool.false_eq_true, if_false]
        cases answer : h (.bulkin (bytesAt s₁.mem data (min txBuf (b.length - done)))) s.link with
        | mk count link' =>
            cases count with
            | none =>
                dsimp only
                rw [if_neg (by simp [Completion.Done])]
                rfl
            | some count =>
                dsimp only
                by_cases some_ : 0 < count
                · rw [if_pos (by simpa [Completion.Done] using some_), if_pos some_, Int.toNat_natCast, offset_offset,
                    drop_bytesAt, offset_offset, Nat.sub_sub]
                  exact ih (s := ⟨s₁.mem, link', some _, s₁.got⟩) same₁
                · rw [if_neg (by simpa [Completion.Done] using some_), if_neg some_]
                  rfl
      · rw [if_neg more, decide_eq_false more]
        rfl

theorem readLoop_interp (short : ∀ size room w block, (h (.bulkout size room) w).1 = some block → block.length ≤ size)
    {got : Bytes} (le : got.length ≤ b.length) (same : Same b (store mem b.data got) s.mem) (count : s.got = got.length) :
    let run := (readLoop b turns (offset b.data got.length) got.length).interp (onLink b h) s
    let bytes := (HostFs.readLoop b.length b.length turns got).interp h s.link
    (run.1, run.2.link) = (bytes.1.1, bytes.2) ∧ Same b (store mem b.data bytes.1.2) run.2.mem := by
  induction turns generalizing got s with
  | zero => exact ⟨rfl, same⟩
  | succ turns ih =>
      rw [readLoop, HostFs.readLoop]
      by_cases more : got.length < b.length
      · rw [if_pos more, if_pos more]
        dsimp only
        rw [setBulkoutReq_tx]
        obtain ⟨block, link, answer⟩ : ∃ block link,
            h (.bulkout (min txBuf (b.length - got.length)) (b.length - got.length)) s.link = (block, link) := ⟨_, _, rfl⟩
        cases block with
        | none =>
            simp only [waitBulkout, Prog.call_bind, Prog.interp_ask, onLink, bulkout_seq, Int.lt_irrefl, if_false, count,
              answer]
            rw [if_neg (by simp [Completion.Done])]
            exact ⟨rfl, same⟩
        | some block =>
            have fits := short _ _ _ block (congrArg Prod.fst answer)
            have most : block.length ≤ txBuf := by omega
            simp only [waitBulkout, Prog.call_bind, Prog.interp_ask, onLink, bulkout_seq, Int.lt_irrefl, if_false, count,
              answer]
            by_cases some_ : 0 < block.length
            · rw [if_pos (by simpa [Completion.Done] using some_), Int.toNat_natCast, offset_offset]
              rw [if_neg (by simpa using List.ne_nil_of_length_pos some_), ← List.length_append]
              simp only [memcpy, Prog.call_bind, Prog.interp_ask, onLink]
              have fits' : got.length + block.length ≤ b.length := by omega
              refine ih (by rwa [List.length_append]) ?_ rfl
              rw [bytesAt_store s.mem b.tx (most.trans (by decide))]
              exact same.append fits' most
            · rw [if_neg (by simpa [Completion.Done] using some_), if_pos (by simpa using some_)]
              refine ⟨rfl, fun x outside => ?_⟩
              refine (store_outside fun inside => outside (Nat.lt_of_lt_of_le inside most)).trans (same x outside)
      · rw [if_neg more, if_neg more]
        exact ⟨rfl, same⟩

/-- The data is sent as a list of bytes would be, wherever it stands. -/
theorem writeData_interp (mem : Flat) (w : W) :
    let run := (writeData b).interp (onLink b h) { mem, link := w }
    (run.1, run.2.link) = (HostFs.writeData (bytesAt mem b.data b.length)).interp h w := by
  have run := @writeLoop_interp b mem (decide (b.data &&& 63 ≠ 0)) b.length 0 W h { mem, link := w } fun _ _ => rfl
  rw [offset_zero, Nat.sub_zero] at run
  rw [HostFs.writeData, length_bytesAt]
  exact run

/-- What is received stands in the data, and nothing else has changed outside of `tx_buf`. -/
theorem readData_interp (short : ∀ size room w block, (h (.bulkout size room) w).1 = some block → block.length ≤ size)
    (mem : Flat) (w : W) :
    let run := (readData b).interp (onLink b h) { mem, link := w }
    let bytes := (HostFs.readData b.size.toInt b.length).interp h w
    (run.1, run.2.link) = (bytes.1.1, bytes.2) ∧ Same b (store mem b.data bytes.1.2) run.2.mem := by
  have run := @readLoop_interp b mem b.length W h { mem, link := w } short [] (Nat.zero_le _) (fun _ _ => rfl) rfl
  rw [List.length_nil, offset_zero] at run
  exact run

end OnLink

/-- All the data goes out, in order, and all that comes in is stored, or a request has failed; the requests made for the
data do not depend on where it stands. -/
theorem bulk_loops (b : Buffers) (mem : Flat) :
    (writeData b).wp (bulk b) (Wrote b mem) { mem } ∧ (readData b).wp (bulk b) (Read b mem) { mem } ∧
    ∀ (W : Type) (h : (c : PspCall) → W → c.Answer × W) (w : W),
      let run := (writeData b).interp (onLink b h) { mem, link := w }
      (run.1, run.2.link) = (HostFs.writeData (bytesAt mem b.data b.length)).interp h w :=
  ⟨writeData_wp b mem, readData_wp b mem, fun _ h w => writeData_interp h mem w⟩

/-- Two bytes come in one block. -/
def shortRead : Buffers where
  tx := 0x08900000
  data := 0x08800001
  size := 2
  aligned := by decide
  apart := apart_of_le (by decide) (by decide)

def sevens : (c : PspCall) → Unit → c.Answer × Unit
  | .waitSema, _ => (true, ())
  | .signalSema, _ => ((), ())
  | .usbConnected, _ => (true, ())
  | .bulkin data, _ => (some data.length, ())
  | .bulkout size _, _ => (some (List.replicate size 7), ())

theorem readData_interp_sevens :
    ((HostFs.readData 2 2).interp sevens ()).1 = (2, [7, 7]) ∧
      Same shortRead (store (fun _ => 0) 0x08800001 [7, 7])
        ((readData shortRead).interp (onLink shortRead sevens) { mem := fun _ => 0, link := () }).2.mem := by
  have short : ∀ size room w block, (sevens (.bulkout size room) w).1 = some block → block.length ≤ size := by
    rintro size room _ block answered
    cases answered
    exact (List.length_replicate ..).le
  exact ⟨by decide, (readData_interp sevens short (fun _ => 0) ()).2⟩

end Psplink.HostFs.Bulk
