import Psplink.HostFs.Calls
import Psplink.HostFs.Driver

/-!
# A link that delivers

The PSP's calls answered by a link behind which the daemon takes a turn whenever the PSP waits for a
response.
-/

namespace Psplink.HostFs
open Psplink.Lib

/-! ## Counts -/

theorem toNat_count {n : Nat} (small : n < 2 ^ 31) : (BitVec.ofNat 32 n).toNat = n := by
  rw [BitVec.toNat_ofNat, Nat.mod_eq_of_lt (by omega)]

theorem toInt_count {n : Nat} (small : n < 2 ^ 31) : (BitVec.ofNat 32 n).toInt = n := by
  rw [BitVec.toInt_eq_toNat_of_lt (by rw [toNat_count small]; omega), toNat_count small]

theorem encode_fits {C : Type} [Packed C] {cmd : C} (size : 0 < sizeof C ∧ sizeof C ≤ txBuf) :
    (encode cmd).length ≤ txBuf ∧ encode cmd ≠ [] := by
  refine ⟨by rw [Packed.length_encode]; exact size.2, fun none => ?_⟩
  have length := congrArg List.length none
  rw [Packed.length_encode] at length
  exact absurd length (Nat.pos_iff_ne_zero.mp size.1)

/-- The transfers of a command and its data. -/
def transfers (cmd outdata : Bytes) : List Bytes := cmd :: if outdata = [] then [] else [outdata]

/-! ## Lines -/

/-- A world with transfers on their way to the PC, bytes on their way to the PSP and a turn of the daemon. -/
structure Line (W : Type) where
  sent : W → List Bytes
  replies : W → Bytes
  put : List Bytes → Bytes → W → W
  turn : W → W
  sent_put : ∀ s r w, sent (put s r w) = s
  replies_put : ∀ s r w, replies (put s r w) = r
  put_put : ∀ s r s' r' w, put s r (put s' r' w) = put s r w
  put_self : ∀ w, put (sent w) (replies w) w = w

namespace Line

variable {W : Type} (line : Line W)

/-- Who waits for a response lets the daemon run. -/
def awaited (w : W) : W := if line.replies w = [] then line.turn w else w

def answer : (c : PspCall) → W → c.Answer × W
  | .waitSema, w => (true, w)
  | .signalSema, w => ((), w)
  | .usbConnected, w => (true, w)
  | .bulkin data, w => (some data.length, line.put (line.sent w ++ [data]) (line.replies w) w)
  | .bulkout size _, w =>
      if line.replies (line.awaited w) = [] then (none, line.awaited w)
      else (some ((line.replies (line.awaited w)).take size),
        line.put (line.sent (line.awaited w)) ((line.replies (line.awaited w)).drop size) (line.awaited w))

/-! ### Transfers -/

theorem writeData {data : Bytes} (small : data.length ≤ txBuf) (w : W) :
    (HostFs.writeData data).interp line.answer w =
      ((data.length : Int), line.put (line.sent w ++ if data = [] then [] else [data]) (line.replies w) w) := by
  cases data with
  | nil => simp [HostFs.writeData, writeLoop, line.put_self]
  | cons b data =>
      have whole : (b :: data).take txBuf = b :: data := List.take_of_length_le small
      have done : ∀ turns n, (writeLoop turns [] n).interp line.answer = fun w => ((n : Int), w) := by
        intro turns n
        cases turns <;> rfl
      simp only [HostFs.writeData, List.length_cons, writeLoop, List.isEmpty_cons, Bool.false_eq_true, if_false, whole,
        bulkin_seq, Prog.interp_ask, answer, Nat.zero_lt_succ, if_true]
      rw [List.drop_of_length_le (by simp), done]
      simp

theorem readLoop {size room turns : Nat} {got x rest : Bytes} {s : List Bytes} (enough : size ≤ turns + got.length)
    (total : got.length + x.length = size) (w : W) :
    (HostFs.readLoop size room turns got).interp line.answer (line.put s (x ++ rest) w) =
      (((size : Int), got ++ x), line.put s rest w) := by
  induction turns generalizing got x with
  | zero =>
      have none : x = [] := List.length_eq_zero_iff.mp (by omega)
      subst none
      simp only [List.length_nil, Nat.add_zero] at total
      simp [HostFs.readLoop, total]
  | succ turns ih =>
      rw [HostFs.readLoop]
      by_cases more : got.length < size
      · rw [if_pos more]
        generalize block : min txBuf (size - got.length) = k
        have positive : 0 < k := by simp only [← block, txBuf]; omega
        have part : k ≤ x.length := by omega
        cases x with
        | nil => simp at total; omega
        | cons b x =>
            have some : line.awaited (line.put s (b :: x ++ rest) w) = line.put s (b :: x ++ rest) w :=
              if_neg (by rw [line.replies_put]; simp)
            have front : (b :: x ++ rest).take k = (b :: x).take k := List.take_append_of_le_length part
            have back : (b :: x ++ rest).drop k = (b :: x).drop k ++ rest := List.drop_append_of_le_length part
            have inner : ((b :: x).take k).isEmpty = false := by
              cases k with
              | zero => omega
              | succ k => rfl
            simp only [bulkout_seq, Prog.interp_ask, answer, some, line.replies_put, line.sent_put, line.put_put]
            rw [if_neg (by simp), front, back]
            simp only [inner, Bool.false_eq_true, if_false]
            rw [ih (by rw [List.length_append, List.length_take]; omega)
              (by rw [List.length_append, List.length_take, List.length_drop]; omega), List.append_assoc,
              List.take_append_drop]
      · have none : x = [] := List.length_eq_zero_iff.mp (by omega)
        subst none
        simp only [List.length_nil, Nat.add_zero] at total
        simp [total]

theorem readData {size room : Nat} {x rest : Bytes} {s : List Bytes} (total : x.length = size) (w : W) :
    (HostFs.readData size room).interp line.answer (line.put s (x ++ rest) w) =
      (((size : Int), x), line.put s rest w) := by
  have run : (HostFs.readLoop size room size []).interp line.answer (line.put s (x ++ rest) w) = _ :=
    line.readLoop (Nat.le_add_right _ _) (by rw [List.length_nil, Nat.zero_add, total]) w
  exact run

/-- The first byte of a response is waited for. -/
theorem readData_awaited {size : Nat} (positive : 0 < size) (room : Nat) {w : W} (idle : line.replies w = [])
    (answered : line.replies (line.turn w) ≠ []) :
    (HostFs.readData size room).interp line.answer w = (HostFs.readData size room).interp line.answer (line.turn w) := by
  obtain ⟨turns, rfl⟩ := Nat.exists_eq_add_of_lt positive
  have first : line.awaited w = line.turn w := if_pos idle
  have again : line.awaited (line.turn w) = line.turn w := if_neg answered
  simp only [HostFs.readData, Int.toNat_natCast, HostFs.readLoop, bulkout_seq, List.length_nil]
  rw [if_pos (by omega)]
  simp only [Prog.interp_ask, answer, first, again]

/-! ### Exchanges -/

variable {R : Type} [Packed R] [Headed R] {inlen : Int} {resp : R} {data : Bytes}

theorem takeResponse (out : HostFsCmd) (positive : 0 < sizeof R) (magic : (Headed.cmd resp).magic = hostfsMagic)
    (announced : (Headed.cmd resp).extralen.toInt = data.length) (wanted : data ≠ [] → 0 < inlen) {w w' : W}
    {s : List Bytes} (idle : line.replies w = []) (turn : line.turn w = line.put s (encode resp ++ data) w') :
    (HostFs.takeResponse R out inlen).interp line.answer w = (some (resp, data), line.put s [] w') := by
  have answered : line.replies (line.turn w) ≠ [] := by
    rw [turn, line.replies_put]
    intro none
    have size := congrArg List.length (List.append_eq_nil_iff.mp none).1
    rw [Packed.length_encode] at size
    exact absurd size (Nat.pos_iff_ne_zero.mp positive)
  have passes : ¬ ((Headed.cmd resp).magic ≠ hostfsMagic ∧ (Headed.cmd resp).command ≠ out.command) :=
    fun wrong => wrong.1 magic
  rw [HostFs.takeResponse, Prog.interp_bind, line.readData_awaited positive _ idle answered, turn,
    line.readData (Packed.length_encode resp)]
  dsimp only
  rw [if_neg (by simp), headerOf_encode, if_neg passes]
  by_cases more : 0 < (Headed.cmd resp).extralen.toNat ∧ 0 < inlen
  · have read : (HostFs.readData (Headed.cmd resp).extralen.toInt inlen.toNat).interp line.answer
        (line.put s data w') = (((data.length : Int), data), line.put s [] w') := by
      have run : (HostFs.readData data.length inlen.toNat).interp line.answer (line.put s (data ++ []) w') = _ :=
        line.readData rfl w'
      rw [announced]
      rwa [List.append_nil] at run
    rw [if_pos more, Prog.interp_bind, read]
    dsimp only
    rw [if_neg (by rw [← announced, BitVec.ofInt_toInt]; simp), Packed.decode_encode_self]
    rfl
  · have none : data = [] := by
      by_contra some
      have length : 0 < data.length := List.length_pos_iff.mpr some
      refine more ⟨?_, wanted some⟩
      by_contra zero
      rw [show (Headed.cmd resp).extralen = 0 from BitVec.toNat_inj.mp (by simpa using zero)] at announced
      simp at announced
      omega
    subst none
    rw [if_neg more, Packed.decode_encode_self]
    rfl

theorem request {C : Type} [Packed C] {cmd : C} {outdata : Bytes} {w : W} (w' : W) {s : List Bytes}
    (command : (encode cmd).length ≤ txBuf ∧ encode cmd ≠ []) (small : outdata.length ≤ txBuf)
    (positive : 0 < sizeof R) (magic : (Headed.cmd resp).magic = hostfsMagic)
    (announced : (Headed.cmd resp).extralen.toInt = data.length) (wanted : data ≠ [] → 0 < inlen)
    (sent : line.sent w = []) (replies : line.replies w = [])
    (turn : line.turn (line.put (transfers (encode cmd) outdata) [] w) = line.put s (encode resp ++ data) w') :
    (HostFs.request R cmd outdata inlen).interp line.answer w = (some (resp, data), line.put s [] w') := by
  have exchanged : (exchange R cmd outdata inlen).interp line.answer w = (some (resp, data), line.put s [] w') := by
    rw [exchange, Prog.interp_bind, line.writeData command.1]
    dsimp only
    rw [if_neg (by simp), Prog.interp_bind, line.writeData small]
    dsimp only
    rw [if_neg (by simp), if_neg command.2, sent, replies, line.sent_put, line.replies_put, line.put_put]
    exact line.takeResponse _ positive magic announced wanted (line.replies_put ..) turn
  simp only [HostFs.request, usbConnected_seq, Prog.interp_ask, answer, if_true, commandXchg, waitSema_seq, Bool.not_true,
    Bool.false_eq_true, if_false, Prog.interp_bind, exchanged, signalSema_seq, Prog.pure_def, Prog.interp_ret]

end Line

/-! ## The daemon's turn -/

theorem serve_command {C : Type} [Packed C] [Headed C] {cmd : C} (whole : sizeof HostFsCmd ≤ sizeof C)
    (magic : (Headed.cmd cmd).magic = hostfsMagic) :
    serve (delivered (encode cmd) []) = doHostfs (encode cmd) >>= fun _ => (return true) := by
  have size : 12 ≤ (encode cmd).length := by rwa [Packed.length_encode]
  unfold serve delivered
  dsimp only
  rw [if_neg (by omega), if_neg (by simp only [etimedout]; omega), if_neg (by omega), if_neg (by omega),
    if_pos (by rw [magicOf_encode, magic]), if_neg (by rw [Packed.length_encode]; exact Nat.not_lt.mpr whole)]

theorem interp_usbBulkRead {α V : Type} (h : (c : Call) → V → c.Answer × V) (cap : Nat) (size : Word) (k : UsbRead → Pc α)
    (v : V) : (usbBulkRead cap size >>= k).interp h v =
      (k (h (.usbBulkRead cap size) v).1).interp h (h (.usbBulkRead cap size) v).2 := rfl

/-- A turn of the loop in which a command arrives. -/
theorem turn_command {V : Type} {h : (c : Call) → V → c.Answer × V} {C : Type} [Packed C] [Headed C] {cmd : C} {v v' : V}
    (whole : sizeof HostFsCmd ≤ sizeof C) (magic : (Headed.cmd cmd).magic = hostfsMagic)
    (arrives : h (.usbBulkRead 512 512) v = (delivered (encode cmd) [], v')) :
    ((startHostfs .commands).interp h v).2 = ((dispatch (encode cmd)).interp h v').2 := by
  have turn : ((startHostfs .commands).interp h v).2 =
      ((serve (h (.usbBulkRead 512 512) v).1 >>= fun served =>
        if served then return .commands else leaveSession).interp h (h (.usbBulkRead 512 512) v).2).2 := rfl
  rw [turn, arrives, serve_command whole magic]
  simp only [doHostfs, Prog.interp_bind, Prog.pure_def, Prog.interp_ret, if_true]

/-! ## The daemon on a host -/

structure Linked (H : Type) where
  host : H
  sent : List Bytes
  replies : Bytes

namespace Linked

variable {H : Type} (host : (c : Call) → H → c.Answer × H)

/-- The daemon's calls: transfers are the link's, all others the host's. -/
def pcAnswer : (c : Call) → Linked H → c.Answer × Linked H
  | .usbBulkRead _ size, w =>
      match w.sent with
      | [] => (silence, w)
      | t :: sent => (delivered (t.take size.toNat) [], { w with sent := sent })
  | .usbBulkWrite data, w => ((data.length : Int), { w with replies := w.replies ++ data })
  | c, w => ((host c w.host).1, { w with host := (host c w.host).2 })

def line : Line (Linked H) where
  sent := sent
  replies := replies
  put sent replies w := { w with sent := sent, replies := replies }
  turn w := ((startHostfs .commands).interp (pcAnswer host) w).2
  sent_put _ _ _ := rfl
  replies_put _ _ _ := rfl
  put_put _ _ _ _ _ := rfl
  put_self _ := rfl

theorem interp_quiet {α : Type} {p : Pc α} (quiet : Quiet p) (w : Linked H) :
    p.interp (pcAnswer host) w = ((p.interp host w.host).1, { w with host := (p.interp host w.host).2 }) := by
  induction quiet generalizing w with
  | ret a => rfl
  | @ask q k own _ ih =>
      have answered : pcAnswer host q w = ((host q w.host).1, { w with host := (host q w.host).2 }) := by
        cases q
        case usbBulkRead | usbBulkWrite => exact False.elim own
        all_goals rfl
      rw [Prog.interp_ask, answered, ih]
      rfl

theorem interp_reply (c : HostFsCommand) (res : Word) (w : Linked H) :
    ((reply c res).interp (pcAnswer host) w).2 =
      { w with replies := w.replies ++ encode (⟨respHeader c, res⟩ : HostFsResp) } := rfl

/-- A request with a payload: the daemon makes its result of the payload as it was sent. -/
theorem simpleRequest_payload {C : Type} [Packed C] [Headed C] (cmd : C) (payload : Bytes) (c : HostFsCommand) (cap : Nat)
    (res : UsbRead → Pc Word)
    (dispatches : dispatch (encode cmd) =
      withPayload (sizeof C) cap (Headed.cmd cmd).extralen (encode cmd).length fun got => do reply c (← res got))
    (quiet : ∀ got, Quiet (res got)) (size : sizeof HostFsCmd ≤ sizeof C ∧ sizeof C ≤ 512)
    (magic : (Headed.cmd cmd).magic = hostfsMagic) (length : (Headed.cmd cmd).extralen = BitVec.ofNat 32 payload.length)
    (some : payload ≠ []) (few : payload.length ≤ txBuf) (h : H) :
    (simpleRequest cmd payload).interp (line host).answer ⟨h, [], []⟩ =
      (((res (delivered payload [])).interp host h).1, ⟨((res (delivered payload [])).interp host h).2, [], []⟩) := by
  have header : sizeof HostFsCmd = 12 := rfl
  have room : txBuf = 65536 := rfl
  have bytes : (BitVec.ofNat 32 payload.length).toNat = payload.length := toNat_count (by omega)
  have signed : (BitVec.ofNat 32 payload.length).toInt = payload.length := toInt_count (by omega)
  have positive : 0 < payload.length := List.length_pos_iff.mpr some
  have whole : (encode cmd).take (512 : Word).toNat = encode cmd :=
    List.take_of_length_le (by rw [Packed.length_encode]; exact size.2)
  have turn : (line host).turn ((line host).put (transfers (encode cmd) payload) [] ⟨h, [], []⟩) =
      (line host).put [] (encode (⟨respHeader c, ((res (delivered payload [])).interp host h).1⟩ : HostFsResp) ++ [])
        ⟨((res (delivered payload [])).interp host h).2, [], []⟩ := by
    have arrives : pcAnswer host (.usbBulkRead 512 512) ⟨h, [encode cmd, payload], []⟩ =
        (delivered (encode cmd) [], ⟨h, [payload], []⟩) := by
      simp only [pcAnswer, whole]
      rfl
    have served : ((dispatch (encode cmd)).interp (pcAnswer host) ⟨h, [payload], []⟩).2 =
        ⟨((res (delivered payload [])).interp host h).2, [],
          encode (⟨respHeader c, ((res (delivered payload [])).interp host h).1⟩ : HostFsResp)⟩ := by
      have read : pcAnswer host (.usbBulkRead cap (BitVec.ofNat 32 payload.length)) ⟨h, [payload], []⟩ =
          (delivered payload [], ⟨h, [], []⟩) := by
        have all : payload.take (BitVec.ofNat 32 payload.length).toNat = payload :=
          List.take_of_length_le (by rw [bytes])
        simp only [pcAnswer, all]
        rfl
      have passes : ¬ BitVec.ofInt 32 (delivered payload []).ret ≠ BitVec.ofNat 32 payload.length := by
        have ret : (delivered payload []).ret = payload.length := rfl
        rw [ret, ← signed, BitVec.ofInt_toInt]
        exact not_not.mpr rfl
      have announced : BitVec.ofNat 32 payload.length ≠ 0 := by
        intro zero
        rw [zero] at bytes
        simp at bytes
        omega
      rw [dispatches, length, withPayload, Packed.length_encode, if_neg (not_not.mpr rfl), if_neg announced]
      rw [interp_usbBulkRead, read]
      dsimp only
      rw [if_neg passes, Prog.interp_bind, interp_quiet host (quiet _), interp_reply, List.nil_append]
    have two : transfers (encode cmd) payload = [encode cmd, payload] := by rw [transfers, if_neg some]
    rw [two]
    exact (turn_command size.1 magic arrives).trans served
  have answered : (HostFs.request HostFsResp cmd payload 0).interp (line host).answer ⟨h, [], []⟩ =
      (Option.some (⟨respHeader c, ((res (delivered payload [])).interp host h).1⟩, []),
        (line host).put [] [] ⟨((res (delivered payload [])).interp host h).2, [], []⟩) :=
    (line host).request _ (encode_fits ⟨by omega, by omega⟩) few (by decide) rfl rfl (fun none => absurd rfl none) rfl rfl
      turn
  simp only [simpleRequest, Prog.interp_bind, answered, Prog.pure_def, Prog.interp_ret]
  rfl

end Linked

end Psplink.HostFs
