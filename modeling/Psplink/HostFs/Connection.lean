import Psplink.HostFs.AsyncChannels
import Psplink.HostFs.Driver
import Psplink.Lib.Interference

/-!
# The connection

`usb_thread` of usbhostfs/main.c among the callbacks of the USB bus driver and the threads that read the
async channels. The event flag `g_mainevent`, `g_connected`, the request `g_async_req` and its buffer
are the state they share; what the thread has moved over the link since it was last disconnected, the
transfers that the bus driver has completed and those given to `fill_async` are recorded beside it.
-/

namespace Psplink.HostFs
open Psplink.Lib

/-! ## The thread -/

/-- The bits of `g_mainevent` that the thread waits for. -/
structure UsbEvents where
  attach : Bool
  detach : Bool
  async : Bool

/-- `recvAsync` hands `g_async_req` to the bus driver. -/
inductive UsbCall
  | link (q : PspCall)
  | waitEvents
  | asyncReq
  | fillAsync (len : Int)
  | prepareAsync
  | clearAsync
  | recvAsync
  | clearConnect
  | setConnect
  | setConnected (connected : Bool)

/-- A failed wait answers `none`; a request is its `retcode` and its `recvsize`. -/
@[reducible] def UsbCall.Answer : UsbCall → Type
  | .link q => q.Answer
  | .waitEvents => Option UsbEvents
  | .asyncReq => Word × Int
  | .recvAsync => Bool
  | _ => Unit

abbrev Usb := Prog UsbCall UsbCall.Answer

def overLink {α : Type} (p : Psp α) : Usb α := p.via UsbCall.link fun _ a => a

/-- The check of the address succeeds: `async_data` is aligned to a cache line. -/
def setAyncreq : Usb Unit := do
  Prog.call UsbCall.prepareAsync
  Prog.call UsbCall.clearAsync
  let _ ← Prog.call UsbCall.recvAsync

def asyncDone : Usb Unit := do
  let req ← Prog.call UsbCall.asyncReq
  if req.1 = 0 ∧ 0 < req.2 then
    Prog.call (UsbCall.fillAsync req.2)
    setAyncreq
  else return ()

def disconnect : Usb Unit := do
  Prog.call (UsbCall.setConnected false)
  Prog.call UsbCall.clearConnect

def attached : Usb Unit := do
  disconnect
  let magic ← overLink (readData 4 4)
  if magic.1 = 4 ∧ decode magic.2 = hostfsMagic then
    if ← overLink sendHelloCmd then
      setAyncreq
      Prog.call (UsbCall.setConnected true)
      Prog.call UsbCall.setConnect
    else return ()
  else return ()

def onBit (bit : Bool) (p : Usb Unit) : Usb Unit := if bit then p else return ()

def usbTurn (result : UsbEvents) : Usb Bool := do
  onBit result.async asyncDone
  onBit result.detach disconnect
  onBit result.attach attached
  return true

/-- A turn of the loop; a thread that has deleted itself takes no other. -/
def usbThread (running : Bool) : Usb Bool := do
  if !running then return false
  match ← Prog.call UsbCall.waitEvents with
  | none => return false
  | some result => usbTurn result

/-! ## What it shares -/

/-- `armed`: the bus driver holds `g_async_req`. `refused`: it did not take the request, or ended it
without data. -/
structure UsbWorld (ι τ : Type) where
  attach : Bool
  detach : Bool
  async : Bool
  connect : Bool
  connected : Bool
  armed : Bool
  refused : Bool
  retcode : Word
  recvsize : Int
  asyncData : Bytes
  channels : Async ι τ
  heard : Bytes
  said : Bytes
  arrived : List Bytes
  handed : List Bytes

/-- What happens beside the thread: the callbacks `usb_attach` and `usb_detach`, the completion of the
request with its `async_req_done`, and the steps of other threads on the channels. -/
inductive Beside (ι τ : Type)
  | attach
  | detach
  | completed (retcode : Word) (data : Bytes)
  | channel (a : AsyncEvent ι τ)

section
variable {ι τ : Type} [DecidableEq ι] [DecidableEq τ]

namespace UsbWorld

def complete (w : UsbWorld ι τ) (retcode : Word) (data : Bytes) : UsbWorld ι τ :=
  { w with
    armed := false
    async := true
    refused := ¬ (retcode = 0 ∧ data ≠ [])
    retcode := retcode
    recvsize := data.length
    asyncData := data
    arrived := if retcode = 0 ∧ data ≠ [] then w.arrived ++ [data] else w.arrived }

def take (w : UsbWorld ι τ) : UsbWorld ι τ :=
  { w with attach := false, detach := false, async := false }

def fill (w : UsbWorld ι τ) (len : Int) : UsbWorld ι τ :=
  let packet := w.asyncData.take len.toNat
  { w with channels := w.channels.fillAsync packet, handed := w.handed ++ [packet] }

def submit (w : UsbWorld ι τ) (taken : Bool) : UsbWorld ι τ :=
  { w with armed := w.armed || taken, refused := !taken }

/-- The completion of a transfer whose bytes have not been given to `fill_async`. -/
def unread (w : UsbWorld ι τ) : List Bytes :=
  if w.async ∧ w.retcode = 0 ∧ 0 < w.recvsize then [w.asyncData] else []

end UsbWorld

def asyncDataSize : Nat := 512

def Beside.step (e : Beside ι τ) (w w' : UsbWorld ι τ) : Prop :=
  match e with
  | .attach => w' = { w with attach := true }
  | .detach => w' = { w with detach := true }
  | .completed retcode data => w.armed ∧ data.length ≤ asyncDataSize ∧ w' = w.complete retcode data
  | .channel a => (∀ packet, a ≠ .fill packet) ∧ w.channels.fault = false ∧
      ∃ channels, w.channels.after a = some channels ∧ w' = { w with channels := channels }

/-- A transfer over the link; one that fails may have moved anything. -/
def linkPost (w : UsbWorld ι τ) : (q : PspCall) → q.Answer → UsbWorld ι τ → Prop
  | .waitSema, _, w' | .signalSema, _, w' | .usbConnected, _, w' => w' = w
  | .bulkin data, some n, w' => n ≤ data.length ∧ w' = { w with said := w.said ++ data.take n }
  | .bulkin _, none, w' => ∃ said, w' = { w with said := said }
  | .bulkout size _, some block, w' => block.length ≤ size ∧ w' = { w with heard := w.heard ++ block }
  | .bulkout .., none, w' => ∃ heard, w' = { w with heard := heard }

def usbPost (w : UsbWorld ι τ) : (q : UsbCall) → q.Answer → UsbWorld ι τ → Prop
  | .link q, a, w' => linkPost w q a w'
  | .waitEvents, none, w' => w' = w
  | .waitEvents, some result, w' => (w.attach ∨ w.detach ∨ w.async) ∧
      result = ⟨w.attach, w.detach, w.async⟩ ∧ w' = w.take
  | .asyncReq, req, w' => req = (w.retcode, w.recvsize) ∧ w' = w
  | .fillAsync len, _, w' => w.channels.fault = false ∧ w' = w.fill len
  | .prepareAsync, _, w' => w' = { w with retcode := 0, recvsize := 0 }
  | .clearAsync, _, w' => w' = { w with async := false }
  | .recvAsync, taken, w' => w' = w.submit taken
  | .clearConnect, _, w' => w' = { w with connect := false, heard := [], said := [] }
  | .setConnect, _, w' => w' = { w with connect := true }
  | .setConnected connected, _, w' => w' = { w with connected := connected }

/-- Everything as `start_func` leaves it. -/
structure UsbWorld.Starts (w : UsbWorld ι τ) : Prop where
  attach : w.attach = false
  async : w.async = false
  connect : w.connect = false
  connected : w.connected = false
  armed : w.armed = false
  channels : w.channels.Starts
  arrived : w.arrived = []
  handed : w.handed = []

def usbSide (pre : UsbWorld ι τ → UsbCall → Prop) : Prog.Contract UsbCall UsbCall.Answer (UsbWorld ι τ) where
  pre := pre
  post := usbPost

def connection (ι τ : Type) [DecidableEq ι] [DecidableEq τ] :
    System (Usb Bool × UsbWorld ι τ) (Option (Beside ι τ)) :=
  Prog.among (usbSide fun _ _ => True) Beside.step usbThread true UsbWorld.Starts

/-- The cable is attached only when the thread sleeps and has seen the end of the last request. -/
def Settled (q : Option UsbCall) (w : UsbWorld ι τ) (e : Beside ι τ) : Prop :=
  e = .attach → q = some .waitEvents ∧ w.armed = false ∧ w.async = false

/-! ## What goes over the link -/

section
variable {W : Type}

/-- The calls of a contract keep `I` and a record of what they transfer. -/
structure Recorded (D : Prog.Contract PspCall PspCall.Answer W) (I : W → Prop) (heard said : W → Bytes) : Prop where
  allowed : ∀ w q, I w → D.pre w q
  kept : ∀ w q a w', I w → D.post w q a w' → I w'
  waitSema : ∀ w a w', I w → D.post w .waitSema a w' → heard w' = heard w ∧ said w' = said w
  signalSema : ∀ w a w', I w → D.post w .signalSema a w' → heard w' = heard w ∧ said w' = said w
  bulkin : ∀ w data n w', I w → D.post w (.bulkin data) (some n) w' →
    n ≤ data.length ∧ heard w' = heard w ∧ said w' = said w ++ data.take n
  bulkout : ∀ w size room block w', I w → D.post w (.bulkout size room) (some block) w' →
    block.length ≤ size ∧ said w' = said w ∧ heard w' = heard w ++ block

namespace Recorded

variable {D : Prog.Contract PspCall PspCall.Answer W} {I : W → Prop} {heard said : W → Bytes}

theorem writeLoop (record : Recorded D I heard said) {turns writelen : Nat} {rest : Bytes}
    (enough : rest.length ≤ turns) {w : W} (holds : I w) :
    (writeLoop turns rest writelen).wp D
      (fun err w' => I w' ∧ (err = (writelen + rest.length : Nat) → heard w' = heard w ∧ said w' = said w ++ rest)) w := by
  induction turns generalizing rest writelen w with
  | zero =>
      obtain rfl : rest = [] := List.eq_nil_of_length_eq_zero (Nat.le_zero.mp enough)
      exact ⟨holds, fun _ => ⟨rfl, (List.append_nil _).symm⟩⟩
  | succ turns ih =>
      unfold HostFs.writeLoop
      refine Prog.wp_ite ?_ ?_
      · intro empty
        rw [List.isEmpty_iff.mp empty]
        exact ⟨holds, fun _ => ⟨rfl, (List.append_nil _).symm⟩⟩
      · intro _
        refine ⟨record.allowed w _ holds, ?_⟩
        intro a w' answered
        have holds' := record.kept w _ a w' holds answered
        cases a with
        | none => exact ⟨holds', fun bad => absurd bad (by omega)⟩
        | some n =>
            obtain ⟨le, heard', said'⟩ := record.bulkin w _ n w' holds answered
            rw [List.length_take] at le
            refine Prog.wp_ite ?_ ?_
            · intro positive
              refine Prog.wp_mono ?_ (ih (by rw [List.length_drop]; omega) holds')
              rintro err v ⟨holds, whole⟩
              refine ⟨holds, ?_⟩
              intro sent
              obtain ⟨heard'', said''⟩ := whole (by rw [sent, List.length_drop]; omega)
              refine ⟨heard''.trans heard', ?_⟩
              rw [said'', said', List.take_take, Nat.min_eq_left (by omega), List.append_assoc, List.take_append_drop]
            · intro _
              exact ⟨holds', fun bad => absurd bad (by omega)⟩

theorem writeData (record : Recorded D I heard said) (data : Bytes) {w : W} (holds : I w) :
    (writeData data).wp D
      (fun err w' => I w' ∧ (err = (data.length : Nat) → heard w' = heard w ∧ said w' = said w ++ data)) w := by
  have loop : (HostFs.writeLoop data.length data 0).wp D _ w := record.writeLoop (Nat.le_refl data.length) holds
  rwa [Nat.zero_add] at loop

theorem readLoop (record : Recorded D I heard said) {size room turns : Nat} {got before : Bytes}
    (enough : size ≤ turns + got.length) (small : got.length ≤ size) {w : W} (holds : I w)
    (so_far : heard w = before ++ got) :
    (readLoop size room turns got).wp D
      (fun ret w' => I w' ∧ (ret.1 = size → ret.2.length = size ∧ said w' = said w ∧ heard w' = before ++ ret.2)) w := by
  induction turns generalizing got w with
  | zero => exact ⟨holds, fun _ => ⟨show got.length = size by omega, rfl, so_far⟩⟩
  | succ turns ih =>
      unfold HostFs.readLoop
      refine Prog.wp_ite ?_ ?_
      · intro _
        refine ⟨record.allowed w _ holds, ?_⟩
        intro a w' answered
        have holds' := record.kept w _ a w' holds answered
        cases a with
        | none => exact ⟨holds', fun bad => absurd bad (by dsimp only; omega)⟩
        | some block =>
            obtain ⟨le, said', heard'⟩ := record.bulkout w _ _ block w' holds answered
            refine Prog.wp_ite ?_ ?_
            · intro _
              exact ⟨holds', fun bad => absurd bad (by dsimp only; omega)⟩
            · intro some
              have positive : 0 < block.length := List.length_pos_iff.mpr (by simpa using some)
              have longer : (got ++ block).length = got.length + block.length := List.length_append
              refine Prog.wp_mono ?_ (ih (by omega) (by omega) holds' (by rw [heard', so_far, List.append_assoc]))
              rintro ret v ⟨holds, whole⟩
              refine ⟨holds, ?_⟩
              intro read
              obtain ⟨length, said'', heard''⟩ := whole read
              exact ⟨length, said''.trans said', heard''⟩
      · intro _
        exact ⟨holds, fun _ => ⟨show got.length = size by omega, rfl, so_far⟩⟩

theorem readData (record : Recorded D I heard said) (size room : Nat) {w : W} (holds : I w) :
    (readData size room).wp D
      (fun ret w' => I w' ∧ (ret.1 = size → ret.2.length = size ∧ said w' = said w ∧ heard w' = heard w ++ ret.2)) w :=
  record.readLoop (by simp) (Nat.zero_le _) holds (List.append_nil _).symm

end Recorded

/-- What `send_hello_cmd` sends. -/
def helloCmd : HostFsCmd := ⟨hostfsMagic, HostFsCommand.hello.code, 0⟩

/-- What it takes for the response: the check of `command_xchg` is for one of the two words. -/
structure HelloResp (resp : Bytes) : Prop where
  length : resp.length = 12
  header : (headerOf resp).magic = hostfsMagic ∨ (headerOf resp).command = HostFsCommand.hello.code

/-- The magic of the PC and the hello exchange, and nothing else. -/
structure Greeted (heard said : Bytes) : Prop where
  said : said = encode helloCmd
  heard : ∃ magic resp, heard = magic ++ resp ∧ magic.length = 4 ∧ decode magic = hostfsMagic ∧ HelloResp resp

section
variable {D : Prog.Contract PspCall PspCall.Answer W} {I : W → Prop} {heard said : W → Bytes}

theorem Recorded.takeResponse (record : Recorded D I heard said) {w : W} (holds : I w) :
    (HostFs.takeResponse HostFsCmd (headerOf (encode helloCmd)) 0).wp D
      (fun ret w' => I w' ∧ (ret.isSome → said w' = said w ∧ ∃ resp, heard w' = heard w ++ resp ∧ HelloResp resp)) w := by
  unfold HostFs.takeResponse
  refine (Prog.wp_bind _ _ _ _).2 (Prog.wp_mono ?_ (record.readData 12 12 holds))
  rintro ⟨err, incmd⟩ v ⟨holds, whole⟩
  refine Prog.wp_ite (fun _ => ⟨holds, fun bad => absurd bad (by decide)⟩) ?_
  intro read
  obtain ⟨length, said', heard'⟩ := whole (not_not.mp read)
  refine Prog.wp_ite (fun _ => ⟨holds, fun bad => absurd bad (by decide)⟩) ?_
  intro accepted
  rw [if_neg (by omega)]
  refine ⟨holds, fun _ => ⟨said', incmd, heard', length, ?_⟩⟩
  rw [headerOf_encode] at accepted
  exact or_iff_not_and_not.mpr accepted

theorem Recorded.exchange (record : Recorded D I heard said) {w : W} (holds : I w) :
    (HostFs.exchange HostFsCmd helloCmd [] 0).wp D
      (fun ret w' => I w' ∧ (ret.isSome → said w' = said w ++ encode helloCmd ∧
        ∃ resp, heard w' = heard w ++ resp ∧ HelloResp resp)) w := by
  unfold HostFs.exchange
  refine (Prog.wp_bind _ _ _ _).2 (Prog.wp_mono ?_ (record.writeData _ holds))
  rintro err v₁ ⟨holds₁, whole₁⟩
  refine Prog.wp_ite (fun _ => ⟨holds₁, fun bad => absurd bad (by decide)⟩) ?_
  intro sent
  obtain ⟨heard₁, said₁⟩ := whole₁ (not_not.mp sent)
  refine (Prog.wp_bind _ _ _ _).2 (Prog.wp_mono ?_ (record.writeData [] holds₁))
  rintro err v₂ ⟨holds₂, whole₂⟩
  refine Prog.wp_ite (fun _ => ⟨holds₂, fun bad => absurd bad (by decide)⟩) ?_
  intro sent
  obtain ⟨heard₂, said₂⟩ := whole₂ (not_not.mp sent)
  refine Prog.wp_mono ?_ (record.takeResponse holds₂)
  rintro ret v₃ ⟨holds₃, taken⟩
  refine ⟨holds₃, ?_⟩
  intro some
  obtain ⟨said₃, resp, heard₃, response⟩ := taken some
  refine ⟨?_, resp, ?_, response⟩
  · rw [said₃, said₂, said₁, List.append_nil]
  · rw [heard₃, heard₂, heard₁]

theorem Recorded.commandXchg (record : Recorded D I heard said) {w : W} (holds : I w) :
    (HostFs.commandXchg HostFsCmd helloCmd [] 0).wp D
      (fun ret w' => I w' ∧ (ret.isSome → said w' = said w ++ encode helloCmd ∧
        ∃ resp, heard w' = heard w ++ resp ∧ HelloResp resp)) w := by
  simp only [HostFs.commandXchg, waitSema_seq]
  refine ⟨record.allowed w _ holds, ?_⟩
  intro free w₁ answered
  obtain ⟨heard₁, said₁⟩ := record.waitSema w free w₁ holds answered
  have holds₁ := record.kept w _ free w₁ holds answered
  cases free with
  | false => exact ⟨holds₁, fun bad => absurd bad (by decide)⟩
  | true =>
      refine (Prog.wp_bind _ _ _ _).2 (Prog.wp_mono ?_ (record.exchange holds₁))
      rintro ret w₂ ⟨holds₂, exchanged⟩
      refine ⟨record.allowed w₂ _ holds₂, ?_⟩
      intro a w₃ answered
      obtain ⟨heard₃, said₃⟩ := record.signalSema w₂ a w₃ holds₂ answered
      refine ⟨record.kept w₂ _ a w₃ holds₂ answered, ?_⟩
      intro some
      obtain ⟨said₂, resp, heard₂, response⟩ := exchanged some
      refine ⟨?_, resp, ?_, response⟩
      · rw [said₃, said₂, said₁]
      · rw [heard₃, heard₂, heard₁]

theorem Recorded.sendHelloCmd (record : Recorded D I heard said) {w : W} (holds : I w) :
    HostFs.sendHelloCmd.wp D
      (fun ok w' => I w' ∧ (ok = true → said w' = said w ++ encode helloCmd ∧
        ∃ resp, heard w' = heard w ++ resp ∧ HelloResp resp)) w :=
  (Prog.wp_bind _ _ _ _).2 (record.commandXchg holds)

end

end

/-! ## What the others leave alone -/

/-- The steps beside the thread that `G` allows where it is. -/
def besides (G : Option UsbCall → UsbWorld ι τ → Beside ι τ → Prop) (q : Option UsbCall) (w w' : UsbWorld ι τ) : Prop :=
  ∃ e, G q w e ∧ e.step w w'

structure Untouched (w w' : UsbWorld ι τ) : Prop where
  connect : w'.connect = w.connect
  connected : w'.connected = w.connected
  heard : w'.heard = w.heard
  said : w'.said = w.said
  handed : w'.handed = w.handed

theorem Beside.untouched {e : Beside ι τ} {w w' : UsbWorld ι τ} (step : e.step w w') : Untouched w w' := by
  cases e with
  | attach =>
      cases step
      exact ⟨rfl, rfl, rfl, rfl, rfl⟩
  | detach =>
      cases step
      exact ⟨rfl, rfl, rfl, rfl, rfl⟩
  | completed retcode data =>
      obtain ⟨_, _, rfl⟩ := step
      exact ⟨rfl, rfl, rfl, rfl, rfl⟩
  | channel a =>
      obtain ⟨_, _, _, _, rfl⟩ := step
      exact ⟨rfl, rfl, rfl, rfl, rfl⟩

theorem Beside.channels {e : Beside ι τ} {w w' : UsbWorld ι τ} (step : e.step w w')
    (reachable : (asyncDriver ι τ).Reachable w.channels) : (asyncDriver ι τ).Reachable w'.channels := by
  cases e with
  | attach =>
      cases step
      exact reachable
  | detach =>
      cases step
      exact reachable
  | completed retcode data =>
      obtain ⟨_, _, rfl⟩ := step
      exact reachable
  | channel a =>
      obtain ⟨_, sound, channels, after, rfl⟩ := step
      exact reachable.step ⟨sound, after⟩

omit [DecidableEq ι] [DecidableEq τ] in
theorem linkPost_frame {w w' : UsbWorld ι τ} {q : PspCall} {a : q.Answer} (answered : linkPost w q a w') :
    ∃ heard said, w' = { w with heard := heard, said := said } := by
  cases q with
  | waitSema => exact ⟨_, _, answered⟩
  | signalSema => exact ⟨_, _, answered⟩
  | usbConnected => exact ⟨_, _, answered⟩
  | bulkin data =>
      cases a with
      | none =>
          obtain ⟨said, rfl⟩ := answered
          exact ⟨_, said, rfl⟩
      | some n => exact ⟨_, _, answered.2⟩
  | bulkout size room =>
      cases a with
      | none =>
          obtain ⟨heard, rfl⟩ := answered
          exact ⟨heard, _, rfl⟩
      | some block => exact ⟨_, _, answered.2⟩

section
variable {pre : UsbWorld ι τ → UsbCall → Prop} {G : Option UsbCall → UsbWorld ι τ → Beside ι τ → Prop}
  {I : UsbWorld ι τ → Prop}

/-- The thread's calls, with what the others may do before each. -/
abbrev amid (pre : UsbWorld ι τ → UsbCall → Prop) (G : Option UsbCall → UsbWorld ι τ → Beside ι τ → Prop) :
    Prog.Contract UsbCall UsbCall.Answer (UsbWorld ι τ) :=
  (usbSide pre).among (besides G)

theorem recorded (allowed : ∀ w q, I w → pre w (.link q)) (stable : ∀ w w' q, I w → besides G (some (.link q)) w w' → I w')
    (free : ∀ w heard said, I w → I { w with heard := heard, said := said }) :
    Recorded ((amid pre G).through UsbCall.link fun _ a => a) I UsbWorld.heard UsbWorld.said := by
  have settled : ∀ {w mid q}, I w → Relation.ReflTransGen (besides G (some (.link q))) w mid →
      I mid ∧ mid.heard = w.heard ∧ mid.said = w.said := by
    intro w mid q holds steps
    apply Prog.stable_star (P := fun v => I v ∧ v.heard = w.heard ∧ v.said = w.said) _ ⟨holds, rfl, rfl⟩ steps
    rintro v v' ⟨holds, heard, said⟩ ⟨e, allowed, step⟩
    have same := Beside.untouched step
    exact ⟨stable v v' q holds ⟨e, allowed, step⟩, same.heard.trans heard, same.said.trans said⟩
  constructor
  · intro w q holds mid steps
    exact allowed mid q (settled holds steps).1
  · rintro w q a w' holds ⟨_, ⟨mid, steps, answered⟩, rfl⟩
    obtain ⟨heard, said, rfl⟩ := linkPost_frame answered
    exact free mid heard said (settled holds steps).1
  · rintro w a w' holds ⟨_, ⟨mid, steps, rfl⟩, rfl⟩
    exact (settled holds steps).2
  · rintro w a w' holds ⟨_, ⟨mid, steps, rfl⟩, rfl⟩
    exact (settled holds steps).2
  · rintro w data n w' holds ⟨_, ⟨mid, steps, answered⟩, rfl⟩
    obtain ⟨le, rfl⟩ := answered
    obtain ⟨_, heard, said⟩ := settled holds steps
    exact ⟨le, heard, congrArg (· ++ data.take n) said⟩
  · rintro w size room block w' holds ⟨_, ⟨mid, steps, answered⟩, rfl⟩
    obtain ⟨le, rfl⟩ := answered
    obtain ⟨_, heard, said⟩ := settled holds steps
    exact ⟨le, said, congrArg (· ++ block) heard⟩

end

/-! ## The calls about the request -/

def UsbCall.onRequest : UsbCall → Bool
  | .asyncReq | .fillAsync _ | .prepareAsync | .clearAsync | .recvAsync => true
  | _ => false

theorem onRequest_setAyncreq : Prog.Only (fun q => UsbCall.onRequest q = true) setAyncreq :=
  .ask rfl fun _ => .ask rfl fun _ => .ask rfl fun _ => .ret ()

theorem onRequest_asyncDone : Prog.Only (fun q => UsbCall.onRequest q = true) asyncDone := by
  refine Prog.Only.bind (.ask rfl .ret) ?_
  intro req
  split
  · exact .ask rfl fun _ => onRequest_setAyncreq
  · exact .ret ()

omit [DecidableEq τ] in
theorem onRequest_connection {w w' : UsbWorld ι τ} {q : UsbCall} {a : q.Answer} (about : q.onRequest = true)
    (answered : usbPost w q a w') : w'.connect = w.connect ∧ w'.connected = w.connected ∧ w'.heard = w.heard ∧
      w'.said = w.said := by
  cases q with
  | asyncReq =>
      obtain ⟨_, rfl⟩ := answered
      exact ⟨rfl, rfl, rfl, rfl⟩
  | fillAsync len =>
      obtain ⟨_, rfl⟩ := answered
      exact ⟨rfl, rfl, rfl, rfl⟩
  | prepareAsync =>
      cases answered
      exact ⟨rfl, rfl, rfl, rfl⟩
  | clearAsync =>
      cases answered
      exact ⟨rfl, rfl, rfl, rfl⟩
  | recvAsync =>
      cases answered
      exact ⟨rfl, rfl, rfl, rfl⟩
  | _ => cases about

theorem onRequest_channels {w w' : UsbWorld ι τ} {q : UsbCall} {a : q.Answer} (about : q.onRequest = true)
    (answered : usbPost w q a w') (reachable : (asyncDriver ι τ).Reachable w.channels) :
    (asyncDriver ι τ).Reachable w'.channels := by
  cases q with
  | asyncReq =>
      obtain ⟨_, rfl⟩ := answered
      exact reachable
  | fillAsync len =>
      obtain ⟨sound, rfl⟩ := answered
      exact reachable.step (a := .fill _) ⟨sound, rfl⟩
  | prepareAsync =>
      cases answered
      exact reachable
  | clearAsync =>
      cases answered
      exact reachable
  | recvAsync =>
      cases answered
      exact reachable
  | _ => cases about

/-! ## Connected is greeted -/

structure Acquainted (w : UsbWorld ι τ) : Prop where
  channels : (asyncDriver ι τ).Reachable w.channels
  greeted : w.connected = true ∨ w.connect = true → Greeted w.heard w.said

/-- Between two turns the flag that others wait for is `g_connected`. -/
structure Agreeing (w : UsbWorld ι τ) : Prop extends Acquainted w where
  agree : w.connect = w.connected

structure Severed (w : UsbWorld ι τ) : Prop where
  channels : (asyncDriver ι τ).Reachable w.channels
  connect : w.connect = false
  connected : w.connected = false

theorem Severed.agreeing {w : UsbWorld ι τ} (severed : Severed w) : Agreeing w where
  channels := severed.channels
  greeted := by simp [severed.connect, severed.connected]
  agree := severed.connect.trans severed.connected.symm

theorem Acquainted.beside {e : Beside ι τ} {w w' : UsbWorld ι τ} (acquainted : Acquainted w) (step : e.step w w') :
    Acquainted w' where
  channels := Beside.channels step acquainted.channels
  greeted := by
    have same := Beside.untouched step
    rw [same.connect, same.connected, same.heard, same.said]
    exact acquainted.greeted

theorem Agreeing.beside {e : Beside ι τ} {w w' : UsbWorld ι τ} (agreeing : Agreeing w) (step : e.step w w') :
    Agreeing w' where
  toAcquainted := agreeing.toAcquainted.beside step
  agree := by rw [(Beside.untouched step).connect, (Beside.untouched step).connected, agreeing.agree]

theorem Severed.beside {e : Beside ι τ} {w w' : UsbWorld ι τ} (severed : Severed w) (step : e.step w w') :
    Severed w' where
  channels := Beside.channels step severed.channels
  connect := (Beside.untouched step).connect.trans severed.connect
  connected := (Beside.untouched step).connected.trans severed.connected

theorem Agreeing.onRequest {w w' : UsbWorld ι τ} {q : UsbCall} {a : q.Answer} (about : q.onRequest = true)
    (agreeing : Agreeing w) (answered : usbPost w q a w') : Agreeing w' := by
  obtain ⟨connect, connected, heard, said⟩ := onRequest_connection about answered
  refine ⟨⟨onRequest_channels about answered agreeing.channels, ?_⟩, ?_⟩
  · rw [connect, connected, heard, said]
    exact agreeing.greeted
  · rw [connect, connected, agreeing.agree]

def acquaintance (w : UsbWorld ι τ) (q : UsbCall) : Prop :=
  Acquainted w ∧ (q = .waitEvents → w.connect = w.connected)

theorem Agreeing.acquaintance {w : UsbWorld ι τ} (agreeing : Agreeing w) (q : UsbCall) : HostFs.acquaintance w q :=
  ⟨agreeing.toAcquainted, fun _ => agreeing.agree⟩

abbrev amidAll : Prog.Contract UsbCall UsbCall.Answer (UsbWorld ι τ) := amid acquaintance fun _ _ _ => True

theorem agreeing_asyncDone {w : UsbWorld ι τ} (agreeing : Agreeing w) :
    asyncDone.wp amidAll (fun _ => Agreeing) w := by
  have stable : ∀ {q} {v v' : UsbWorld ι τ}, Agreeing v →
      Relation.ReflTransGen (besides (fun _ _ _ => True) q) v v' → Agreeing v' := by
    intro q v v' holds
    apply Prog.stable_star _ holds
    rintro u u' holds ⟨e, _, step⟩
    exact holds.beside step
  refine Prog.wp_of_only onRequest_asyncDone ?_ ?_ agreeing
  · intro v q _ holds v' steps
    exact (stable holds steps).acquaintance q
  · rintro v q a v' about holds ⟨mid, steps, answered⟩
    exact (stable holds steps).onRequest about answered

theorem wp_amidAll {P : UsbWorld ι τ → Prop} {α : Type} {q : UsbCall} {k : q.Answer → Usb α}
    {R : α → UsbWorld ι τ → Prop} {w : UsbWorld ι τ} (holds : P w)
    (stable : ∀ e v v', P v → Beside.step e v v' → P v') (allowed : ∀ v, P v → acquaintance v q)
    (after : ∀ v a v', P v → usbPost v q a v' → (k a).wp amidAll R v') : (Prog.ask q k).wp amidAll R w := by
  apply Prog.wp_among_ask holds _ allowed after
  rintro v v' holds ⟨e, _, step⟩
  exact stable e v v' holds step

/-- Halfway through a change of the connection `g_connected` is `b`. -/
structure Halfway (b : Bool) (w : UsbWorld ι τ) : Prop extends Acquainted w where
  connected : w.connected = b

theorem Halfway.beside {e : Beside ι τ} {b : Bool} {w w' : UsbWorld ι τ} (halfway : Halfway b w) (step : e.step w w') :
    Halfway b w' where
  toAcquainted := halfway.toAcquainted.beside step
  connected := (Beside.untouched step).connected.trans halfway.connected

theorem severed_disconnect {w : UsbWorld ι τ} (agreeing : Agreeing w) :
    disconnect.wp amidAll (fun _ v => Severed v ∧ v.heard = [] ∧ v.said = []) w := by
  apply wp_amidAll agreeing (fun _ _ _ holds step => holds.beside step) (fun v holds => holds.acquaintance _)
  rintro v _ _ holds rfl
  have left : Halfway false { v with connected := false } := by
    refine ⟨⟨holds.channels, ?_⟩, rfl⟩
    rintro (bad | set)
    · cases bad
    · exact holds.greeted (Or.inr set)
  apply wp_amidAll left (fun _ _ _ holds step => holds.beside step) (fun v holds => ⟨holds.toAcquainted, by simp⟩)
  rintro v _ _ holds rfl
  exact ⟨⟨holds.channels, rfl, holds.connected⟩, rfl, rfl⟩

theorem severed_recorded : Recorded ((amidAll : Prog.Contract UsbCall UsbCall.Answer (UsbWorld ι τ)).through UsbCall.link fun _ a => a) Severed
    UsbWorld.heard UsbWorld.said := by
  apply recorded
  · intro w q severed
    exact severed.agreeing.acquaintance _
  · rintro w w' q severed ⟨e, _, step⟩
    exact severed.beside step
  · intro w heard said severed
    exact ⟨severed.channels, severed.connect, severed.connected⟩

/-- The handshake is over and the thread is about to say so. -/
structure Welcome (w : UsbWorld ι τ) : Prop extends Severed w where
  met : Greeted w.heard w.said

theorem Welcome.beside {e : Beside ι τ} {w w' : UsbWorld ι τ} (welcome : Welcome w) (step : e.step w w') :
    Welcome w' where
  toSevered := welcome.toSevered.beside step
  met := by
    rw [(Beside.untouched step).heard, (Beside.untouched step).said]
    exact welcome.met

theorem welcome_setAyncreq {w : UsbWorld ι τ} (welcome : Welcome w) :
    setAyncreq.wp amidAll (fun _ => Welcome) w := by
  have stable : ∀ {q} {v v' : UsbWorld ι τ}, Welcome v →
      Relation.ReflTransGen (besides (fun _ _ _ => True) q) v v' → Welcome v' := by
    intro q v v' holds
    apply Prog.stable_star _ holds
    rintro u u' holds ⟨e, _, step⟩
    exact holds.beside step
  refine Prog.wp_of_only onRequest_setAyncreq ?_ ?_ welcome
  · intro v q _ holds v' steps
    exact (stable holds steps).toSevered.agreeing.acquaintance q
  · rintro v q a v' about holds ⟨mid, steps, answered⟩
    have before := stable holds steps
    obtain ⟨connect, connected, heard, said⟩ := onRequest_connection about answered
    refine ⟨⟨onRequest_channels about answered before.channels, ?_, ?_⟩, ?_⟩
    · exact connect.trans before.connect
    · exact connected.trans before.connected
    · rw [heard, said]
      exact before.met

/-- From the handshake on: first `g_connected`, then the flag. -/
theorem agreeing_connect {w : UsbWorld ι τ} (welcome : Welcome w) :
    (do Prog.call (UsbCall.setConnected true); Prog.call UsbCall.setConnect : Usb Unit).wp amidAll (fun _ => Agreeing) w := by
  apply wp_amidAll welcome (fun _ _ _ holds step => holds.beside step)
    (fun v holds => holds.toSevered.agreeing.acquaintance _)
  rintro v _ _ holds rfl
  have told : Halfway true { v with connected := true } := ⟨⟨holds.channels, fun _ => holds.met⟩, rfl⟩
  apply wp_amidAll told (fun _ _ _ holds step => holds.beside step) (fun v holds => ⟨holds.toAcquainted, by simp⟩)
  rintro v _ _ holds rfl
  exact ⟨⟨holds.channels, fun _ => holds.greeted (Or.inl holds.connected)⟩, holds.connected.symm⟩

theorem agreeing_attached {w : UsbWorld ι τ} (agreeing : Agreeing w) : attached.wp amidAll (fun _ => Agreeing) w := by
  unfold attached
  refine (Prog.wp_bind _ _ _ _).2 (Prog.wp_mono ?_ (severed_disconnect agreeing))
  rintro _ v₁ ⟨severed, heard₁, said₁⟩
  refine (Prog.wp_bind _ _ _ _).2 (Prog.wp_mono ?_ (Prog.wp_via (severed_recorded.readData 4 4 severed)))
  rintro magic v₂ ⟨severed, read⟩
  refine Prog.wp_ite ?_ (fun _ => severed.agreeing)
  rintro ⟨whole, magical⟩
  obtain ⟨length, said₂, heard₂⟩ := read whole
  refine (Prog.wp_bind _ _ _ _).2 (Prog.wp_mono ?_ (Prog.wp_via (severed_recorded.sendHelloCmd severed)))
  rintro ok v₃ ⟨severed, hello⟩
  refine Prog.wp_ite ?_ (fun _ => severed.agreeing)
  intro ok
  obtain ⟨said₃, resp, heard₃, response⟩ := hello ok
  have welcome : Welcome v₃ := by
    refine ⟨severed, ?_, magic.2, resp, ?_, length, magical, response⟩
    · rw [said₃, said₂, said₁, List.nil_append]
    · rw [heard₃, heard₂, heard₁, List.nil_append]
  refine (Prog.wp_bind _ _ _ _).2 (Prog.wp_mono ?_ (welcome_setAyncreq welcome))
  rintro _ v₄ welcome
  exact agreeing_connect welcome

omit [DecidableEq ι] [DecidableEq τ] in
theorem wp_onBit {C : Prog.Contract UsbCall UsbCall.Answer (UsbWorld ι τ)} {bit : Bool} {p : Usb Unit}
    {R : Unit → UsbWorld ι τ → Prop} {w : UsbWorld ι τ} (set : bit = true → p.wp C R w) (clear : bit = false → R () w) :
    (onBit bit p).wp C R w :=
  Prog.wp_ite set fun unset => clear (Bool.eq_false_iff.mpr unset)

theorem agreeing_usbTurn (result : UsbEvents) {w : UsbWorld ι τ} (agreeing : Agreeing w) :
    (usbTurn result).wp amidAll (fun _ => Agreeing) w := by
  refine (Prog.wp_bind _ _ _ _).2 (Prog.wp_mono ?_ (wp_onBit (fun _ => agreeing_asyncDone agreeing) fun _ => agreeing))
  intro _ v₁ holds
  refine (Prog.wp_bind _ _ _ _).2 (Prog.wp_mono ?_
    (wp_onBit (R := fun _ => Agreeing) (fun _ => Prog.wp_mono ?_ (severed_disconnect holds)) fun _ => holds))
  · intro _ v₂ holds
    exact (Prog.wp_bind _ _ _ _).2 (wp_onBit (fun _ => agreeing_attached holds) fun _ => holds)
  · exact fun _ _ holds => holds.1.agreeing

theorem agreeing_usbThread (running : Bool) {w : UsbWorld ι τ} (agreeing : Agreeing w) :
    (usbThread running).wp amidAll (fun _ => Agreeing) w := by
  cases running with
  | false => exact agreeing
  | true =>
      apply wp_amidAll agreeing (fun _ _ _ holds step => holds.beside step) (fun v holds => holds.acquaintance _)
      intro v result v' holds answered
      cases result with
      | none =>
          cases answered
          exact holds
      | some result =>
          obtain ⟨_, _, rfl⟩ := answered
          exact agreeing_usbTurn result ⟨⟨holds.channels, holds.greeted⟩, holds.agree⟩

theorem UsbWorld.Starts.agreeing {w : UsbWorld ι τ} (starts : w.Starts) : Agreeing w where
  channels := .init starts.channels
  greeted := by simp [starts.connect, starts.connected]
  agree := starts.connect.trans starts.connected.symm

theorem connection_greeted {c : Usb Bool × UsbWorld ι τ} (reachable : (connection ι τ).Reachable c) :
    (c.2.connected = true ∨ c.2.connect = true → Greeted c.2.heard c.2.said) ∧
    (c.1.next = some .waitEvents → c.2.connect = c.2.connected) ∧
    (asyncDriver ι τ).Reachable c.2.channels := by
  have now : c.1.wp amidAll (fun _ => Agreeing) c.2 :=
    Prog.among_invariant (C := usbSide acquaintance) (G := fun _ _ _ => True) (I := fun _ => Agreeing)
      (fun _ starts => starts.agreeing) (fun running _ holds => agreeing_usbThread running holds)
      (fun _ _ _ _ holds _ step => holds.beside step) (reachable.guarded fun _ _ _ _ => trivial)
  obtain ⟨p, w⟩ := c
  cases p with
  | ret a =>
      refine ⟨now.greeted, ?_, now.channels⟩
      intro at_wait
      contradiction
  | ask q k =>
      obtain ⟨acquainted, agree⟩ := Prog.among_pre now.1
      exact ⟨acquainted.greeted, fun at_wait => agree (Option.some.inj at_wait), acquainted.channels⟩

end

/-! ## A session -/

/-- The thread's world without faults, and what the PC has sent it. -/
abbrev Session := { v : UsbWorld Unit Unit × Bytes // v.1.channels.fault = false }

theorem fillAsync_fault (s : Async Unit Unit) (packet : Bytes) : (s.fillAsync packet).fault = s.fault := by
  unfold Async.fillAsync
  cases s.header packet <;> rfl

/-- Every request of the thread succeeds. -/
def Session.answer : (q : UsbCall) → Session → q.Answer × Session
  | .link .waitSema, v => (true, v)
  | .link .signalSema, v => ((), v)
  | .link .usbConnected, v => (v.1.1.connected, v)
  | .link (.bulkin data), v => (some data.length, ⟨({ v.1.1 with said := v.1.1.said ++ data }, v.1.2), v.2⟩)
  | .link (.bulkout size _), v =>
      (some (v.1.2.take size), ⟨({ v.1.1 with heard := v.1.1.heard ++ v.1.2.take size }, v.1.2.drop size), v.2⟩)
  | .waitEvents, v =>
      if v.1.1.attach ∨ v.1.1.detach ∨ v.1.1.async then
        (some ⟨v.1.1.attach, v.1.1.detach, v.1.1.async⟩, ⟨(v.1.1.take, v.1.2), v.2⟩)
      else (none, v)
  | .asyncReq, v => ((v.1.1.retcode, v.1.1.recvsize), v)
  | .fillAsync len, v => ((), ⟨(v.1.1.fill len, v.1.2), (fillAsync_fault _ _).trans v.2⟩)
  | .prepareAsync, v => ((), ⟨({ v.1.1 with retcode := 0, recvsize := 0 }, v.1.2), v.2⟩)
  | .clearAsync, v => ((), ⟨({ v.1.1 with async := false }, v.1.2), v.2⟩)
  | .recvAsync, v => (true, ⟨(v.1.1.submit true, v.1.2), v.2⟩)
  | .clearConnect, v => ((), ⟨({ v.1.1 with connect := false, heard := [], said := [] }, v.1.2), v.2⟩)
  | .setConnect, v => ((), ⟨({ v.1.1 with connect := true }, v.1.2), v.2⟩)
  | .setConnected connected, v => ((), ⟨({ v.1.1 with connected := connected }, v.1.2), v.2⟩)

theorem Session.answers (pre : UsbWorld Unit Unit → UsbCall → Prop) (q : UsbCall) (v : Session) :
    (usbSide pre).post v.1.1 q (v.answer q).1 (v.answer q).2.1.1 := by
  cases q with
  | link q =>
      cases q with
      | bulkin data =>
          refine ⟨Nat.le_refl _, ?_⟩
          rw [List.take_length]
          rfl
      | bulkout size room => exact ⟨by rw [List.length_take]; omega, rfl⟩
      | _ => exact rfl
  | waitEvents =>
      by_cases pending : v.1.1.attach ∨ v.1.1.detach ∨ v.1.1.async
      · rw [show v.answer .waitEvents = _ from if_pos pending]
        exact ⟨by simpa using pending, rfl, rfl⟩
      · rw [show v.answer .waitEvents = _ from if_neg pending]
        rfl
  | asyncReq => exact ⟨rfl, rfl⟩
  | fillAsync len => exact ⟨v.2, rfl⟩
  | _ => exact rfl

/-- The cable is attached and the PC has sent its magic. -/
def sessionStart : Session where
  val := (⟨true, false, false, false, false, false, false, 0, 0, [], asyncStart, [], [], [], []⟩,
    encode hostfsMagic ++ encode helloCmd)
  property := rfl

def metWorld : UsbWorld Unit Unit := (Prog.interp Session.answer (usbThread true) sessionStart).2.1.1

theorem metWorld_reachable : ((connection Unit Unit).guard
    fun c label => ∀ e, label = some e → Settled c.1.next c.2 e).Reachable (usbThread true, metWorld) := by
  have started : ((connection Unit Unit).guard fun c label => ∀ e, label = some e → Settled c.1.next c.2 e).Reachable
      (.ret true, { sessionStart.1.1 with attach := false }) :=
    .init ⟨rfl, ⟨rfl, rfl, rfl, rfl, rfl, asyncStart_starts, rfl, rfl⟩⟩
  have asleep := started.step (a := none) ⟨by simp, (rfl : _ = (usbThread true, _))⟩
  have plug : (connection Unit Unit).step (usbThread true, { sessionStart.1.1 with attach := false }) (some .attach)
      (usbThread true, sessionStart.1.1) := ⟨rfl, (rfl : sessionStart.1.1 = _)⟩
  have attached := asleep.step (a := some .attach) ⟨fun _ _ _ => ⟨rfl, rfl, rfl⟩, plug⟩
  have met := Prog.among_interp (f := fun v : Session => v.1.1) (Session.answers _) (by simp) attached
  exact met.step (a := none) ⟨by simp, rfl⟩

theorem connection_greeted_met : metWorld.connected = true ∧ Greeted metWorld.heard metWorld.said :=
  ⟨by decide +kernel, (connection_greeted metWorld_reachable.of_guard).1 (Or.inl (by decide +kernel))⟩

end Psplink.HostFs
