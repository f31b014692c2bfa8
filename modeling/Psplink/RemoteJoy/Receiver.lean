import Psplink.HostFs.AsyncRings
import Psplink.RemoteJoy.Sender

/-!
# The way of the joypad

The records of the joystick on their way: the socket, the packets that `async_thread` of usbhostfs_pc/main.c makes of
what it reads there, the async channel of usbhostfs/main.c and the loop of tools/remotejoy/main.c.
-/

namespace Psplink.RemoteJoy
open Psplink.Lib Psplink.HostFs

/-! ## The way of a record -/

/-- `ASYNC_JOY` -/
abbrev asyncJoy : Word := 4

theorem asyncJoy_lt : 4 < maxAsyncChannels := by decide

def joyChannel : Channel := ⟨4, asyncJoy_lt⟩

/-- After a read `main_thread` reads again, or it gives up what is in the channel. -/
inductive Phase
  | reading
  | discarding
deriving DecidableEq

/-- `events` have been handled by the sender and `applied` by the receiver; `link` holds the data of the packets on
their way. -/
structure Remotejoy where
  events : List SdlEvent
  sender : Sender
  socket : Bytes
  link : List Bytes
  driver : Async Unit Unit
  phase : Phase
  joy : SceCtrlData
  applied : List JoyEvent

inductive JoyStep
  | joystick (e : SdlEvent)
  | relay (readbytes : Nat)
  | fill
  | read
  | take
  | abandon
  | readSection
  | flush
  | flushSection

/-- What `async_thread` reads at most: `sizeof(buf) - sizeof(struct AsyncCommand)`. -/
def relayBuf : Nat := 512 - sizeof AsyncCommand

def packet (data : Bytes) : Bytes := encode (⟨asyncMagic, asyncJoy⟩ : AsyncCommand) ++ data

namespace Remotejoy

/-- The bytes that a read takes out of the ring. -/
def joyevent (driver : Async Unit Unit) : Bytes :=
  ((driver.endp ()).popMany maxAsyncBuffer (Async.readLen (driver.endp ()) (sizeof JoyEvent))).1

/-- `main_thread` with what it has read. -/
def received (s : Remotejoy) (data : Bytes) : Remotejoy :=
  let e : JoyEvent := decode data
  if data.length ≠ sizeof JoyEvent ∨ e.magic ≠ joyMagic then { s with phase := .discarding }
  else { s with joy := s.joy.apply e, applied := s.applied ++ [e] }

def withDriver (s : Remotejoy) (driver : Option (Async Unit Unit)) : Option Remotejoy :=
  driver.map fun driver => { s with driver := driver }

def after (cfg : Config) (s : Remotejoy) : JoyStep → Option Remotejoy
  | .joystick e =>
      let sender := s.sender.turn cfg e
      some { s with
        events := s.events ++ [e]
        sender := sender
        socket := s.socket ++ records (sender.sent.drop s.sender.sent.length) }
  | .relay readbytes =>
      if 0 < readbytes ∧ readbytes ≤ relayBuf ∧ readbytes ≤ s.socket.length then
        some { s with socket := s.socket.drop readbytes, link := s.link ++ [s.socket.take readbytes] }
      else none
  | .fill =>
      match s.link with
      | [] => none
      | data :: link => some { s with link := link, driver := s.driver.fillAsync (packet data) }
  | .read => if s.phase = .reading then s.withDriver (s.driver.after (.read () asyncJoy (sizeof JoyEvent))) else none
  | .take => s.withDriver (s.driver.after (.take ()))
  | .abandon => s.withDriver (s.driver.after (.abandon ()))
  | .readSection => (s.withDriver (s.driver.after (.readSection ()))).map (·.received (joyevent s.driver))
  | .flush => if s.phase = .discarding then s.withDriver (s.driver.after (.flush () asyncJoy)) else none
  | .flushSection => (s.withDriver (s.driver.after (.flushSection ()))).map ({ · with phase := .reading })

/-- The channel is registered, and nothing has been sent. -/
structure Starts (s : Remotejoy) : Prop where
  events : s.events = []
  sender : s.sender = .start
  socket : s.socket = []
  link : s.link = []
  chan : s.driver.chan joyChannel = some ()
  ring : RingBuffer.Fifo maxAsyncBuffer (s.driver.endp ()) []
  event : s.driver.event joyChannel = false
  caller : s.driver.caller () = .idle
  phase : s.phase = .reading
  joy : s.joy = currjoy
  applied : s.applied = []

end Remotejoy

def remotejoy (cfg : Config) : System Remotejoy JoyStep where
  init := Remotejoy.Starts
  step s e s' := s.after cfg e = some s'

/-! ## What a step can be -/

namespace Remotejoy

variable {cfg : Config} {s s' : Remotejoy}

theorem withDriver_eq {driver : Option (Async Unit Unit)} (after : s.withDriver driver = some s') :
    ∃ d, driver = some d ∧ s' = { s with driver := d } := by
  obtain ⟨d, same, rfl⟩ := Option.map_eq_some_iff.mp after
  exact ⟨d, same, rfl⟩

theorem relay_of_after {readbytes : Nat} (after : s.after cfg (.relay readbytes) = some s') :
    0 < readbytes ∧ readbytes ≤ s.socket.length ∧
      s' = { s with socket := s.socket.drop readbytes, link := s.link ++ [s.socket.take readbytes] } := by
  obtain ⟨some_, same⟩ := Option.ite_none_right_eq_some.mp after
  exact ⟨some_.1, some_.2.2, (Option.some.inj same).symm⟩

theorem fill_of_after (after : s.after cfg .fill = some s') :
    ∃ data link, s.link = data :: link ∧ s' = { s with link := link, driver := s.driver.fillAsync (packet data) } := by
  simp only [Remotejoy.after] at after
  split at after
  · cases after
  · next data link there => exact ⟨data, link, there, (Option.some.inj after).symm⟩

theorem read_of_after (after : s.after cfg .read = some s') :
    ∃ d, s.driver.after (.read () asyncJoy (sizeof JoyEvent)) = some d ∧ s' = { s with driver := d } :=
  withDriver_eq (Option.ite_none_right_eq_some.mp after).2

theorem readSection_of_after (after : s.after cfg .readSection = some s') :
    ∃ d, s.driver.after (.readSection ()) = some d ∧ s' = { s with driver := d }.received (joyevent s.driver) := by
  obtain ⟨s₁, inner, rfl⟩ := Option.map_eq_some_iff.mp after
  obtain ⟨d, moved, rfl⟩ := withDriver_eq inner
  exact ⟨d, moved, rfl⟩

theorem flush_of_after (after : s.after cfg .flush = some s') :
    s.phase = .discarding ∧ ∃ d, s.driver.after (.flush () asyncJoy) = some d ∧ s' = { s with driver := d } :=
  (Option.ite_none_right_eq_some.mp after).imp_right withDriver_eq

theorem flushSection_of_after (after : s.after cfg .flushSection = some s') :
    ∃ d, s.driver.after (.flushSection ()) = some d ∧ s' = { s with driver := d, phase := .reading } := by
  obtain ⟨s₁, inner, rfl⟩ := Option.map_eq_some_iff.mp after
  obtain ⟨d, moved, rfl⟩ := withDriver_eq inner
  exact ⟨d, moved, rfl⟩

end Remotejoy

/-! ## What should hold -/

/-- The bytes in the ring. -/
def Remotejoy.size (s : Remotejoy) : Int := (s.driver.endp ()).size

/-- The ring has room for what comes. -/
def Lossless (s : Remotejoy) : JoyStep → Prop
  | .fill => ∀ data ∈ s.link.head?, s.size + data.length ≤ maxAsyncBuffer
  | _ => True

/-- No read takes a part of a record, and what is given up is nothing. -/
def Whole (s : Remotejoy) : JoyStep → Prop
  | .readSection => s.size = 0 ∨ (sizeof JoyEvent : Int) ≤ s.size
  | .flushSection => s.size = 0
  | _ => True

def Framed (s : Remotejoy) (e : JoyStep) : Prop := Lossless s e ∧ Whole s e

/-- All bytes have been read. -/
structure Remotejoy.Drained (s : Remotejoy) : Prop where
  socket : s.socket = []
  link : s.link = []
  ring : s.size = 0

/-- The records that have not been applied are on their way, byte by byte. -/
def Remotejoy.Streams (s : Remotejoy) : Prop :=
  ∃ pending xs, s.sender.sent = s.applied ++ pending ∧ RingBuffer.Fifo maxAsyncBuffer (s.driver.endp ()) xs ∧
    records pending = xs ++ (s.link.flatten ++ s.socket)

/-! ## The driver -/

/-- The channel of the joypad is registered, and the receiver is about that channel. -/
structure Ready (d : Async Unit Unit) : Prop where
  chan : d.chan joyChannel = some ()
  taken : ∀ {ch len}, d.caller () = .taken ch len → ch = joyChannel ∧ len = sizeof JoyEvent
  waiting : ∀ {ch len}, d.caller () = .waiting ch len → ch = joyChannel ∧ len = sizeof JoyEvent
  flushing : ∀ {ch}, d.caller () = .flushing ch → ch = joyChannel

variable {d d' : Async Unit Unit}

theorem Ready.moved (ready : Ready d) {c : Caller} (chan : d'.chan = d.chan) (caller : d'.caller () = c)
    (taken : ∀ {ch len}, c = .taken ch len → ch = joyChannel ∧ len = sizeof JoyEvent)
    (waiting : ∀ {ch len}, c = .waiting ch len → ch = joyChannel ∧ len = sizeof JoyEvent)
    (flushing : ∀ {ch}, c = .flushing ch → ch = joyChannel) : Ready d' where
  chan := (congrFun chan joyChannel).trans ready.chan
  taken same := taken (caller.symm.trans same)
  waiting same := waiting (caller.symm.trans same)
  flushing same := flushing (caller.symm.trans same)

theorem ready_of_idle (chan : d.chan joyChannel = some ()) (idle : d.caller () = .idle) : Ready d where
  chan := chan
  taken same := by
    rw [idle] at same
    cases same
  waiting same := by
    rw [idle] at same
    cases same
  flushing same := by
    rw [idle] at same
    cases same

theorem channelOf_joy {ch : Channel} (names : channelOf asyncJoy = some ch) : ch = joyChannel :=
  (Option.some.inj (names.symm.trans (by decide : channelOf asyncJoy = some joyChannel)))

theorem Ready.read (ready : Ready d) (after : d.after (.read () asyncJoy (sizeof JoyEvent)) = some d') :
    Ready d' ∧ d'.endp = d.endp := by
  have move := move_of_after after
  cases move with
  | none => exact ⟨ready, rfl⟩
  | wait idle names =>
      refine ⟨ready.moved rfl rfl nofun ?_ nofun, rfl⟩
      rintro _ _ ⟨⟩
      exact ⟨channelOf_joy names, rfl⟩

theorem Ready.take (ready : Ready d) (after : d.after (.take ()) = some d') : Ready d' ∧ d'.endp = d.endp := by
  have move := move_of_after after
  cases move with
  | none => exact ⟨ready, rfl⟩
  | take waiting =>
      refine ⟨ready.moved rfl rfl ?_ nofun nofun, rfl⟩
      rintro _ _ ⟨⟩
      exact ready.waiting waiting

theorem Ready.abandon (ready : Ready d) (after : d.after (.abandon ()) = some d') : Ready d' ∧ d'.endp = d.endp := by
  have move := move_of_after after
  cases move with
  | none => exact ⟨ready, rfl⟩
  | abandon => exact ⟨ready.moved (c := .idle) rfl rfl nofun nofun nofun, rfl⟩

theorem Ready.flush (ready : Ready d) (after : d.after (.flush () asyncJoy) = some d') : Ready d' ∧ d'.endp = d.endp := by
  have move := move_of_after after
  cases move with
  | none => exact ⟨ready, rfl⟩
  | flush idle names =>
      refine ⟨ready.moved rfl rfl nofun nofun ?_, rfl⟩
      rintro _ ⟨⟩
      exact channelOf_joy names

theorem Ready.readSection (ready : Ready d) (after : d.after (.readSection ()) = some d') :
    Ready d' ∧ d'.endp () =
      ((d.endp ()).popMany maxAsyncBuffer (Async.readLen (d.endp ()) (sizeof JoyEvent))).2 := by
  obtain ⟨ch, len, taken, rfl⟩ := taken_of_readSection after
  obtain ⟨rfl, rfl⟩ := ready.taken taken
  unfold Async.readSection
  rw [ready.chan]
  dsimp only
  split
  · exact ⟨ready.moved (c := .idle) rfl rfl nofun nofun nofun, rfl⟩
  · exact ⟨ready.moved (c := .idle) rfl rfl nofun nofun nofun, rfl⟩

theorem Ready.flushSection (ready : Ready d) (after : d.after (.flushSection ()) = some d') :
    Ready d' ∧ d'.endp () = (d.endp ()).clear := by
  obtain ⟨ch, flushing, rfl⟩ := flushing_of_flushSection after
  obtain rfl := ready.flushing flushing
  unfold Async.flushSection
  rw [ready.chan]
  exact ⟨ready.moved (c := .idle) rfl rfl nofun nofun nofun, rfl⟩

theorem header_packet (ready : Ready d) {data : Bytes} (some_ : data ≠ []) :
    d.header (packet data) = some (joyChannel, ()) := by
  have decoded : (decode (packet data) : AsyncCommand) = ⟨asyncMagic, asyncJoy⟩ := Packed.decode_encode _ _
  refine header_eq_some.mpr ⟨?_, by rw [decoded], by rw [decoded]; rfl, ready.chan⟩
  rw [packet, List.length_append, Packed.length_encode]
  have := List.length_pos_iff.mpr some_
  have size : Packed.size AsyncCommand = 8 := rfl
  omega

theorem Ready.fill (ready : Ready d) {data : Bytes} (some_ : data ≠ []) :
    Ready (d.fillAsync (packet data)) ∧
      (d.fillAsync (packet data)).endp () = (d.endp ()).pushAll maxAsyncBuffer (Async.fits (d.endp ()) data) ∧
      (d.fillAsync (packet data)).caller = d.caller := by
  rw [Async.fillAsync, header_packet ready some_, packet, Packed.drop_encode]
  exact ⟨⟨ready.chan, ready.taken, ready.waiting, ready.flushing⟩, rfl, rfl⟩

theorem fits_length (r : AsyncEndpoint) (data : Bytes) (room : 0 ≤ r.size ∧ r.size ≤ maxAsyncBuffer) :
    r.size + (Async.fits r data).length ≤ maxAsyncBuffer ∧ (Async.fits r data).length ≤ data.length ∧
      ((Async.fits r data).length = data.length ↔ r.size + data.length ≤ maxAsyncBuffer) := by
  rw [Async.fits, List.length_take]
  split <;> omega

/-- What is left of the ring and what was read, which is a record or less. -/
theorem Ready.reads {xs : Bytes} (ready : Ready d) (fifo : RingBuffer.Fifo maxAsyncBuffer (d.endp ()) xs)
    (after : d.after (.readSection ()) = some d') :
    Remotejoy.joyevent d = xs.take (sizeof JoyEvent) ∧
      RingBuffer.Fifo maxAsyncBuffer (d'.endp ()) (xs.drop (sizeof JoyEvent)) := by
  have ring := (ready.readSection after).2
  have taken : Async.readLen (d.endp ()) (sizeof JoyEvent) = min (sizeof JoyEvent) xs.length := by
    have := fifo.size
    rw [Async.readLen]
    split <;> omega
  obtain ⟨read, left⟩ := fifo.popMany (taken.trans_le (Nat.min_le_right _ _))
  rw [← ring, taken] at left
  rw [Remotejoy.joyevent, read, taken]
  rcases Nat.le_total (sizeof JoyEvent) xs.length with enough | few
  · rw [Nat.min_eq_left enough] at left ⊢
    exact ⟨rfl, left⟩
  · rw [Nat.min_eq_right few, List.drop_length] at left
    rw [Nat.min_eq_right few, List.take_length, List.take_of_length_le few, List.drop_eq_nil_of_le few]
    exact ⟨rfl, left⟩

end Psplink.RemoteJoy
