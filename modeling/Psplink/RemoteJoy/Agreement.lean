import Psplink.RemoteJoy.Receiver

/-!
# The joypad on the PSP

The buttons that tools/remotejoy/main.c has after it has read what the joystick sent, however the stream was cut into
packets.
-/

namespace Psplink.RemoteJoy
open Psplink.Lib Psplink.HostFs

variable {cfg : Config} {d d' : Async Unit Unit}

/-! ## What holds in every run -/

namespace Remotejoy

structure Base (cfg : Config) (s : Remotejoy) : Prop where
  ready : Ready s.driver
  ring : ∃ xs, RingBuffer.Fifo maxAsyncBuffer (s.driver.endp ()) xs
  data : ∀ data ∈ s.link, data ≠ []
  sender : s.sender = s.events.foldl (.turn cfg) .start
  magic : ∀ e ∈ s.sender.sent, e.magic = joyMagic
  state : s.sender.buttonState = s.sender.sent.foldl pressed 0
  joy : s.joy = s.applied.foldl .apply currjoy

theorem sizeof_joyEvent : sizeof JoyEvent = 12 := rfl

/-- The bytes of records that have been sent, and have neither been applied nor are on the way. -/
def owed (s : Remotejoy) : Int :=
  s.sender.sent.length * sizeof JoyEvent - s.applied.length * sizeof JoyEvent - s.size - s.link.flatten.length -
    s.socket.length

variable {s s' : Remotejoy} {e : JoyStep}

theorem Starts.base (starts : s.Starts) : s.Base cfg where
  ready := ready_of_idle starts.chan starts.caller
  ring := ⟨_, starts.ring⟩
  data data mem := by
    rw [starts.link] at mem
    cases mem
  sender := by rw [starts.sender, starts.events]; rfl
  magic e mem := by
    rw [starts.sender] at mem
    cases mem
  state := by rw [starts.sender]; rfl
  joy := by rw [starts.joy, starts.applied]; rfl

/-- What a step does to the invariant, to what is owed and to the stream. -/
structure Moves (cfg : Config) (s : Remotejoy) (e : JoyStep) (s' : Remotejoy) : Prop where
  base : s'.Base cfg
  owed : s.owed ≤ s'.owed
  lost : ¬ Framed s e → s.owed < s'.owed
  streams : s.Streams → Framed s e → s'.Streams

/-- The ring is as it was. -/
theorem Base.quiet (base : s.Base cfg) {d : Async Unit Unit} (ready : Ready d ∧ d.endp = s.driver.endp)
    (quiet : Framed s e) : Moves cfg s e { s with driver := d } := by
  obtain ⟨ready, same⟩ := ready
  have ring : d.endp () = s.driver.endp () := congrFun same ()
  refine ⟨{ base with ready := ready, ring := ?_ }, ?_, fun loud => absurd quiet loud, ?_⟩
  · rw [ring]
    exact base.ring
  · rw [owed, owed, size, size, ring]
  · rintro ⟨pending, xs, sent, fifo, bytes⟩ -
    exact ⟨pending, xs, sent, by rwa [ring], bytes⟩

theorem Base.joystick (base : s.Base cfg) (e : SdlEvent) (after : s.after cfg (.joystick e) = some s') :
    Moves cfg s (.joystick e) s' := by
  cases after
  obtain ⟨new, sent, magic, state⟩ := s.sender.sends_turn cfg e
  have more : (s.sender.turn cfg e).sent.drop s.sender.sent.length = new := by rw [sent, List.drop_left]
  rw [more]
  refine ⟨{ base with sender := ?_, magic := ?_, state := ?_ }, ?_, fun lost => absurd ⟨trivial, trivial⟩ lost, ?_⟩
  · rw [List.foldl_append, ← base.sender]
    rfl
  · intro e mem
    rw [sent] at mem
    exact (List.mem_append.mp mem).elim (base.magic e) (magic e)
  · rw [state, sent, List.foldl_append, ← base.state]
  · simp only [owed, size, sent, List.length_append, length_records, sizeof_joyEvent]
    omega
  · rintro ⟨pending, xs, sent', fifo, bytes⟩ -
    refine ⟨pending ++ new, xs, ?_, fifo, ?_⟩
    · rw [sent, sent', List.append_assoc]
    · rw [records_append, bytes]
      simp only [List.append_assoc]

theorem Base.relay (base : s.Base cfg) {readbytes : Nat} (after : s.after cfg (.relay readbytes) = some s') :
    Moves cfg s (.relay readbytes) s' := by
  obtain ⟨some_, there, rfl⟩ := relay_of_after after
  refine ⟨{ base with data := fun data mem => ?_ }, ?_, fun lost => absurd ⟨trivial, trivial⟩ lost, ?_⟩
  · rcases List.mem_append.mp mem with old | new
    · exact base.data data old
    · rw [List.mem_singleton.mp new]
      refine List.ne_nil_of_length_pos ?_
      rw [List.length_take]
      omega
  · simp only [owed, size, List.flatten_append, List.flatten_singleton, List.length_append, List.length_take,
      List.length_drop]
    omega
  · rintro ⟨pending, xs, sent, fifo, bytes⟩ -
    refine ⟨pending, xs, sent, fifo, ?_⟩
    rw [bytes, List.flatten_append, List.flatten_singleton, List.append_assoc, List.take_append_drop]

theorem Base.fill (base : s.Base cfg) (after : s.after cfg .fill = some s') : Moves cfg s .fill s' := by
  obtain ⟨data, link, there, rfl⟩ := fill_of_after after
  obtain ⟨ready, ring, -⟩ := base.ready.fill (base.data data (by rw [there]; exact List.mem_cons_self))
  obtain ⟨xs, fifo⟩ := base.ring
  have size := fifo.size
  have fits := fits_length (s.driver.endp ()) data ⟨by omega, fifo.room⟩
  have pushed := fifo.pushAll fits.1
  rw [← ring] at pushed
  have size' := pushed.size
  have lossless : Lossless s .fill ↔ (Async.fits (s.driver.endp ()) data).length = data.length := by
    rw [Lossless, there, fits.2.2]
    simp [Remotejoy.size]
  have count : (s.link.flatten.length : Int) = data.length + link.flatten.length := by
    rw [there, List.flatten_cons, List.length_append]
    push_cast
    rfl
  rw [List.length_append] at size'
  push_cast at size'
  refine ⟨{ base with ready := ready, ring := ⟨_, pushed⟩, data := ?_ }, ?_, ?_, ?_⟩
  · exact fun data mem => base.data data (by rw [there]; exact List.mem_cons_of_mem _ mem)
  · simp only [owed, Remotejoy.size]
    omega
  · intro lost
    have cut : (Async.fits (s.driver.endp ()) data).length ≠ data.length := fun all =>
      lost ⟨lossless.mpr all, trivial⟩
    simp only [owed, Remotejoy.size]
    omega
  · rintro ⟨pending, ys, sent, fifo', bytes⟩ ⟨whole, -⟩
    have all : Async.fits (s.driver.endp ()) data = data :=
      (List.take_prefix _ _).eq_of_length (lossless.mp whole)
    have pushed' := fifo'.pushAll fits.1
    rw [← ring, all] at pushed'
    refine ⟨pending, ys ++ data, sent, pushed', ?_⟩
    rw [bytes, there, List.flatten_cons]
    simp only [List.append_assoc]

theorem received_record (s : Remotejoy) {r : JoyEvent} (magic : r.magic = joyMagic) :
    s.received (encode r) = { s with joy := s.joy.apply r, applied := s.applied ++ [r] } := by
  unfold Remotejoy.received
  dsimp only
  rw [Packed.decode_encode_self, if_neg (not_or.mpr ⟨not_not.mpr (Packed.length_encode r), not_not.mpr magic⟩)]

theorem received_short (s : Remotejoy) {data : Bytes} (short : data.length ≠ sizeof JoyEvent) :
    s.received data = { s with phase := .discarding } := if_pos (.inl short)

theorem Base.received (base : s.Base cfg) (data : Bytes) : (s.received data).Base cfg := by
  unfold Remotejoy.received
  dsimp only
  split
  · exact { base with }
  · refine { base with joy := ?_ }
    rw [List.foldl_append, ← base.joy]
    rfl

/-- What was read counts for a record if it is as long. -/
theorem owed_received (s : Remotejoy) (data : Bytes) :
    s.owed ≤ (s.received data).owed + sizeof JoyEvent ∧
      (data.length ≠ sizeof JoyEvent → (s.received data).owed = s.owed) := by
  unfold Remotejoy.received
  dsimp only
  split
  · refine ⟨?_, fun _ => rfl⟩
    show s.owed ≤ s.owed + sizeof JoyEvent
    omega
  · next record =>
    refine ⟨?_, fun short => absurd (.inl short) record⟩
    simp only [owed, size, List.length_append, List.length_singleton, sizeof_joyEvent]
    omega

theorem Base.readSection (base : s.Base cfg) (after : s.after cfg .readSection = some s') :
    Moves cfg s .readSection s' := by
  obtain ⟨d, moved, rfl⟩ := readSection_of_after after
  obtain ⟨xs, fifo⟩ := base.ring
  obtain ⟨read, left⟩ := base.ready.reads fifo moved
  have base₁ : { s with driver := d }.Base cfg :=
    { base with ready := (base.ready.readSection moved).1, ring := ⟨_, left⟩ }
  have size : s.size = xs.length := fifo.size
  have size₁ : (d.endp ()).size = (xs.drop (sizeof JoyEvent)).length := left.size
  have some_ : Whole s .readSection ↔ xs.length = 0 ∨ 12 ≤ xs.length := by
    rw [Whole, size, sizeof_joyEvent]
    omega
  have count : (joyevent s.driver).length = min 12 xs.length := by rw [read, List.length_take, sizeof_joyEvent]
  have gone : ({ s with driver := d } : Remotejoy).owed = s.owed + (joyevent s.driver).length := by
    rw [count]
    simp only [owed, Remotejoy.size, size₁, List.length_drop, sizeof_joyEvent] at size ⊢
    omega
  obtain ⟨all, part⟩ := owed_received { s with driver := d } (joyevent s.driver)
  rw [sizeof_joyEvent] at all part
  refine ⟨base₁.received _, ?_, ?_, ?_⟩
  · by_cases enough : 12 ≤ xs.length
    · omega
    · have := part (by omega)
      omega
  · intro lost
    have cut : ¬ (xs.length = 0 ∨ 12 ≤ xs.length) := fun whole => lost ⟨trivial, some_.mpr whole⟩
    have := part (by omega)
    omega
  · rintro ⟨pending, ys, sent, fifo', bytes⟩ ⟨-, whole⟩
    obtain ⟨read', left'⟩ := base.ready.reads fifo' moved
    have same : s.size = ys.length := fifo'.size
    rw [read']
    rcases some_.mp whole with none | enough
    · obtain rfl : ys = [] := List.eq_nil_of_length_eq_zero (by omega)
      rw [received_short _ (by decide)]
      exact ⟨pending, [], sent, left', bytes⟩
    · obtain ⟨r, rest, rfl, front, later⟩ := records_front bytes (by decide) (by rw [sizeof_joyEvent]; omega)
      have magic : r.magic = joyMagic := base.magic r (by rw [sent]; simp)
      rw [front, received_record _ magic]
      refine ⟨rest, _, ?_, left', later⟩
      rw [sent, List.append_assoc, List.singleton_append]

theorem Base.flushSection (base : s.Base cfg) (after : s.after cfg .flushSection = some s') :
    Moves cfg s .flushSection s' := by
  obtain ⟨d, moved, rfl⟩ := flushSection_of_after after
  obtain ⟨ready, ring⟩ := base.ready.flushSection moved
  obtain ⟨xs, fifo⟩ := base.ring
  have cleared := RingBuffer.Fifo.clear (s.driver.endp ()) (by decide : 0 < maxAsyncBuffer)
  rw [← ring] at cleared
  have size : s.size = xs.length := fifo.size
  have size₁ : (d.endp ()).size = 0 := cleared.size
  refine ⟨{ base with ready := ready, ring := ⟨_, cleared⟩ }, ?_, ?_, ?_⟩
  · simp only [owed, Remotejoy.size, size₁] at size ⊢
    omega
  · intro lost
    have full : s.size ≠ 0 := fun none => lost ⟨trivial, none⟩
    simp only [owed, Remotejoy.size, size₁] at size full ⊢
    omega
  · rintro ⟨pending, ys, sent, fifo', bytes⟩ ⟨-, none⟩
    obtain rfl : ys = [] := List.eq_nil_of_length_eq_zero (by have := fifo'.size; rw [Whole, Remotejoy.size] at none; omega)
    exact ⟨pending, [], sent, cleared, bytes⟩

theorem Base.moves (base : s.Base cfg) (after : s.after cfg e = some s') : Moves cfg s e s' := by
  cases e with
  | joystick e => exact base.joystick e after
  | relay readbytes => exact base.relay after
  | fill => exact base.fill after
  | read =>
      obtain ⟨d, moved, rfl⟩ := read_of_after after
      exact base.quiet (base.ready.read moved) ⟨trivial, trivial⟩
  | take =>
      obtain ⟨d, moved, rfl⟩ := withDriver_eq after
      exact base.quiet (base.ready.take moved) ⟨trivial, trivial⟩
  | abandon =>
      obtain ⟨d, moved, rfl⟩ := withDriver_eq after
      exact base.quiet (base.ready.abandon moved) ⟨trivial, trivial⟩
  | readSection => exact base.readSection after
  | flush =>
      obtain ⟨-, d, moved, rfl⟩ := flush_of_after after
      exact base.quiet (base.ready.flush moved) ⟨trivial, trivial⟩
  | flushSection => exact base.flushSection after

/-- Sent, applied and on the way. -/
theorem Streams.owed (streams : s.Streams) : s.owed = 0 := by
  obtain ⟨pending, xs, sent, fifo, bytes⟩ := streams
  have lengths := congrArg List.length bytes
  have size : s.size = xs.length := fifo.size
  simp only [length_records, List.length_append, sizeof_joyEvent] at lengths
  simp only [Remotejoy.owed, sent, size, List.length_append, sizeof_joyEvent]
  omega

theorem Starts.streams (starts : s.Starts) : s.Streams := by
  refine ⟨[], [], ?_, starts.ring, ?_⟩
  · rw [starts.sender, starts.applied]
    rfl
  · rw [starts.link, starts.socket]
    rfl

theorem base_of_reachable (reachable : (remotejoy cfg).Reachable s) : s.Base cfg ∧ 0 ≤ s.owed := by
  refine reachable.invariant (I := fun s => s.Base cfg ∧ 0 ≤ s.owed) ?_ ?_
  · exact fun s starts => ⟨starts.base, starts.streams.owed.ge⟩
  · intro s e s' inv after
    have moves := inv.1.moves after
    exact ⟨moves.base, inv.2.trans moves.owed⟩

theorem streams_of_reachable (reachable : ((remotejoy cfg).guard Framed).Reachable s) : s.Base cfg ∧ s.Streams := by
  refine reachable.invariant (I := fun s => s.Base cfg ∧ s.Streams) ?_ ?_
  · exact fun s starts => ⟨starts.base, starts.streams⟩
  · rintro s e s' ⟨base, streams⟩ ⟨framed, after⟩
    have moves := base.moves after
    exact ⟨moves.base, moves.streams streams framed⟩

/-- What has been lost is never applied. -/
theorem owed_of_later (reachable : (remotejoy cfg).Reachable s) (owes : 0 < s.owed)
    {t : Remotejoy} (later : ((remotejoy cfg).startAt s).Reachable t) : 0 < t.owed := by
  have inv : t.Base cfg ∧ 0 < t.owed := by
    refine later.invariant (I := fun t => t.Base cfg ∧ 0 < t.owed) ?_ ?_
    · rintro _ rfl
      exact ⟨(base_of_reachable reachable).1, owes⟩
    · intro s e s' inv after
      have moves := inv.1.moves after
      exact ⟨moves.base, inv.2.trans_le moves.owed⟩
  exact inv.2

theorem Drained.short (drained : s.Drained) (owes : 0 < s.owed) : s.applied.length < s.sender.sent.length := by
  rw [owed, drained.socket, drained.link, drained.ring] at owes
  simp only [List.flatten_nil, List.length_nil, sizeof_joyEvent] at owes
  omega

theorem Streams.drained (streams : s.Streams) (drained : s.Drained) : s.applied = s.sender.sent := by
  obtain ⟨pending, xs, sent, fifo, bytes⟩ := streams
  have none : xs = [] := List.eq_nil_of_length_eq_zero (by have := fifo.size; have := drained.ring; rw [size] at this; omega)
  rw [none, drained.link, drained.socket] at bytes
  have lengths := congrArg List.length bytes
  simp only [length_records, sizeof_joyEvent, List.flatten_nil, List.append_nil, List.length_nil] at lengths
  rw [sent, List.eq_nil_of_length_eq_zero (by omega : pending.length = 0), List.append_nil]

theorem Streams.prefix_sent (streams : s.Streams) : s.applied <+: s.sender.sent := by
  obtain ⟨pending, _, sent, _⟩ := streams
  exact ⟨pending, sent.symm⟩

theorem clean_foldl {events : List SdlEvent} {sender : Sender} (clean : sender.Clean) (axes : ∀ e ∈ events, e.IsAxis) :
    (events.foldl (.turn cfg) sender).Clean := by
  induction events generalizing sender with
  | nil => exact clean
  | cons e events ih =>
      exact ih (clean.turn (axes e List.mem_cons_self)) fun e mem => axes e (List.mem_cons_of_mem _ mem)

end Remotejoy

/-! ## Packets of whole records -/

def WholePackets (s : Remotejoy) : JoyStep → Prop
  | .relay readbytes => sizeof JoyEvent ∣ readbytes
  | e => Lossless s e

/-- The event bit and the read that has taken it stand for a record each. -/
structure Fed (d : Async Unit Unit) : Prop where
  ring : ∃ n : Nat, (d.endp ()).size = 12 * n
  event : d.event joyChannel = true → 12 ≤ (d.endp ()).size
  taken : ∀ {ch len}, d.caller () = .taken ch len →
    12 ≤ (d.endp ()).size ∧ (d.event joyChannel = true → 24 ≤ (d.endp ()).size)
  calm : ∀ {ch}, d.caller () ≠ .flushing ch

theorem Fed.read (fed : Fed d) (after : d.after (.read () asyncJoy (sizeof JoyEvent)) = some d') : Fed d' := by
  have move := move_of_after after
  cases move with
  | none => exact fed
  | wait => exact ⟨fed.ring, fed.event, nofun, nofun⟩

theorem Fed.abandon (fed : Fed d) (after : d.after (.abandon ()) = some d') : Fed d' := by
  have move := move_of_after after
  cases move with
  | none => exact fed
  | abandon => exact ⟨fed.ring, fed.event, nofun, nofun⟩

theorem Fed.take (fed : Fed d) (ready : Ready d) (after : d.after (.take ()) = some d') : Fed d' := by
  obtain ⟨ch, len, waiting, bit, rfl⟩ := waiting_of_take after
  obtain ⟨rfl, rfl⟩ := ready.waiting waiting
  have cleared : ((d.setEvent joyChannel false).setCaller () (.taken joyChannel (sizeof JoyEvent))).event joyChannel =
      false := by simp [Async.setEvent, Async.setCaller]
  refine ⟨fed.ring, fun bit' => ?_, fun _ => ⟨fed.event bit, fun bit' => ?_⟩, ?_⟩
  · rw [cleared] at bit'
    cases bit'
  · rw [cleared] at bit'
    cases bit'
  · simp [Async.setCaller]

theorem Fed.fill (fed : Fed d) (ready : Ready d) {data : Bytes} {n : Nat} (whole : data.length = 12 * n) (some_ : data ≠ [])
    (size : ((d.fillAsync (packet data)).endp ()).size = (d.endp ()).size + data.length) :
    Fed (d.fillAsync (packet data)) := by
  have caller := congrFun (ready.fill some_).2.2 ()
  have more := List.length_pos_iff.mpr some_
  obtain ⟨m, ring⟩ := fed.ring
  refine ⟨⟨m + n, by omega⟩, fun _ => by omega, fun taken => ?_, ?_⟩
  · have := (fed.taken (caller.symm.trans taken)).1
    omega
  · rw [caller]
    exact fed.calm

theorem Fed.readSection (fed : Fed d) (ready : Ready d) (after : d.after (.readSection ()) = some d') :
    12 ≤ (d.endp ()).size ∧ ((d'.endp ()).size = (d.endp ()).size - 12 → Fed d') := by
  obtain ⟨ch, len, taken, rfl⟩ := taken_of_readSection after
  obtain ⟨rfl, rfl⟩ := ready.taken taken
  obtain ⟨enough, both⟩ := fed.taken taken
  refine ⟨enough, fun size => ?_⟩
  obtain ⟨m, ring⟩ := fed.ring
  unfold Async.readSection at size ⊢
  rw [ready.chan] at size ⊢
  dsimp only at size ⊢
  split at size
  · next more =>
    rw [if_pos more]
    -- what is left of whole records is a record
    have left : ((d.give joyChannel () (Async.readLen (d.endp ()) (sizeof JoyEvent))).endp ()).size =
        (d.endp ()).size - 12 := size
    refine ⟨⟨m - 1, by omega⟩, fun _ => ?_, nofun, nofun⟩
    show 12 ≤ ((d.give joyChannel () (Async.readLen (d.endp ()) (sizeof JoyEvent))).endp ()).size
    omega
  · next none =>
    rw [if_neg none]
    refine ⟨⟨m - 1, by omega⟩, fun bit => ?_, nofun, nofun⟩
    have := both bit
    omega

namespace Remotejoy

/-- Nothing but whole records is on the way. -/
structure Grouped (s : Remotejoy) : Prop where
  fed : Fed s.driver
  socket : ∃ n : Nat, s.socket.length = 12 * n
  link : ∀ data ∈ s.link, ∃ n : Nat, data.length = 12 * n
  phase : s.phase = .reading

variable {s s' : Remotejoy} {e : JoyStep}

theorem Starts.grouped (starts : s.Starts) : s.Grouped where
  fed := by
    refine ⟨⟨0, starts.ring.size⟩, fun bit => ?_, fun taken => ?_, fun flushing => ?_⟩
    · rw [starts.event] at bit
      cases bit
    · rw [starts.caller] at taken
      cases taken
    · rw [starts.caller] at flushing
      cases flushing
  socket := ⟨0, by rw [starts.socket]; rfl⟩
  link data mem := by
    rw [starts.link] at mem
    cases mem
  phase := starts.phase

theorem Grouped.relay (grouped : s.Grouped) {readbytes : Nat} (whole : sizeof JoyEvent ∣ readbytes)
    (after : s.after cfg (.relay readbytes) = some s') : s'.Grouped := by
  obtain ⟨-, there, rfl⟩ := relay_of_after after
  obtain ⟨k, rfl⟩ := whole
  obtain ⟨n, socket⟩ := grouped.socket
  rw [sizeof_joyEvent] at *
  refine { grouped with socket := ⟨n - k, ?_⟩, link := fun data mem => ?_ }
  · rw [List.length_drop, socket]
    omega
  · rcases List.mem_append.mp mem with old | new
    · exact grouped.link data old
    · refine ⟨k, ?_⟩
      rw [List.mem_singleton.mp new, List.length_take]
      omega

theorem Grouped.fill (grouped : s.Grouped) (base : s.Base cfg) (lossless : Lossless s .fill)
    (after : s.after cfg .fill = some s') : s'.Grouped := by
  obtain ⟨data, link, there, rfl⟩ := fill_of_after after
  have mem : data ∈ s.link := by rw [there]; exact List.mem_cons_self
  obtain ⟨n, whole⟩ := grouped.link data mem
  obtain ⟨-, ring, -⟩ := base.ready.fill (base.data data mem)
  obtain ⟨xs, fifo⟩ := base.ring
  have size := fifo.size
  have fits := fits_length (s.driver.endp ()) data ⟨by omega, fifo.room⟩
  have pushed := (fifo.pushAll fits.1).size
  rw [Lossless, there] at lossless
  rw [← ring, List.length_append, fits.2.2.mpr (lossless data rfl)] at pushed
  refine { grouped with fed := grouped.fed.fill base.ready whole (base.data data mem) ?_, link := fun data mem => ?_ }
  · rw [pushed, size]
    push_cast
    rfl
  · exact grouped.link data (by rw [there]; exact List.mem_cons_of_mem _ mem)

theorem Grouped.readSection (grouped : s.Grouped) (base : s.Base cfg) (streams : s.Streams)
    (after : s.after cfg .readSection = some s') : Whole s .readSection ∧ s'.Grouped := by
  obtain ⟨d, moved, rfl⟩ := readSection_of_after after
  obtain ⟨pending, xs, sent, fifo, bytes⟩ := streams
  obtain ⟨read, left⟩ := base.ready.reads fifo moved
  obtain ⟨enough, fed⟩ := grouped.fed.readSection base.ready moved
  have size := fifo.size
  have size' := left.size
  rw [List.length_drop, sizeof_joyEvent] at size'
  obtain ⟨r, rest, rfl, front, -⟩ := records_front bytes (by decide) (by rw [sizeof_joyEvent]; omega)
  have magic : r.magic = joyMagic := base.magic r (by rw [sent]; simp)
  refine ⟨.inr enough, ?_⟩
  rw [read, front, received_record _ magic]
  exact { grouped with fed := fed (by omega) }

theorem Grouped.step (grouped : s.Grouped) (base : s.Base cfg) (streams : s.Streams) (whole : WholePackets s e)
    (after : s.after cfg e = some s') : Framed s e ∧ s'.Grouped := by
  cases e with
  | joystick e =>
      cases after
      obtain ⟨n, socket⟩ := grouped.socket
      refine ⟨⟨trivial, trivial⟩, { grouped with socket := ⟨n + ((s.sender.turn cfg e).sent.drop s.sender.sent.length).length, ?_⟩ }⟩
      rw [List.length_append, length_records, socket, sizeof_joyEvent]
      omega
  | relay readbytes => exact ⟨⟨trivial, trivial⟩, grouped.relay whole after⟩
  | fill => exact ⟨⟨whole, trivial⟩, grouped.fill base whole after⟩
  | read =>
      obtain ⟨d, moved, rfl⟩ := read_of_after after
      exact ⟨⟨trivial, trivial⟩, { grouped with fed := grouped.fed.read moved }⟩
  | take =>
      obtain ⟨d, moved, rfl⟩ := withDriver_eq after
      exact ⟨⟨trivial, trivial⟩, { grouped with fed := grouped.fed.take base.ready moved }⟩
  | abandon =>
      obtain ⟨d, moved, rfl⟩ := withDriver_eq after
      exact ⟨⟨trivial, trivial⟩, { grouped with fed := grouped.fed.abandon moved }⟩
  | readSection =>
      obtain ⟨full, grouped'⟩ := grouped.readSection base streams after
      exact ⟨⟨trivial, full⟩, grouped'⟩
  | flush =>
      have discards := (flush_of_after after).1
      rw [grouped.phase] at discards
      cases discards
  | flushSection =>
      obtain ⟨d, moved, -⟩ := flushSection_of_after after
      obtain ⟨ch, flushing, -⟩ := flushing_of_flushSection moved
      exact absurd flushing grouped.fed.calm

/-- Where every packet carries whole records, no read takes a part of one. -/
theorem framed_of_wholePackets (reachable : ((remotejoy cfg).guard WholePackets).Reachable s) :
    ((remotejoy cfg).guard Framed).Reachable s := by
  have inv : ((remotejoy cfg).guard Framed).Reachable s ∧ s.Grouped := by
    induction reachable with
    | init starts => exact ⟨.init starts, Starts.grouped starts⟩
    | step _ taken ih =>
        obtain ⟨base, streams⟩ := streams_of_reachable ih.1
        obtain ⟨framed, grouped⟩ := ih.2.step base streams taken.1 taken.2
        exact ⟨.step ih.1 ⟨framed, taken.2⟩, grouped⟩
  exact inv.1

end Remotejoy

/-! ## Agreement -/

section
variable {s : Remotejoy}

/-- Once all has been read the two sides agree if no step cuts a record, and never again once one has. -/
theorem joypad_agrees (reachable : ((remotejoy cfg).guard Framed).Reachable s) :
    s.sender = s.events.foldl (.turn cfg) .start ∧ s.applied <+: s.sender.sent ∧
    (s.Drained → s.applied = s.sender.sent ∧ s.joy.buttons = s.sender.buttonState) ∧
    (∀ e s' t, ¬ Framed s e → (remotejoy cfg).step s e s' → ((remotejoy cfg).startAt s').Reachable t → t.Drained →
      t.applied ≠ t.sender.sent) ∧
    ((∀ e ∈ s.events, e.IsAxis) → ¬ Opposed s.sender.buttonState ∧ ¬ Opposed s.joy.buttons) := by
  obtain ⟨base, streams⟩ := Remotejoy.streams_of_reachable reachable
  have buttons : s.joy.buttons = s.applied.foldl pressed 0 := by
    rw [base.joy, buttons_foldl]
    rfl
  refine ⟨base.sender, streams.prefix_sent, fun drained => ?_, ?_, fun axes => ?_⟩
  · have all := streams.drained drained
    exact ⟨all, by rw [buttons, base.state, all]⟩
  · intro e s' t unframed after later drained all
    have owes : 0 < s'.owed := streams.owed.ge.trans_lt ((base.moves after).lost unframed)
    have short := drained.short (Remotejoy.owed_of_later (.step reachable.of_guard after) owes later)
    rw [all] at short
    exact lt_irrefl _ short
  · have clean : s.sender.Clean := base.sender ▸ Remotejoy.clean_foldl Sender.clean_start axes
    rw [buttons]
    exact ⟨clean.not_opposed, clean.apart _ streams.prefix_sent⟩

instance (s : Remotejoy) (e : JoyStep) : Decidable (Framed s e) := by
  unfold Framed Lossless Whole
  cases e <;> infer_instance

instance (s : Remotejoy) (e : JoyStep) : Decidable (Lossless s e) := by
  unfold Lossless
  cases e <;> infer_instance

end

namespace Remotejoy

def attempt (cfg : Config) (G : Remotejoy → JoyStep → Prop) [∀ s e, Decidable (G s e)] (s : Remotejoy) (e : JoyStep) :
    Option Remotejoy :=
  if G s e then s.after cfg e else none

theorem Starts.attempt {G : Remotejoy → JoyStep → Prop} [∀ s e, Decidable (G s e)] {s s' : Remotejoy} (starts : s.Starts)
    {steps : List JoyStep} (run : System.exec (attempt cfg G) s steps = some s') :
    ((remotejoy cfg).guard G).Reachable s' := by
  have start : ((remotejoy cfg).guard G).Reachable s := .init starts
  refine start.exec (fun t e t' _ taken => ?_) run
  unfold Remotejoy.attempt at taken
  split at taken
  · next holds => exact ⟨holds, taken⟩
  · cases taken

/-- `usbAsyncRegister` before the loop. -/
def registered : Remotejoy :=
  ⟨[], .start, [], [], (asyncStart.usbAsyncRegister asyncJoy (some ())).1, .reading, currjoy, []⟩

theorem registered_starts : registered.Starts :=
  ⟨rfl, rfl, rfl, rfl, by decide, RingBuffer.Fifo.clear _ (by decide), by decide, rfl, rfl, rfl, rfl⟩

end Remotejoy

/-- What `build_map` makes without a file. -/
def joyConfig : Config where
  buttmap i := ⟨i % 8, by omega⟩
  digital := 0
  analog := -1
  tol := 10000

def wholeRun : List JoyStep := [.joystick (.joyButtonDown 0), .relay 12, .fill, .read, .take, .readSection]

def wholeRan : Remotejoy := (System.exec (Remotejoy.attempt joyConfig Framed) Remotejoy.registered wholeRun).getD Remotejoy.registered

theorem wholeRan_reachable : ((remotejoy joyConfig).guard Framed).Reachable wholeRan := by
  have ran : (System.exec (Remotejoy.attempt joyConfig Framed) Remotejoy.registered wholeRun).isSome = true := by decide +kernel
  obtain ⟨s, run⟩ := Option.isSome_iff_exists.mp ran
  rw [wholeRan, run]
  exact Remotejoy.registered_starts.attempt run

theorem joypad_agrees_run : wholeRan.joy.buttons = ctrlCross ∧ wholeRan.joy.buttons = wholeRan.sender.buttonState := by
  have drained : wholeRan.Drained := ⟨by decide +kernel, by decide +kernel, by decide +kernel⟩
  exact ⟨by decide +kernel, ((joypad_agrees wholeRan_reachable).2.2.1 drained).2⟩

/-- A record in two packets, between which the receiver reads. -/
def cutRun : List JoyStep :=
  [.joystick (.joyButtonDown 0), .relay 5, .fill, .read, .take, .readSection, .relay 7, .fill, .flush, .flushSection]

theorem cut_record_dropped : ∃ s, ((remotejoy joyConfig).guard Lossless).Reachable s ∧ s.Drained ∧ s.applied = [] ∧
    s.sender.buttonState = ctrlCross ∧ s.joy.buttons ≠ s.sender.buttonState := by
  have ran : ((System.exec (Remotejoy.attempt joyConfig Lossless) Remotejoy.registered cutRun).map fun s =>
      decide (s.socket = [] ∧ s.link = [] ∧ s.size = 0 ∧ s.applied = [] ∧ s.sender.buttonState = ctrlCross ∧
        s.joy.buttons ≠ s.sender.buttonState)) = some true := by decide +kernel
  obtain ⟨s, run, holds⟩ := Option.map_eq_some_iff.mp ran
  obtain ⟨socket, link, ring, rest⟩ := of_decide_eq_true holds
  exact ⟨s, Remotejoy.registered_starts.attempt run, ⟨socket, link, ring⟩, rest⟩

end Psplink.RemoteJoy
