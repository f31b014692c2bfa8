import Psplink.HostFs.Wire
import Psplink.Lib.Ring
import Psplink.Lib.System

/-!
# Async channels on the PSP

usbhostfs/main.c from `fill_async` to `usbAsyncFlush`, as steps of any number of threads. A section
with interrupts disabled is one step, and so is an operation on the event flag `g_asyncevent`. What
a channel has taken in and given out since it was registered or flushed is recorded beside it.
-/

namespace Psplink.HostFs
open Psplink.Lib

abbrev maxAsyncBuffer : Int := 4096

def asyncUser : Nat := 4

def asyncAllocChan : Word := 0xFFFFFFFF

abbrev AsyncEndpoint := RingBuffer UInt8

abbrev Channel := Fin maxAsyncChannels

def channelOf (chan : Word) : Option Channel :=
  if h : chan.toNat < maxAsyncChannels then some ⟨chan.toNat, h⟩ else none

/-- Where a thread is: a reader waits for the bit of its channel after it has tested the slot. -/
inductive Caller
  | idle
  | waiting (ch : Channel) (len : Int)
  | taken (ch : Channel) (len : Int)
  | flushing (ch : Channel)
  deriving DecidableEq

/-- `fault`: an empty slot has been dereferenced. -/
structure Async (ι τ : Type) where
  chan : Channel → Option ι
  endp : ι → AsyncEndpoint
  event : Channel → Bool
  caller : τ → Caller
  fault : Bool
  accepted : Channel → Bytes
  delivered : Channel → Bytes

namespace Async

variable {ι τ : Type} [DecidableEq ι] [DecidableEq τ]

def setRing (s : Async ι τ) (e : ι) (r : AsyncEndpoint) : Async ι τ :=
  { s with endp := Function.update s.endp e r }

def setEvent (s : Async ι τ) (ch : Channel) (bit : Bool) : Async ι τ :=
  { s with event := Function.update s.event ch bit }

def setCaller (s : Async ι τ) (t : τ) (c : Caller) : Async ι τ :=
  { s with caller := Function.update s.caller t c }

def fits (r : AsyncEndpoint) (data : Bytes) : Bytes :=
  let len : Int := data.length
  let sizeleft := if len < maxAsyncBuffer - r.size then len else maxAsyncBuffer - r.size
  data.take sizeleft.toNat

def store (s : Async ι τ) (ch : Channel) (e : ι) (data : Bytes) : Async ι τ :=
  let stored := fits (s.endp e) data
  { (s.setRing e ((s.endp e).pushAll maxAsyncBuffer stored)).setEvent ch true with
    accepted := Function.update s.accepted ch (s.accepted ch ++ stored) }

def header (s : Async ι τ) (packet : Bytes) : Option (Channel × ι) :=
  if packet.length > sizeof AsyncCommand then
    let cmd : AsyncCommand := decode packet
    if cmd.magic = asyncMagic then
      (channelOf cmd.channel).bind fun ch => (s.chan ch).map fun e => (ch, e)
    else none
  else none

def fillAsync (s : Async ι τ) (packet : Bytes) : Async ι τ :=
  match s.header packet with
  | some (ch, e) => s.store ch e (packet.drop (sizeof AsyncCommand))
  | none => s

def flush (s : Async ι τ) (ch : Channel) (e : ι) : Async ι τ :=
  { (s.setRing e (s.endp e).clear).setEvent ch false with
    accepted := Function.update s.accepted ch []
    delivered := Function.update s.delivered ch [] }

def attach (s : Async ι τ) (ch : Channel) (e : ι) : Async ι τ :=
  { s with chan := Function.update s.chan ch (some e) }.flush ch e

def allocChan (s : Async ι τ) : Option Channel :=
  (List.finRange maxAsyncChannels).find? fun ch => asyncUser ≤ ch.val && (s.chan ch).isNone

def slotFor (s : Async ι τ) (chan : Word) : Option Channel :=
  if chan = asyncAllocChan then s.allocChan else (channelOf chan).filter fun ch => (s.chan ch).isNone

def usbAsyncRegister (s : Async ι τ) (chan : Word) (endp : Option ι) : Async ι τ × Int :=
  match endp, s.slotFor chan with
  | some e, some ch => (s.attach ch e, ch.val)
  | _, _ => (s, -1)

def usbAsyncUnregister (s : Async ι τ) (chan : Word) : Async ι τ × Int :=
  match (channelOf chan).filter fun ch => (s.chan ch).isSome with
  | some ch => ({ s with chan := Function.update s.chan ch none }, 0)
  | none => (s, -1)

def registered (s : Async ι τ) (chan : Word) : Option Channel :=
  (channelOf chan).filter fun ch => (s.chan ch).isSome

def readLen (r : AsyncEndpoint) (len : Int) : Nat := (if len < r.size then len else r.size).toNat

def give (s : Async ι τ) (ch : Channel) (e : ι) (n : Nat) : Async ι τ :=
  let (data, r) := (s.endp e).popMany maxAsyncBuffer n
  { s.setRing e r with delivered := Function.update s.delivered ch (s.delivered ch ++ data) }

def readSection (s : Async ι τ) (t : τ) (ch : Channel) (len : Int) : Async ι τ :=
  match s.chan ch with
  | none => { s with fault := true }
  | some e =>
      let s := s.give ch e (readLen (s.endp e) len)
      let s := if (s.endp e).size ≠ 0 then s.setEvent ch true else s
      s.setCaller t .idle

def flushSection (s : Async ι τ) (t : τ) (ch : Channel) : Async ι τ :=
  match s.chan ch with
  | none => { s with fault := true }
  | some e => (s.flush ch e).setCaller t .idle

end Async

/-- `take`: the wait for the bit returns, which clears it. `abandon`: the wait fails. -/
inductive AsyncEvent (ι τ : Type)
  | fill (packet : Bytes)
  | register (chan : Word) (endp : Option ι)
  | unregister (chan : Word)
  | read (t : τ) (chan : Word) (len : Int)
  | take (t : τ)
  | abandon (t : τ)
  | readSection (t : τ)
  | flush (t : τ) (chan : Word)
  | flushSection (t : τ)

section
variable {ι τ : Type} [DecidableEq ι] [DecidableEq τ]

def Async.after (s : Async ι τ) : AsyncEvent ι τ → Option (Async ι τ)
  | .fill packet => some (s.fillAsync packet)
  | .register chan endp => some (s.usbAsyncRegister chan endp).1
  | .unregister chan => some (s.usbAsyncUnregister chan).1
  | .read t chan len =>
      match s.caller t with
      | .idle =>
          match s.registered chan with
          | some ch => some (s.setCaller t (.waiting ch len))
          | none => some s
      | _ => none
  | .take t =>
      match s.caller t with
      | .waiting ch len =>
          if s.event ch then some ((s.setEvent ch false).setCaller t (.taken ch len)) else none
      | _ => none
  | .abandon t =>
      match s.caller t with
      | .waiting _ _ => some (s.setCaller t .idle)
      | _ => none
  | .readSection t =>
      match s.caller t with
      | .taken ch len => some (s.readSection t ch len)
      | _ => none
  | .flush t chan =>
      match s.caller t with
      | .idle =>
          match s.registered chan with
          | some ch => some (s.setCaller t (.flushing ch))
          | none => some s
      | _ => none
  | .flushSection t =>
      match s.caller t with
      | .flushing ch => some (s.flushSection t ch)
      | _ => none

structure Async.Starts (s : Async ι τ) : Prop where
  chan : ∀ ch, s.chan ch = none
  event : ∀ ch, s.event ch = false
  caller : ∀ t, s.caller t = .idle
  fault : s.fault = false
  accepted : ∀ ch, s.accepted ch = []
  delivered : ∀ ch, s.delivered ch = []

/-- The driver; nothing runs after a fault. -/
def asyncDriver (ι τ : Type) [DecidableEq ι] [DecidableEq τ] : System (Async ι τ) (AsyncEvent ι τ) where
  init := Async.Starts
  step s e s' := s.fault = false ∧ s.after e = some s'

/-- An endpoint object is registered for one channel at a time. -/
def Distinct (s : Async ι τ) : AsyncEvent ι τ → Prop
  | .register _ (some e) => ∀ ch, s.chan ch ≠ some e
  | _ => True

instance (s : Async ι τ) (a : AsyncEvent ι τ) : Decidable (Distinct s a) := by
  unfold Distinct
  split <;> infer_instance

def Async.attempt (G : Async ι τ → AsyncEvent ι τ → Prop) [∀ s a, Decidable (G s a)] (s : Async ι τ)
    (a : AsyncEvent ι τ) : Option (Async ι τ) :=
  if G s a ∧ s.fault = false then s.after a else none

theorem reachable_attempt {G : Async ι τ → AsyncEvent ι τ → Prop} [∀ s a, Decidable (G s a)]
    {s s' : Async ι τ} {labels : List (AsyncEvent ι τ)} (starts : s.Starts)
    (run : System.exec (Async.attempt G) s labels = some s') :
    ((asyncDriver ι τ).guard G).Reachable s' := by
  have start : ((asyncDriver ι τ).guard G).Reachable s := .init starts
  apply start.exec _ run
  intro t a t' _ taken
  unfold Async.attempt at taken
  split at taken
  · rename_i allowed
    exact ⟨allowed.1, allowed.2, taken⟩
  · cases taken

def asyncStart : Async ι τ where
  chan _ := none
  endp _ := ⟨fun _ => 0, 0, 0, 0⟩
  event _ := false
  caller _ := .idle
  fault := false
  accepted _ := []
  delivered _ := []

omit [DecidableEq ι] [DecidableEq τ] in
theorem asyncStart_starts : (asyncStart : Async ι τ).Starts :=
  ⟨fun _ => rfl, fun _ => rfl, fun _ => rfl, rfl, fun _ => rfl, fun _ => rfl⟩

/-! ## What a step can be -/

inductive Move (s : Async ι τ) : AsyncEvent ι τ → Async ι τ → Prop
  | none (e : AsyncEvent ι τ) : Move s e s
  | store {packet : Bytes} {ch : Channel} {e : ι} (header : s.header packet = some (ch, e)) :
      Move s (.fill packet) (s.store ch e (packet.drop (sizeof AsyncCommand)))
  | attach {chan : Word} {ch : Channel} {e : ι} (slot : s.slotFor chan = some ch)
      (empty : s.chan ch = .none) : Move s (.register chan (some e)) (s.attach ch e)
  | detach {chan : Word} {ch : Channel} {e : ι} (names : channelOf chan = some ch)
      (slot : s.chan ch = some e) :
      Move s (.unregister chan) { s with chan := Function.update s.chan ch .none }
  | wait {t : τ} {chan : Word} {ch : Channel} {e : ι} {len : Int} (idle : s.caller t = .idle)
      (names : channelOf chan = some ch) (slot : s.chan ch = some e) :
      Move s (.read t chan len) (s.setCaller t (.waiting ch len))
  | take {t : τ} {ch : Channel} {len : Int} (waiting : s.caller t = .waiting ch len)
      (bit : s.event ch = true) :
      Move s (.take t) ((s.setEvent ch false).setCaller t (.taken ch len))
  | abandon {t : τ} {ch : Channel} {len : Int} (waiting : s.caller t = .waiting ch len) :
      Move s (.abandon t) (s.setCaller t .idle)
  | read {t : τ} {ch : Channel} {len : Int} (taken : s.caller t = .taken ch len) :
      Move s (.readSection t) (s.readSection t ch len)
  | flush {t : τ} {chan : Word} {ch : Channel} {e : ι} (idle : s.caller t = .idle)
      (names : channelOf chan = some ch) (slot : s.chan ch = some e) :
      Move s (.flush t chan) (s.setCaller t (.flushing ch))
  | flushed {t : τ} {ch : Channel} (flushing : s.caller t = .flushing ch) :
      Move s (.flushSection t) (s.flushSection t ch)

omit [DecidableEq ι] [DecidableEq τ] in
theorem empty_of_slotFor {s : Async ι τ} {chan : Word} {ch : Channel} (slot : s.slotFor chan = some ch) :
    s.chan ch = none := by
  unfold Async.slotFor at slot
  split at slot
  · have free := List.find?_some slot
    simpa using (Bool.and_eq_true_iff.mp free).2
  · simpa using (Option.filter_eq_some_iff.mp slot).2

omit [DecidableEq ι] [DecidableEq τ] in
theorem slot_of_registered {s : Async ι τ} {chan : Word} {ch : Channel}
    (registered : s.registered chan = some ch) : channelOf chan = some ch ∧ ∃ e, s.chan ch = some e :=
  (Option.filter_eq_some_iff.mp registered).imp_right Option.isSome_iff_exists.mp

omit [DecidableEq ι] [DecidableEq τ] in
theorem slot_of_header {s : Async ι τ} {packet : Bytes} {ch : Channel} {e : ι}
    (header : s.header packet = some (ch, e)) : s.chan ch = some e := by
  unfold Async.header at header
  split at header
  · dsimp only at header
    split at header
    · obtain ⟨ch', -, mapped⟩ := Option.bind_eq_some_iff.mp header
      obtain ⟨e', slot, same⟩ := Option.map_eq_some_iff.mp mapped
      cases same
      exact slot
    · cases header
  · cases header

theorem waiting_of_take {s s' : Async ι τ} {t : τ} (after : s.after (.take t) = some s') :
    ∃ ch len, s.caller t = .waiting ch len ∧ s.event ch = true ∧
      s' = (s.setEvent ch false).setCaller t (.taken ch len) := by
  simp only [Async.after] at after
  split at after
  · split at after
    · cases after
      exact ⟨_, _, ‹_›, ‹_›, rfl⟩
    · cases after
  · cases after

theorem taken_of_readSection {s s' : Async ι τ} {t : τ} (after : s.after (.readSection t) = some s') :
    ∃ ch len, s.caller t = .taken ch len ∧ s' = s.readSection t ch len := by
  simp only [Async.after] at after
  split at after
  · cases after
    exact ⟨_, _, ‹_›, rfl⟩
  · cases after

theorem flushing_of_flushSection {s s' : Async ι τ} {t : τ} (after : s.after (.flushSection t) = some s') :
    ∃ ch, s.caller t = .flushing ch ∧ s' = s.flushSection t ch := by
  simp only [Async.after] at after
  split at after
  · cases after
    exact ⟨_, ‹_›, rfl⟩
  · cases after

theorem move_of_after {s s' : Async ι τ} {e : AsyncEvent ι τ} (after : s.after e = some s') :
    Move s e s' := by
  cases e with
  | fill packet =>
      cases after
      unfold Async.fillAsync
      split
      · exact .store ‹_›
      · exact .none _
  | register chan endp =>
      cases after
      unfold Async.usbAsyncRegister
      split
      · exact .attach ‹_› (empty_of_slotFor ‹_›)
      · exact .none _
  | unregister chan =>
      cases after
      unfold Async.usbAsyncUnregister
      split
      · rename_i names
        obtain ⟨names, e, slot⟩ := slot_of_registered names
        exact .detach names slot
      · exact .none _
  | read t chan len =>
      simp only [Async.after] at after
      split at after
      · split at after
        · cases after
          obtain ⟨names, e, slot⟩ := slot_of_registered ‹_›
          exact .wait ‹_› names slot
        · cases after
          exact .none _
      · cases after
  | take t =>
      obtain ⟨ch, len, waiting, bit, rfl⟩ := waiting_of_take after
      exact .take waiting bit
  | abandon t =>
      simp only [Async.after] at after
      split at after
      · cases after
        exact .abandon ‹_›
      · cases after
  | readSection t =>
      obtain ⟨ch, len, taken, rfl⟩ := taken_of_readSection after
      exact .read taken
  | flush t chan =>
      simp only [Async.after] at after
      split at after
      · split at after
        · cases after
          obtain ⟨names, e, slot⟩ := slot_of_registered ‹_›
          exact .flush ‹_› names slot
        · cases after
          exact .none _
      · cases after
  | flushSection t =>
      obtain ⟨ch, flushing, rfl⟩ := flushing_of_flushSection after
      exact .flushed flushing

end

end Psplink.HostFs
