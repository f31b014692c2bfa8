import Psplink.Lib.Packed
import Psplink.Lib.Ring
import Psplink.Lib.System

/-!
# Characters for the debug output

The driver of tools/kprintf/main.c: what the kernel prints goes through a ring to a thread that prints it. Each section
with the interrupts disabled is a step, and so is each character that the thread reads outside of one.
-/

namespace Psplink.Kprintf
open Psplink.Lib

def bufSize : Int := 4096

/-! ## The code -/

inductive Phase where
  | waiting
  | woken
  /-- So many characters have been found; the slots of the two parts that are still to be read. -/
  | printing (count : Nat) (parts : List (List Int))
  | exited

structure State where
  ring : RingBuffer UInt8
  /-- Producers that have left their section and have yet to set the event flag. -/
  signals : Nat
  event : Bool
  phase : Phase
  accepted : Bytes
  printed : Bytes

def takes (type : BitVec 32) : Bool := type &&& 0xFF00 = 0 ∧ (type = 10 ∨ type = 13 ∨ 32 ≤ type)

def character (type : BitVec 32) : UInt8 := .ofBitVec (type.setWidth 8)

def addChar (s : State) (ch : UInt8) : State :=
  if s.ring.size < bufSize then { s with ring := s.ring.push bufSize ch, accepted := s.accepted ++ [ch] } else s

/-- `PutCharDebug`, up to setting the event flag. -/
def putCharDebug (s : State) (type : BitVec 32) : State :=
  let s' := if takes type then addChar s (character type) else s
  let total := if takes type then s'.ring.size else 0
  if type = 0x201 ∨ total = bufSize then { s' with signals := s'.signals + 1 } else s'

/-- The slots of the two parts from the place to read on. -/
def snapshot (ring : RingBuffer UInt8) : Nat × List (List Int) :=
  if ring.size > 0 then
    let low := if bufSize - ring.readPos < ring.size then bufSize - ring.readPos else ring.size
    let high := if low < ring.size then ring.size - low else 0
    ((low + high).toNat,
      [(List.range low.toNat).map fun (i : Nat) => ring.readPos + i, (List.range high.toNat).map fun (i : Nat) => (i : Int)])
  else (0, [])

/-- One part is printed up to a NUL. -/
def printNext (s : State) (count : Nat) : List (List Int) → Option State
  | [] => none
  | [] :: parts => some { s with phase := .printing count parts }
  | (slot :: slots) :: parts =>
      if s.ring.buffer slot = 0 then some { s with phase := .printing count parts }
      else some { s with phase := .printing count (slots :: parts), printed := s.printed ++ [s.ring.buffer slot] }

inductive Label where
  | putChar (type : BitVec 32)
  | setEvent
  | wake
  | waitFails
  | look
  | printChar
  | done

def step (s : State) : Label → Option State
  | .putChar type => some (putCharDebug s type)
  | .setEvent => if 0 < s.signals then some { s with signals := s.signals - 1, event := true } else none
  | .wake =>
      match s.phase with
      | .waiting => if s.event then some { s with event := false, phase := .woken } else none
      | _ => none
  | .waitFails =>
      match s.phase with
      | .waiting => some { s with phase := .exited }
      | _ => none
  | .look =>
      match s.phase with
      | .woken => some { s with phase := .printing (snapshot s.ring).1 (snapshot s.ring).2 }
      | _ => none
  | .printChar =>
      match s.phase with
      | .printing count parts => printNext s count parts
      | _ => none
  | .done =>
      match s.phase with
      | .printing count [] => some { s with ring := s.ring.release bufSize count, phase := .waiting }
      | _ => none

def Starts (s : State) : Prop :=
  ∃ buffer, s = ⟨⟨buffer, 0, 0, 0⟩, 0, false, .waiting, [], []⟩

def system : System State Label where
  init := Starts
  step s a s' := step s a = some s'

/-! ## What should hold -/

/-- Characters that have been found and are not released. -/
def State.found (s : State) : Nat :=
  match s.phase with
  | .printing count _ => count
  | _ => 0

/-- The slots of those that are still to be printed. -/
def State.parts (s : State) : List (List Int) :=
  match s.phase with
  | .printing _ parts => parts
  | _ => []

/-- How many of them have been printed. -/
def State.read (s : State) : Nat := s.found - s.parts.flatten.length

def State.slot (s : State) (i : Nat) : Int := (s.ring.readPos + i) % bufSize

/-- What the ring holds behind what has been printed of it. -/
def State.pending (s : State) : Bytes :=
  (List.range (s.ring.size.toNat - s.read)).map fun i => s.ring.buffer (s.slot (s.read + i))

structure Safe (s : State) : Prop where
  total : 0 ≤ s.ring.size ∧ s.ring.size ≤ bufSize
  places : s.ring.writePos = (s.ring.readPos + s.ring.size) % bufSize
  printed : s.accepted = s.printed ++ s.pending
  /-- A character that has been found stays as it is while others come in. -/
  undisturbed : ∀ type, ∀ i < s.found, (putCharDebug s type).ring.buffer (s.slot i) = s.ring.buffer (s.slot i)

/-- Nothing is left of the character but a NUL. -/
def Truncated (type : BitVec 32) : Prop := type ≠ 0 ∧ type.setWidth 16 = 0#16

/-- No NUL gets into the ring. -/
def Allowed (s : State) : Label → Prop
  | .putChar type => ¬ (Truncated type ∧ s.ring.size < bufSize)
  | _ => True

/-! ## The invariant -/

/-- The ring holds these characters, and the slots that are still to be read follow those that have been. -/
structure Holds (s : State) (xs : Bytes) : Prop where
  fifo : s.ring.Fifo bufSize xs
  found : s.parts.flatten.length ≤ s.found ∧ s.found ≤ xs.length
  slots : s.parts.flatten = (List.range s.parts.flatten.length).map fun i => s.slot (s.read + i)
  accepted : s.accepted = s.printed ++ xs.drop s.read
  nulFree : 0 ∉ s.accepted

theorem truncated_of_nul {type : BitVec 32} (taken : takes type) (nul : character type = 0) :
    Truncated type := by
  obtain ⟨masked, printable⟩ := of_decide_eq_true taken
  have byte : type.setWidth 8 = 0#8 := congrArg UInt8.toBitVec nul
  refine ⟨?_, BitVec.eq_of_getLsbD_eq fun i less => ?_⟩
  · rintro rfl
    revert printable
    decide
  · by_cases low : i < 8
    · have bit := congrArg (fun b => b.getLsbD i) byte
      simpa [low, less] using bit
    · have bit := congrArg (fun b => b.getLsbD i) masked
      have high : ∀ j < 16, ¬ j < 8 → (0xFF00 : BitVec 32).getLsbD j = true := by decide
      have mask := high i less low
      rw [BitVec.getLsbD_and, mask, Bool.and_true] at bit
      simpa [less] using bit

section Steps

variable {s s' : State} {xs : Bytes}

/-- What a call does to the ring: a character that is taken goes into it where there is room. -/
theorem putChar_cases (s : State) (type : BitVec 32) :
    (putCharDebug s type).phase = s.phase ∧ (putCharDebug s type).printed = s.printed ∧
      ((putCharDebug s type).ring = s.ring ∧ (putCharDebug s type).accepted = s.accepted ∨
        takes type ∧ s.ring.size < bufSize ∧ (putCharDebug s type).ring = s.ring.push bufSize (character type) ∧
          (putCharDebug s type).accepted = s.accepted ++ [character type]) := by
  have signalled {p : Prop} [Decidable p] (t : State) : (if p then { t with signals := t.signals + 1 } else t).phase = t.phase ∧
      (if p then { t with signals := t.signals + 1 } else t).printed = t.printed ∧
      (if p then { t with signals := t.signals + 1 } else t).ring = t.ring ∧
      (if p then { t with signals := t.signals + 1 } else t).accepted = t.accepted := by
    split
    all_goals exact ⟨rfl, rfl, rfl, rfl⟩
  unfold putCharDebug
  dsimp only
  obtain ⟨phase, printed, ring, accepted⟩ := @signalled (type = 0x201 ∨
    (if takes type then (if takes type then addChar s (character type) else s).ring.size else 0) = bufSize) _
    (if takes type then addChar s (character type) else s)
  rw [phase, printed, ring, accepted]
  by_cases taken : takes type
  · rw [if_pos taken, addChar]
    by_cases room : s.ring.size < bufSize
    · rw [if_pos room]
      exact ⟨rfl, rfl, .inr ⟨taken, room, rfl, rfl⟩⟩
    · rw [if_neg room]
      exact ⟨rfl, rfl, .inl ⟨rfl, rfl⟩⟩
  · rw [if_neg taken]
    exact ⟨rfl, rfl, .inl ⟨rfl, rfl⟩⟩

theorem parts_congr (phase : s'.phase = s.phase) : s'.parts = s.parts ∧ s'.found = s.found := by
  rw [State.parts, State.parts, State.found, State.found, phase]
  exact ⟨rfl, rfl⟩

theorem holds_putChar (holds : Holds s xs) (type : BitVec 32) (allowed : Allowed s (.putChar type)) :
    ∃ xs', Holds (putCharDebug s type) xs' := by
  obtain ⟨phase, printed, ring⟩ := putChar_cases s type
  obtain ⟨parts, found⟩ := parts_congr phase
  have read : (putCharDebug s type).read = s.read := by rw [State.read, State.read, parts, found]
  have size := holds.fifo.size
  have bound := holds.found
  rcases ring with ⟨ring, accepted⟩ | ⟨taken, room, ring, accepted⟩
  · refine ⟨xs, ring ▸ holds.fifo, by rw [parts, found]; exact bound, ?_, ?_, accepted ▸ holds.nulFree⟩
    · simp only [State.slot, parts, read, ring]
      exact holds.slots
    · rw [accepted, printed, read]
      exact holds.accepted
  · refine ⟨xs ++ [character type], ring ▸ holds.fifo.push room _, ?_, ?_, ?_, ?_⟩
    · rw [parts, found, List.length_append]
      exact ⟨bound.1, by omega⟩
    · simp only [State.slot, parts, read, ring]
      exact holds.slots
    · have behind : s.read ≤ xs.length := by
        rw [State.read]
        omega
      rw [accepted, printed, read, holds.accepted, List.drop_append_of_le_length behind, List.append_assoc]
    · rw [accepted, List.mem_append, List.mem_singleton]
      rintro (nul | nul)
      · exact holds.nulFree nul
      · exact allowed ⟨truncated_of_nul taken nul.symm, room⟩

/-- The two parts are the slots from the place to read on, round the end of the buffer. -/
theorem snapshot_spec (fifo : s.ring.Fifo bufSize xs) : (snapshot s.ring).1 = xs.length ∧
    (snapshot s.ring).2.flatten = (List.range xs.length).map s.slot := by
  have size := fifo.size
  have room := fifo.room
  have start := fifo.start
  have cap : bufSize = 4096 := rfl
  unfold snapshot
  by_cases some_ : s.ring.size > 0
  · rw [if_pos some_]
    dsimp only
    generalize first : (if bufSize - s.ring.readPos < s.ring.size then bufSize - s.ring.readPos else s.ring.size) = low
    generalize second : (if low < s.ring.size then s.ring.size - low else 0) = high
    have parts : low + high = xs.length ∧ 0 ≤ high ∧ 0 < low ∧ s.ring.readPos + low ≤ bufSize ∧
        (high ≠ 0 → s.ring.readPos + low = bufSize) := by
      rw [← second, ← first]
      split_ifs
      all_goals omega
    obtain ⟨sum, positive, positive', fits, wraps⟩ := parts
    have split : xs.length = low.toNat + high.toNat := by omega
    refine ⟨by omega, ?_⟩
    rw [split, List.range_add, List.map_append, List.map_map, List.flatten_cons, List.flatten_cons, List.flatten_nil,
      List.append_nil]
    congr 1
    · refine List.map_congr_left fun i mem => ?_
      have less := List.mem_range.mp mem
      rw [State.slot, Int.emod_eq_of_lt (by omega) (by omega)]
    · refine List.map_congr_left fun j mem => ?_
      have less := List.mem_range.mp mem
      have behind : s.ring.readPos + ((low.toNat + j : Nat) : Int) = bufSize + j := by
        have wrapped := wraps (by omega)
        omega
      rw [Function.comp_apply, State.slot, behind, Int.add_emod_left, Int.emod_eq_of_lt (by omega) (by omega)]
  · have none_ : xs.length = 0 := by omega
    rw [if_neg some_, none_]
    exact ⟨rfl, rfl⟩

theorem holds_look (holds : Holds s xs) (woken : s.phase = .woken) :
    Holds { s with phase := .printing (snapshot s.ring).1 (snapshot s.ring).2 } xs := by
  obtain ⟨count, slots⟩ := snapshot_spec holds.fifo
  have length : (snapshot s.ring).2.flatten.length = (snapshot s.ring).1 := by
    rw [slots, count, List.length_map, List.length_range]
  have before : s.read = 0 := by rw [State.read, State.found, woken, Nat.zero_sub]
  have accepted := holds.accepted
  rw [before] at accepted
  have after : State.read { s with phase := .printing (snapshot s.ring).1 (snapshot s.ring).2 } = 0 := by
    change (snapshot s.ring).1 - (snapshot s.ring).2.flatten.length = 0
    rw [length, Nat.sub_self]
  refine ⟨holds.fifo, ⟨length.le, count.le⟩, ?_, by rw [after]; exact accepted, holds.nulFree⟩
  change (snapshot s.ring).2.flatten = (List.range (snapshot s.ring).2.flatten.length).map _
  rw [length, after, slots, count]
  exact List.map_congr_left fun i _ => by rw [Nat.zero_add]; rfl

theorem holds_printChar {count : Nat} {parts : List (List Int)} (holds : Holds s xs)
    (printing : s.phase = .printing count parts) (taken : printNext s count parts = some s') : Holds s' xs := by
  have parts_ : s.parts = parts := by rw [State.parts, printing]
  have found_ : s.found = count := by rw [State.found, printing]
  have bound := holds.found
  have accepted := holds.accepted
  have slots := holds.slots
  rw [parts_, found_] at bound
  rw [State.read, parts_, found_] at accepted slots
  cases parts with
  | nil => cases taken
  | cons part parts =>
      cases part with
      | nil =>
          obtain rfl := Option.some.inj taken
          exact ⟨holds.fifo, bound, slots, accepted, holds.nulFree⟩
      | cons slot part =>
          generalize rest : (part :: parts).flatten = slots' at *
          have whole : ((slot :: part) :: parts).flatten = slot :: slots' := congrArg (slot :: ·) rest
          rw [whole, List.length_cons] at bound accepted slots
          generalize place : count - (slots'.length + 1) = k at accepted slots
          have inside : k < xs.length := by omega
          rw [List.range_succ_eq_map, List.map_cons, List.map_map] at slots
          obtain ⟨here, behind⟩ := List.cons.inj slots
          have char : s.ring.buffer slot = xs[k] := by
            rw [here]
            exact holds.fifo.held k inside
          have next : xs.drop k = xs[k] :: xs.drop (k + 1) := List.drop_eq_getElem_cons inside
          have some_ : s.ring.buffer slot ≠ 0 := by
            intro nul
            refine holds.nulFree ?_
            rw [accepted, next, ← char, nul]
            exact List.mem_append_right _ List.mem_cons_self
          rw [printNext, if_neg some_] at taken
          obtain rfl := Option.some.inj taken
          have read : State.read { s with phase := .printing count (part :: parts), printed := s.printed ++ [s.ring.buffer slot] } =
              k + 1 := by
            change count - (part :: parts).flatten.length = k + 1
            rw [rest]
            omega
          refine ⟨holds.fifo, ?_, ?_, ?_, holds.nulFree⟩
          · change (part :: parts).flatten.length ≤ count ∧ count ≤ xs.length
            rw [rest]
            omega
          · change (part :: parts).flatten = (List.range (part :: parts).flatten.length).map _
            rw [rest, read, behind, List.length_map, List.length_range]
            refine List.map_congr_left fun i _ => ?_
            rw [Function.comp_apply, Nat.succ_eq_add_one, Nat.add_assoc, Nat.add_comm 1 i]
            rfl
          · rw [read]
            change s.accepted = s.printed ++ [s.ring.buffer slot] ++ xs.drop (k + 1)
            rw [accepted, next, char, List.append_assoc]
            rfl

theorem holds_done {count : Nat} (holds : Holds s xs) (printing : s.phase = .printing count []) :
    Holds { s with ring := s.ring.release bufSize count, phase := .waiting } (xs.drop count) := by
  have parts_ : s.parts = [] := by rw [State.parts, printing]
  have found_ : s.found = count := by rw [State.found, printing]
  have read : s.read = count := by
    rw [State.read, parts_, found_]
    rfl
  have enough : count ≤ xs.length := found_ ▸ holds.found.2
  refine ⟨holds.fifo.release enough, ⟨Nat.le_refl 0, Nat.zero_le _⟩, rfl, ?_, holds.nulFree⟩
  have accepted := holds.accepted
  rw [read] at accepted
  exact accepted

theorem holds_step {label : Label} (holds : Holds s xs) (allowed : Allowed s label) (taken : step s label = some s') :
    ∃ xs', Holds s' xs' := by
  have idle (t : State) (ring : t.ring = s.ring) (parts : t.parts = s.parts) (found : t.found = s.found)
      (accepted : t.accepted = s.accepted) (printed : t.printed = s.printed) : Holds t xs := by
    have read : t.read = s.read := by rw [State.read, State.read, parts, found]
    refine ⟨ring ▸ holds.fifo, by rw [parts, found]; exact holds.found, ?_, ?_, accepted ▸ holds.nulFree⟩
    · simp only [State.slot, parts, read, ring]
      exact holds.slots
    · rw [accepted, printed, read]
      exact holds.accepted
  cases label with
  | putChar type =>
      obtain rfl := Option.some.inj taken
      exact holds_putChar holds type allowed
  | setEvent =>
      simp only [step] at taken
      split at taken
      · obtain rfl := Option.some.inj taken
        exact ⟨xs, idle _ rfl rfl rfl rfl rfl⟩
      · cases taken
  | wake =>
      simp only [step] at taken
      cases phase : s.phase with
      | waiting =>
          simp only [phase] at taken
          split at taken
          · obtain rfl := Option.some.inj taken
            exact ⟨xs, idle _ rfl (by rw [State.parts, State.parts, phase]) (by rw [State.found, State.found, phase]) rfl rfl⟩
          · cases taken
      | woken | printing | exited =>
          simp [phase] at taken
  | waitFails =>
      simp only [step] at taken
      cases phase : s.phase with
      | waiting =>
          simp only [phase] at taken
          obtain rfl := Option.some.inj taken
          exact ⟨xs, idle _ rfl (by rw [State.parts, State.parts, phase]) (by rw [State.found, State.found, phase]) rfl rfl⟩
      | woken | printing | exited =>
          simp [phase] at taken
  | look =>
      simp only [step] at taken
      cases phase : s.phase with
      | woken =>
          simp only [phase] at taken
          obtain rfl := Option.some.inj taken
          exact ⟨xs, holds_look holds phase⟩
      | waiting | printing | exited =>
          simp [phase] at taken
  | printChar =>
      simp only [step] at taken
      cases phase : s.phase with
      | printing count parts =>
          simp only [phase] at taken
          exact ⟨xs, holds_printChar holds phase taken⟩
      | waiting | woken | exited =>
          simp [phase] at taken
  | done =>
      simp only [step] at taken
      cases phase : s.phase with
      | printing count parts =>
          simp only [phase] at taken
          cases parts with
          | nil =>
              obtain rfl := Option.some.inj taken
              exact ⟨xs.drop count, holds_done holds phase⟩
          | cons part parts => cases taken
      | waiting | woken | exited =>
          simp [phase] at taken

theorem safe_of_holds (holds : Holds s xs) : Safe s := by
  have size := holds.fifo.size
  have bound := holds.found
  have read : s.read ≤ s.found := Nat.sub_le _ _
  refine ⟨⟨by omega, holds.fifo.room⟩, holds.fifo.stop, ?_, fun type i found => ?_⟩
  · rw [holds.accepted]
    exact congrArg (s.printed ++ ·) (holds.fifo.contents s.read).symm
  · obtain ⟨-, -, ⟨ring, -⟩ | ⟨-, room, ring, -⟩⟩ := putChar_cases s type
    · rw [ring]
    · rw [ring]
      exact holds.fifo.push_held room _ (by omega)

end Steps

/-- In every run in which no character comes in of which a NUL is left, the characters are printed as they are accepted. -/
theorem kprintf_safe {s : State} (reachable : (system.guard Allowed).Reachable s) : Safe s := by
  have holds : ∃ xs, Holds s xs := by
    refine @System.Reachable.invariant _ _ (system.guard Allowed) (fun s => ∃ xs, Holds s xs) ?_ ?_ s reachable
    · rintro s ⟨buffer, rfl⟩
      have empty : RingBuffer.Fifo bufSize ⟨buffer, 0, 0, 0⟩ ([] : Bytes) := .clear ⟨buffer, 0, 0, 0⟩ (by decide)
      exact ⟨[], empty, ⟨Nat.le_refl 0, Nat.le_refl 0⟩, rfl, rfl, List.not_mem_nil⟩
    · rintro s a s' ⟨xs, holds⟩ ⟨allowed, taken⟩
      exact holds_step holds allowed taken
  obtain ⟨xs, holds⟩ := holds
  exact safe_of_holds holds

def starting : State := ⟨⟨fun _ => 0, 0, 0, 0⟩, 0, false, .waiting, [], []⟩

theorem starts_starting : Starts starting := ⟨fun _ => 0, rfl⟩

theorem letter_allowed : Allowed starting (.putChar 65) := fun nul => absurd nul.1.2 (by decide)

theorem letter_safe : Safe (putCharDebug starting 65) :=
  kprintf_safe (.step (.init starts_starting) ⟨letter_allowed, rfl⟩)

/-- A character of which a NUL is left, and a letter. -/
def nulRun : List Label :=
  [.putChar 0x10000, .putChar 65, .putChar 0x201, .setEvent, .wake, .look, .printChar, .printChar, .done]

theorem letter_lost : ∃ s, system.Reachable s ∧ ¬ Safe s := by
  obtain ⟨s, run⟩ : ∃ s, System.exec step starting nulRun = some s := ⟨_, rfl⟩
  have start : system.Reachable starting := .init starts_starting
  refine ⟨s, start.exec (fun t a t' _ taken => taken) run, fun safe => ?_⟩
  obtain rfl := Option.some.inj run
  exact absurd safe.printed (by decide)

end Psplink.Kprintf
