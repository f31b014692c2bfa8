import Mathlib.Data.Set.Insert
import Psplink.Lib.System
import Psplink.Gdb.RoundTrip

/-!
# Hardware breakpoints

The debug hardware has room for one instruction breakpoint and one data breakpoint. The stub takes a slot
to be in use when the address it keeps for it is not zero; GDB knows from the answers what it has inserted.
-/

namespace Psplink.Gdb
open Psplink.Lib Psplink.Debug

/-! ## Breakpoints -/

/-- `DATABP_TYPE_READ`, `DATABP_TYPE_WRITE` and `DATABP_TYPE_ACCESS`. -/
inductive Watch
  | read | write | access
  deriving DecidableEq

def Watch.code : Watch → Word
  | .read => 1
  | .write => 2
  | .access => 3

inductive Slot
  | instruction | data
  deriving DecidableEq

inductive Breakpoint
  | instruction (addr : Word)
  | data (type : Watch) (addr : Word)
  deriving DecidableEq

namespace Breakpoint

def slot : Breakpoint → Slot
  | .instruction _ => .instruction
  | .data _ _ => .data

def addr : Breakpoint → Word
  | .instruction addr => addr
  | .data _ addr => addr

def digit : Breakpoint → Byte
  | .instruction _ => char '1'
  | .data .write _ => char '2'
  | .data .read _ => char '3'
  | .data .access _ => char '4'

/-- The registers of its slot are set for it. -/
def InForce (env : DebugEnv) : Breakpoint → Prop
  | .instruction addr => env.ibc = 2 ∧ env.ibam = 0 ∧ env.iba = addr
  | .data type addr => env.dbc = type.code <<< 20 ||| 2 ∧ env.dbam = 0 ∧ env.dba = addr

end Breakpoint

def DebugEnv.control (env : DebugEnv) : Slot → Word
  | .instruction => env.ibc
  | .data => env.dbc

/-! ## The stub -/

namespace Stub

/-- The address that the stub keeps for a slot. -/
def held (s : Stub) : Slot → Word
  | .instruction => s.iaddr
  | .data => s.daddr

def arm (s : Stub) : Breakpoint → Stub
  | .instruction addr =>
      { s with env := { s.env with iba := addr, ibam := 0, ibc := 2 }, iaddr := addr }.answer ['O', 'K']
  | .data type addr =>
      { s with
        env := { s.env with dba := addr, dbam := 0, dbc := type.code <<< 20 ||| 2 }
        daddr := addr
        datatype := type.code }.answer ['O', 'K']

def disarm (s : Stub) : Slot → Stub
  | .instruction => { s with env := { s.env with iba := 0, ibam := 0, ibc := 0 }, iaddr := 0 }.answer ['O', 'K']
  | .data =>
      { s with env := { s.env with dba := 0, dbam := 0, dbc := 0 }, daddr := 0, datatype := 0 }.answer ['O', 'K']

def refuse (s : Stub) : Stub := s.answer ['E', '0', '3']

theorem handleHwbp_eq (set : Bool) (b : Breakpoint) {address length : List Byte} {n : Word}
    (first : Number address b.addr) (second : Number length n) {s : Stub} (present : s.hw = true) :
    s.handleHwbp set (b.digit :: char ',' :: rangeText address length) =
      if set then if s.held b.slot = 0 then s.arm b else s.refuse
      else if s.held b.slot ≠ 0 then s.disarm b.slot else s.refuse := by
  have parsed : addrLength (rangeText address length) = some (b.addr, n, []) := by
    rw [← List.append_nil (rangeText _ _)]
    exact addrLength_rangeText first second (by decide)
  have digit : isdigit b.digit = true := by rcases b with _ | ⟨_ | _ | _, _⟩ <;> rfl
  unfold handleHwbp
  rw [if_pos present]
  dsimp only
  rw [if_pos ⟨digit, rfl⟩, parsed]
  rcases b with addr | ⟨_ | _ | _, addr⟩ <;> rfl

variable {s : Stub} {b b' : Breakpoint} {k k' : Slot}

theorem held_arm : (s.arm b).held k = if k = b.slot then b.addr else s.held k := by
  cases b <;> cases k <;> rfl

theorem held_disarm : (s.disarm k').held k = if k = k' then 0 else s.held k := by
  cases k <;> cases k' <;> rfl

theorem control_arm (other : k ≠ b.slot) : (s.arm b).env.control k = s.env.control k := by
  cases b <;> cases k <;> first | rfl | exact absurd rfl other

theorem control_disarm : (s.disarm k').env.control k = if k = k' then 0 else s.env.control k := by
  cases k <;> cases k' <;> rfl

theorem watch_code {type type' : Watch} (same : type.code <<< 20 ||| 2 = type'.code <<< 20 ||| 2) : type = type' := by
  revert same
  cases type <;> cases type' <;> decide

theorem inForce_arm : b'.InForce (s.arm b).env ↔ if b'.slot = b.slot then b' = b else b'.InForce s.env := by
  rcases b with addr | ⟨type, addr⟩ <;> rcases b' with addr' | ⟨type', addr'⟩
  · simp [Breakpoint.InForce, Breakpoint.slot, arm, answer, eq_comm]
  · simp [Breakpoint.InForce, Breakpoint.slot, arm, answer]
  · simp [Breakpoint.InForce, Breakpoint.slot, arm, answer]
  · simp only [Breakpoint.InForce, Breakpoint.slot, arm, answer, if_true, Breakpoint.data.injEq, true_and]
    constructor
    · intro armed
      exact ⟨(watch_code armed.1).symm, armed.2.symm⟩
    · rintro ⟨rfl, rfl⟩
      exact ⟨rfl, rfl⟩

theorem not_inForce_off (off : s.env.control b.slot = 0) : ¬ b.InForce s.env := by
  rcases b with addr | ⟨type, addr⟩
  · intro armed
    exact absurd (off.symm.trans armed.1) (by decide)
  · intro armed
    have code := off.symm.trans armed.1
    cases type <;> exact absurd code (by decide)

theorem inForce_disarm : b'.InForce (s.disarm k).env ↔ b'.slot ≠ k ∧ b'.InForce s.env := by
  by_cases here : b'.slot = k
  · have off : (s.disarm k).env.control b'.slot = 0 := by rw [control_disarm, if_pos here]
    exact iff_of_false (not_inForce_off off) fun armed => armed.1 here
  · cases b' <;> cases k <;> first | exact absurd rfl here | exact (and_iff_right here).symm

theorem inForce_unique {env : DebugEnv} (armed : b.InForce env) (armed' : b'.InForce env) (same : b.slot = b'.slot) :
    b = b' := by
  rcases b with addr | ⟨type, addr⟩ <;> rcases b' with addr' | ⟨type', addr'⟩
  · rw [← armed.2.2, ← armed'.2.2]
  · cases same
  · cases same
  · rw [← armed.2.2, ← armed'.2.2, watch_code (armed.1.symm.trans armed'.1)]

end Stub

/-! ## Packets -/

/-- A `Z` or `z` packet. -/
structure HwPacket where
  set : Bool
  breakpoint : Breakpoint
  address : List Byte
  length : List Byte
  len : Word
  addressed : Number address breakpoint.addr
  measured : Number length len

def HwPacket.text (p : HwPacket) : List Byte :=
  char (if p.set then 'Z' else 'z') :: p.breakpoint.digit :: char ',' :: rangeText p.address p.length

namespace Stub

def hwbp (p : HwPacket) (s : Stub) : Stub :=
  if p.set then if s.held p.breakpoint.slot = 0 then s.arm p.breakpoint else s.refuse
  else if s.held p.breakpoint.slot ≠ 0 then s.disarm p.breakpoint.slot else s.refuse

theorem handlePacket_hwbp (bus : Bus) (query : List Byte) (sigval : Byte) (p : HwPacket) (after : Nat → Byte) {s : Stub}
    (present : s.hw = true) :
    handlePacket bus query sigval ⟨p.text, after⟩ s = (.reply, { s with output := [] }.hwbp p) := by
  have handled := handleHwbp_eq p.set p.breakpoint p.addressed p.measured (s := { s with output := [] }) present
  rw [hwbp, ← handled]
  unfold handlePacket HwPacket.text
  cases p.set <;> rfl

end Stub

/-! ## Runs -/

/-- The stub, and what GDB has inserted and not yet removed. -/
structure HwSession where
  stub : Stub
  inserted : Set Breakpoint

def okText : List Byte := ['O', 'K'].map char

def errorText : List Byte := ['E', '0', '3'].map char

/-- What GDB makes of an answer. -/
def told (inserted : Set Breakpoint) (p : HwPacket) (output : List Byte) : Set Breakpoint :=
  if output = okText then if p.set then insert p.breakpoint inserted else inserted \ {p.breakpoint} else inserted

structure Unarmed (x : HwSession) : Prop where
  control : ∀ k, x.stub.env.control k = 0
  held : ∀ k, x.stub.held k = 0
  inserted : x.inserted = ∅

/-- Packets for hardware breakpoints, while the debug hardware is there. -/
def hwSystem (bus : Bus) : System HwSession HwPacket where
  init := Unarmed
  step x p x' := x.stub.hw = true ∧
    (∃ query sigval after, x.stub.handlePacket bus query sigval ⟨p.text, after⟩ = (.reply, x'.stub)) ∧
    x'.inserted = told x.inserted p x'.stub.output

structure Agrees (x : HwSession) : Prop where
  programmed : ∀ b, b ∈ x.inserted ↔ b.InForce x.stub.env
  idle : ∀ k, (∀ b ∈ x.inserted, b.slot ≠ k) → x.stub.env.control k = 0
  known : ∀ k, x.stub.held k ≠ 0 ↔ ∃ b ∈ x.inserted, b.slot = k
  held : ∀ b ∈ x.inserted, x.stub.held b.slot = b.addr

/-- What the state is after a packet and, for a remove packet, what it disarms and answers. -/
structure Served (x : HwSession) (p : HwPacket) (x' : HwSession) : Prop where
  agrees : Agrees x'
  removed : p.set = false → p.breakpoint ∈ x.inserted → x'.stub.output = okText
  refused : p.set = false → p.breakpoint ∉ x.inserted → x'.stub.output = errorText ∧ x'.stub.env = x.stub.env

/-- A free slot does not get a breakpoint at address 0, and a slot in use is cleared for its own breakpoint only. -/
def Proper (x : HwSession) (p : HwPacket) : Prop :=
  if p.set then x.stub.held p.breakpoint.slot = 0 → p.breakpoint.addr ≠ 0
  else x.stub.held p.breakpoint.slot ≠ 0 → p.breakpoint.InForce x.stub.env

section

variable {x x' : HwSession} {p : HwPacket}

theorem agrees_unarmed (unarmed : Unarmed x) : Agrees x where
  programmed b := by
    rw [unarmed.inserted]
    exact iff_of_false (Set.notMem_empty b) (Stub.not_inForce_off (unarmed.control _))
  idle k _ := unarmed.control k
  known k := by
    rw [unarmed.inserted]
    exact iff_of_false (not_not.mpr (unarmed.held k)) fun there => there.choose_spec.1
  held b mem := by
    rw [unarmed.inserted] at mem
    exact mem.elim

/-- An answer that is an error leaves everything as it was. -/
theorem agrees_refused (agrees : Agrees x) (env : x'.stub.env = x.stub.env) (held : x'.stub.held = x.stub.held)
    (inserted : x'.inserted = x.inserted) : Agrees x' where
  programmed b := by
    rw [env, inserted]
    exact agrees.programmed b
  idle k := by
    rw [env, inserted]
    exact agrees.idle k
  known k := by
    rw [held, inserted]
    exact agrees.known k
  held b := by
    rw [held, inserted]
    exact agrees.held b

theorem agrees_armed (agrees : Agrees x) {b : Breakpoint} (free : x.stub.held b.slot = 0) (nonzero : b.addr ≠ 0)
    {s : Stub} (env : s.env = x.stub.env) (held : s.held = x.stub.held) (stub : x'.stub = s.arm b)
    (inserted : x'.inserted = insert b x.inserted) : Agrees x' := by
  have empty : ∀ b' ∈ x.inserted, b'.slot ≠ b.slot := fun b' mem same => (agrees.known _).mpr ⟨b', mem, same⟩ free
  constructor
  · intro b'
    rw [stub, inserted, Stub.inForce_arm, Set.mem_insert_iff, env, ← agrees.programmed]
    by_cases same : b'.slot = b.slot
    · rw [if_pos same]
      exact or_iff_left fun mem => empty b' mem same
    · rw [if_neg same]
      exact or_iff_right fun eq => same (congrArg _ eq)
  · intro k none
    rw [inserted] at none
    have other : k ≠ b.slot := fun same => none b (Set.mem_insert ..) same.symm
    rw [stub, Stub.control_arm other, env]
    exact agrees.idle k fun b' mem => none b' (Set.mem_insert_of_mem b mem)
  · intro k
    rw [stub, inserted, Stub.held_arm]
    by_cases here : k = b.slot
    · rw [if_pos here]
      exact iff_of_true nonzero ⟨b, Set.mem_insert .., here.symm⟩
    · rw [if_neg here, held, agrees.known]
      constructor
      · rintro ⟨b', mem, slot⟩
        exact ⟨b', Set.mem_insert_of_mem b mem, slot⟩
      · rintro ⟨b', rfl | mem, slot⟩
        · exact absurd slot.symm here
        · exact ⟨b', mem, slot⟩
  · intro b' mem
    rw [inserted] at mem
    rw [stub, Stub.held_arm]
    rcases mem with rfl | mem
    · exact if_pos rfl
    · rw [if_neg (empty b' mem), held]
      exact agrees.held b' mem

theorem agrees_disarmed (agrees : Agrees x) {b : Breakpoint} (there : b ∈ x.inserted) {s : Stub}
    (env : s.env = x.stub.env) (held : s.held = x.stub.held) (stub : x'.stub = s.disarm b.slot)
    (inserted : x'.inserted = x.inserted \ {b}) : Agrees x' := by
  have others : ∀ b', b' ∈ x'.inserted ↔ b'.slot ≠ b.slot ∧ b' ∈ x.inserted := by
    intro b'
    rw [inserted, Set.mem_sdiff, Set.mem_singleton_iff, and_comm]
    refine and_congr_left fun mem => not_congr ⟨fun same => congrArg _ same, fun same => ?_⟩
    exact Stub.inForce_unique ((agrees.programmed b').mp mem) ((agrees.programmed b).mp there) same
  constructor
  · intro b'
    rw [others, stub, Stub.inForce_disarm, env, agrees.programmed]
  · intro k none
    rw [stub, Stub.control_disarm, env]
    by_cases here : k = b.slot
    · exact if_pos here
    · rw [if_neg here]
      refine agrees.idle k fun b' mem slot => none b' ((others b').mpr ⟨?_, mem⟩) slot
      rwa [slot]
  · intro k
    rw [stub, Stub.held_disarm, held]
    by_cases here : k = b.slot
    · rw [if_pos here]
      refine iff_of_false (not_not.mpr rfl) fun left => ?_
      obtain ⟨b', mem, slot⟩ := left
      exact ((others b').mp mem).1 (slot.trans here)
    · rw [if_neg here, agrees.known]
      constructor
      · rintro ⟨b', mem, slot⟩
        exact ⟨b', (others b').mpr ⟨slot.trans_ne here, mem⟩, slot⟩
      · rintro ⟨b', mem, slot⟩
        exact ⟨b', ((others b').mp mem).2, slot⟩
  · intro b' mem
    obtain ⟨other, mem⟩ := (others b').mp mem
    rw [stub, Stub.held_disarm, if_neg other, held]
    exact agrees.held b' mem

theorem okText_ne_errorText : okText ≠ errorText := by decide

theorem output_arm (s : Stub) (b : Breakpoint) : (s.arm b).output = okText := by cases b <;> rfl

theorem output_disarm (s : Stub) (k : Slot) : (s.disarm k).output = okText := by cases k <;> rfl

/-- A packet is served as it should be exactly when it is a proper one. -/
theorem served_iff {bus : Bus} (agrees : Agrees x) (step : (hwSystem bus).step x p x') : Served x p x' ↔ Proper x p := by
  obtain ⟨present, ⟨query, sigval, after, handled⟩, inserted⟩ := step
  rw [Stub.handlePacket_hwbp bus query sigval p after present] at handled
  have stub : x'.stub = { x.stub with output := [] }.hwbp p := ((Prod.mk.injEq ..).mp handled).2.symm
  have held : { x.stub with output := [] }.held = x.stub.held := by
    funext k
    cases k <;> rfl
  have refusal : x'.stub = { x.stub with output := [] }.refuse → Agrees x' ∧ x'.stub.output = errorText ∧
      x'.stub.env = x.stub.env := by
    intro refused
    have same : x'.inserted = x.inserted := by
      rw [inserted, refused]
      exact if_neg okText_ne_errorText.symm
    refine ⟨agrees_refused agrees (by rw [refused]; rfl) ?_ same, by rw [refused]; rfl, by rw [refused]; rfl⟩
    rw [refused, ← held]
    funext k
    cases k <;> rfl
  unfold Proper
  rw [Stub.hwbp, held] at stub
  cases kind : p.set with
  | true =>
      rw [kind, if_pos rfl] at stub
      rw [if_pos rfl]
      by_cases free : x.stub.held p.breakpoint.slot = 0
      · rw [if_pos free] at stub
        have told : x'.inserted = insert p.breakpoint x.inserted := by
          rw [inserted, stub, output_arm, told, if_pos rfl, kind, if_pos rfl]
        constructor
        · intro served _
          have known := (served.agrees.known p.breakpoint.slot).mpr ⟨p.breakpoint, by rw [told]; exact Set.mem_insert .., rfl⟩
          rwa [stub, Stub.held_arm, if_pos rfl] at known
        · intro proper
          exact ⟨agrees_armed agrees free (proper free) rfl held stub told, by simp [kind], by simp [kind]⟩
      · rw [if_neg free] at stub
        exact iff_of_true ⟨(refusal stub).1, by simp [kind], by simp [kind]⟩ fun zero => absurd zero free
  | false =>
      rw [kind, if_neg Bool.false_ne_true] at stub
      rw [if_neg Bool.false_ne_true]
      by_cases used : x.stub.held p.breakpoint.slot ≠ 0
      · rw [if_pos used] at stub
        have told : x'.inserted = x.inserted \ {p.breakpoint} := by
          rw [inserted, stub, output_disarm, told, if_pos rfl, kind, if_neg Bool.false_ne_true]
        have ok : x'.stub.output = okText := by rw [stub, output_disarm]
        constructor
        · intro served _
          by_contra other
          have refused := served.refused kind (fun mem => other ((agrees.programmed _).mp mem))
          exact okText_ne_errorText (ok.symm.trans refused.1)
        · intro proper
          have there := (agrees.programmed _).mpr (proper used)
          exact ⟨agrees_disarmed agrees there rfl held stub told, fun _ _ => ok, fun _ none => absurd there none⟩
      · rw [if_neg used] at stub
        refine iff_of_true ⟨(refusal stub).1, fun _ mem => ?_, fun _ _ => (refusal stub).2⟩ fun there => absurd there used
        exact absurd ((agrees.known _).mpr ⟨p.breakpoint, mem, rfl⟩) used

end

/-- In a run of proper packets the hardware, the stub and GDB agree; a packet that is not proper breaks it. -/
theorem hwbp_agrees (bus : Bus) (x : HwSession) (reachable : ((hwSystem bus).guard Proper).Reachable x) :
    Agrees x ∧ ∀ p x', (hwSystem bus).step x p x' → (Served x p x' ↔ Proper x p) := by
  have agrees : Agrees x := by
    refine reachable.invariant (fun _ => agrees_unarmed) fun x p x' agrees step => ?_
    exact ((served_iff agrees step.2).mpr step.1).agrees
  exact ⟨agrees, fun p x' step => served_iff agrees step⟩

/-! ### From the start -/

def HwSession.serve (x : HwSession) (p : HwPacket) : HwSession :=
  ⟨{ x.stub with output := [] }.hwbp p, told x.inserted p ({ x.stub with output := [] }.hwbp p).output⟩

theorem step_serve (bus : Bus) {x : HwSession} (present : x.stub.hw = true) (p : HwPacket) :
    (hwSystem bus).step x p (x.serve p) :=
  ⟨present, ⟨[], 0, fun _ => 0, Stub.handlePacket_hwbp bus [] 0 p _ present⟩, rfl⟩

def startedSession : HwSession where
  stub :=
    { mem := fun _ => 0
      stepbp := fun _ => .zero
      output := []
      ctx := fun _ => 0
      started := true
      hw := true
      iaddr := 0
      daddr := 0
      datatype := 0
      env := ⟨0, 0, 0, 0, 0, 0⟩ }
  inserted := ∅

theorem unarmed_started : Unarmed startedSession := ⟨fun k => by cases k <;> rfl, fun k => by cases k <;> rfl, rfl⟩

def digits (text : List Char) : List Byte := text.map char

theorem number_four : Number (digits ['4']) 4 := ⟨by decide, rfl⟩

theorem number_zero : Number (digits ['0']) 0 := ⟨by decide, rfl⟩

theorem number_first : Number (digits ['8', '8', '0', '4', '0', '0', '0']) 0x08804000 := ⟨by decide, rfl⟩

theorem number_second : Number (digits ['8', '8', '0', '4', '0', '1', '0']) 0x08804010 := ⟨by decide, rfl⟩

/-- `Z1,8804000,4` -/
def insertFirst : HwPacket := ⟨true, .instruction 0x08804000, _, _, 4, number_first, number_four⟩

/-- `z1,8804010,4` -/
def removeSecond : HwPacket := ⟨false, .instruction 0x08804010, _, _, 4, number_second, number_four⟩

/-- `Z1,0,4` -/
def insertZero : HwPacket := ⟨true, .instruction 0, _, _, 4, number_zero, number_four⟩

theorem proper_first : Proper startedSession insertFirst := by
  have inserts : insertFirst.set = true := rfl
  rw [Proper, if_pos inserts]
  exact fun _ => by decide

theorem reachable_first (bus : Bus) : ((hwSystem bus).guard Proper).Reachable (startedSession.serve insertFirst) :=
  .step (.init unarmed_started) ⟨proper_first, step_serve bus rfl insertFirst⟩

theorem hwbp_agrees_first : Agrees (startedSession.serve insertFirst) :=
  (hwbp_agrees (fun _ => true) (startedSession.serve insertFirst) (reachable_first _)).1

/-- A breakpoint is removed in place of another, and one at address 0 is not known to be there. -/
theorem hwbp_removes_other :
    ((hwSystem fun _ => true).Reachable (startedSession.serve insertFirst) ∧
      (hwSystem fun _ => true).step (startedSession.serve insertFirst) removeSecond
        ((startedSession.serve insertFirst).serve removeSecond) ∧
      ¬ Served (startedSession.serve insertFirst) removeSecond ((startedSession.serve insertFirst).serve removeSecond)) ∧
    (hwSystem fun _ => true).Reachable startedSession ∧
      (hwSystem fun _ => true).step startedSession insertZero (startedSession.serve insertZero) ∧
      ¬ Served startedSession insertZero (startedSession.serve insertZero) := by
  have second := step_serve (fun _ => true) (x := startedSession.serve insertFirst) rfl removeSecond
  have zero := step_serve (fun _ => true) (x := startedSession) rfl insertZero
  refine ⟨⟨(reachable_first _).of_guard, second, fun served => ?_⟩, .init unarmed_started, zero, fun served => ?_⟩
  · have agrees := ((served_iff (agrees_unarmed unarmed_started) (step_serve (fun _ => true) rfl insertFirst)).mpr
      proper_first).agrees
    have proper := (served_iff agrees second).mp served
    exact absurd (proper (by decide)).2.2 (by decide)
  · exact (served_iff (agrees_unarmed unarmed_started) zero).mp served rfl rfl

end Psplink.Gdb
