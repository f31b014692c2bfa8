import Psplink.Gdb.Stub
import Psplink.Lib.System
import Mathlib.Data.Set.Card

/-!
# What GDB sees of the step breakpoints

Runs of `GdbHandleException`, packet by packet, with a record of the bytes that the packets wrote.
-/

namespace Psplink.Gdb
open Psplink.Lib Psplink.Debug Psplink.Exception

/-! ## Runs -/

/-- `dead`: the stub has faulted itself, or has written past `output`. -/
inductive Phase
  | running
  | processing (sigval : Byte)
  | dead
  deriving DecidableEq

structure Session extends Stub where
  phase : Phase
  /-- The bytes that `M` and `X` packets wrote, and those of the packets answered OK. -/
  written : List (Word × Byte)
  acknowledged : List (Word × Byte)

/-- An exception brings the context it copied to `g_context`; `query` is what `handle_query`
answers; the program may write wherever it has no text, at any time. -/
inductive GdbEvent
  | exception (ctx : Context)
  | packet (input : Input) (query : List Byte)
  | lost
  | program (mem : Memory)

/-- The bytes that a packet writes, until one is refused, and whether it is answered OK. -/
def dataWrites (binary : Bool) (buf : Nat → Byte) : Nat → Nat → Word → List (Word × Byte) × Bool
  | 0, _, dest => ([], dest ≠ 0)
  | count + 1, i, dest =>
      if userMemory dest then
        let (ch, i) := decodeByte binary buf i
        let (writes, ok) := dataWrites binary buf count i (dest + 1)
        ((dest, ch) :: writes, ok)
      else ([], false)

def dataPacket (binary : Bool) (input : Input) (ptr : List Byte) : List (Word × Byte) × Bool :=
  match Stub.addrLength ptr with
  | some (addr, length, ch :: data) =>
      if ch = char ':' then dataWrites binary (input.stream data) (Stub.intCount length) 0 addr
      else ([], false)
  | _ => ([], false)

def packetWrites (input : Input) : List (Word × Byte) × Bool :=
  match input.text with
  | [] => ([], false)
  | command :: ptr =>
      match Char.ofNat command.toNat with
      | 'X' => dataPacket true input ptr
      | 'M' => dataPacket false input ptr
      | _ => ([], false)

/-- Memory with bytes written into it, the first of them first. -/
def view (loaded : Memory) (writes : List (Word × Byte)) : Memory :=
  writes.foldl (fun mem write => putByte mem write.1 write.2) loaded

/-- The byte that was written last at an address. -/
def lastWritten (writes : List (Word × Byte)) (address : Word) : Option Byte :=
  (writes.reverse.find? fun write => sameByte write.1 address).map (·.2)

def Phase.after (sigval : Byte) : Outcome → Phase
  | .reply => .processing sigval
  | .resume => .running
  | .fault | .overflow => .dead

def Session.after (bus : Bus) (s : Session) : GdbEvent → Option Session
  | .exception ctx =>
      if s.phase = .running then
        let stub := { s.toStub with ctx := ctx }.enter
        some { s with toStub := stub, phase := .processing (sigval ctx) }
      else none
  | .packet input query =>
      match s.phase with
      | .processing sigval =>
          let (outcome, stub) := s.toStub.handlePacket bus query sigval input
          let (writes, ok) := packetWrites input
          some { s with
            toStub := stub
            phase := .after sigval outcome
            written := s.written ++ writes
            acknowledged := if ok then s.acknowledged ++ writes else s.acknowledged }
      | _ => none
  | .lost =>
      match s.phase with
      | .processing _ => some { s with phase := .running }
      | _ => none
  | .program mem => some { s with mem := mem }

/-- `main` has called `GdbStubInit` and loaded the program. -/
structure Session.Starts (loaded : Memory) (s : Session) : Prop where
  mem : s.mem = loaded
  stepbp : ∀ slot, s.stepbp slot = .zero
  started : s.started = false
  phase : s.phase = .running
  written : s.written = []
  acknowledged : s.acknowledged = []

def gdb (bus : Bus) (text : Text bus) (loaded : Memory) : System Session GdbEvent where
  init := Session.Starts loaded
  step s e s' := s.after bus e = some s' ∧
    ∀ mem, e = .program mem → ∀ k ∈ text.lines, mem k = s.mem k

/-! ## Packets -/

theorem view_append (loaded : Memory) (first second : List (Word × Byte)) :
    view loaded (first ++ second) = view (view loaded first) second := by
  simp [view, List.foldl_append]

theorem getByte_view (loaded : Memory) (writes : List (Word × Byte)) (address : Word) :
    getByte (view loaded writes) address =
      (lastWritten writes address).getD (getByte loaded address) := by
  induction writes using List.reverseRecOn with
  | nil => rfl
  | append_singleton writes write ih =>
      rw [view_append]
      show getByte (putByte (view loaded writes) write.1 write.2) address = _
      rw [getByte_putByte, ih, lastWritten, lastWritten, List.reverse_append]
      by_cases here : sameByte write.1 address = true
      · simp [here]
      · simp [here]

theorem hex2mem_eq (binary : Bool) (buf : Nat → Byte) (count i : Nat) (dest : Word) (mem : Memory) :
    (hex2mem binary buf count i dest mem).1 = view mem (dataWrites binary buf count i dest).1 := by
  induction count generalizing i dest mem with
  | zero => rfl
  | succ count ih =>
      rw [hex2mem, dataWrites]
      by_cases user : userMemory dest = true
      · simp only [gdbWriteByte, if_pos user]
        rw [ih]
        rfl
      · simp only [gdbWriteByte, if_neg user]
        rfl

theorem view_congr {mem mem' : Memory} {k : Line} (same : mem k = mem' k)
    (writes : List (Word × Byte)) : view mem writes k = view mem' writes k := by
  induction writes generalizing mem mem' with
  | nil => exact same
  | cons write writes ih =>
      apply ih
      by_cases here : k = line write.1
      · subst here
        simp [putByte, same]
      · simp [putByte, here, same]

namespace Stub

variable {bus : Bus} {query : List Byte} {sigval : Byte} {input : Input} {s : Stub}

@[simp] theorem toStepping_answer (text : List Char) : (s.answer text).toStepping = s.toStepping := rfl

@[simp] theorem toStepping_buildTrapCmd : (s.buildTrapCmd sigval).toStepping = s.toStepping := rfl

@[simp] theorem toStepping_readRegs : s.readRegs.toStepping = s.toStepping := rfl

@[simp] theorem toStepping_writeRegs (buf : Nat → Byte) :
    (s.writeRegs buf).toStepping = s.toStepping := rfl

@[simp] theorem toStepping_cont (ptr : List Byte) : (s.cont ptr).toStepping = s.toStepping := by
  unfold cont
  split
  · dsimp only
    split <;> rfl
  · rfl

@[simp] theorem toStepping_readMem (ptr : List Byte) :
    (s.readMem ptr).2.toStepping = s.toStepping := by
  unfold readMem
  repeat' (first | rfl | split)

@[simp] theorem toStepping_handleHwbp (set : Bool) (str : List Byte) :
    (s.handleHwbp set str).toStepping = s.toStepping := by
  unfold handleHwbp instructionBp dataBp
  repeat' (first | rfl | split)

theorem unwritten {s' : Stub} (same : s'.toStepping = s.toStepping) :
    s'.stepbp = s.stepbp ∧ s'.mem = view s.mem [] :=
  ⟨congrArg (·.stepbp) same, congrArg (·.mem) same⟩

theorem writeMem_spec (binary : Bool) (ptr : List Byte) :
    (s.writeMem binary input ptr).stepbp = s.stepbp ∧
      (s.writeMem binary input ptr).mem = view s.mem (dataPacket binary input ptr).1 := by
  unfold writeMem dataPacket
  rcases addrLength ptr with _ | ⟨addr, length, _ | ⟨ch, data⟩⟩
  · exact ⟨rfl, rfl⟩
  · exact ⟨rfl, rfl⟩
  · dsimp only
    by_cases colon : ch = char ':'
    · simp only [if_pos colon]
      rw [← hex2mem_eq]
      split <;> exact ⟨rfl, rfl⟩
    · simp only [if_neg colon]
      exact ⟨rfl, rfl⟩

theorem step_spec (ptr : List Byte) :
    (s.step bus ptr).1 = .fault ∨ ∃ regs, (s.step bus ptr).1 = .resume ∧
      stepGeneric bus true false regs s.toStepping = .ok (s.step bus ptr).2.toStepping := by
  unfold step
  dsimp only
  generalize moved : (if (hexToInt ptr).2.1 ≠ 0 then
    { s with ctx := s.ctx.setReg .epc (hexToInt ptr).1 } else s) = s'
  have same : s'.toStepping = s.toStepping := by
    rw [← moved]
    split <;> rfl
  rw [same]
  cases stepped : stepGeneric bus true false (.ofContext s'.ctx) s.toStepping with
  | error _ => exact .inl rfl
  | ok _ => exact .inr ⟨_, rfl, stepped⟩

/-- A packet changes memory as it says and leaves the step breakpoints, or it is a step. -/
theorem handlePacket_spec :
    ((s.handlePacket bus query sigval input).2.stepbp = s.stepbp ∧
      (s.handlePacket bus query sigval input).2.mem = view s.mem (packetWrites input).1) ∨
    (packetWrites input).1 = [] ∧ ((s.handlePacket bus query sigval input).1 = .fault ∨
      ∃ regs, (s.handlePacket bus query sigval input).1 = .resume ∧
        stepGeneric bus true false regs s.toStepping =
          .ok (s.handlePacket bus query sigval input).2.toStepping) := by
  unfold handlePacket packetWrites
  dsimp only
  cases input.text with
  | nil => exact .inl ⟨rfl, rfl⟩
  | cons command ptr =>
      dsimp only
      generalize Char.ofNat command.toNat = c
      split
      case h_1 => exact .inl (unwritten rfl)
      case h_2 => exact .inl (unwritten (toStepping_cont ptr))
      case h_3 => exact .inl (unwritten rfl)
      case h_4 => exact .inl (unwritten rfl)
      case h_5 => exact .inl (unwritten rfl)
      case h_6 => exact .inl (unwritten (toStepping_readMem ptr))
      case h_7 => exact .inl (writeMem_spec true ptr)
      case h_8 => exact .inl (writeMem_spec false ptr)
      case h_9 => exact .inr ⟨rfl, step_spec ptr⟩
      case h_10 => exact .inl (unwritten rfl)
      case h_11 => exact .inl (unwritten (toStepping_handleHwbp true ptr))
      case h_12 => exact .inl (unwritten (toStepping_handleHwbp false ptr))
      case h_13 other =>
        apply Or.inl
        split
        · contradiction
        · contradiction
        · exact unwritten rfl

theorem toStepping_enter : s.enter.toStepping = (s.recoverStep 0).recoverStep 1 := by
  unfold enter
  dsimp only
  split <;> rfl

end Stub

/-! ## The invariant -/

section
variable {bus : Bus} {text : Text bus} {loaded : Memory} {s s' : Session}

def Session.slots (s : Session) : Empty ⊕ Fin 2 → Option (Patch Line Word) :=
  s.toStepping.slots Empty.elim

structure Session.Inv (text : Text bus) (loaded : Memory) (s : Session) : Prop where
  patched : s.phase ≠ .dead →
    Patched text.lines swBreakInst (view loaded s.written) s.mem s.slots
  clean : ∀ sigval, s.phase = .processing sigval → ∀ slot, (s.stepbp slot).active = false

theorem inactive_recoverStep (s : Stepping) (slot : Fin 2) :
    ((s.recoverStep slot).stepbp slot).active = false := by
  unfold Stepping.recoverStep
  split
  · simp [Stepping.setBp]
  · rename_i inactive
    exact Bool.eq_false_of_not_eq_true inactive

theorem stepbp_recoverStep (s : Stepping) {slot slot' : Fin 2} (differ : slot' ≠ slot) :
    (s.recoverStep slot).stepbp slot' = s.stepbp slot' := by
  unfold Stepping.recoverStep
  split
  · exact Function.update_of_ne differ ..
  · rfl

theorem slots_none {s : Stepping} (inactive : ∀ slot, (s.stepbp slot).active = false) :
    ∀ i, s.slots Empty.elim i = none := by
  intro i
  rcases i with ⟨⟨⟩⟩ | slot
  simp [Stepping.slots, BreakPoint.patch, inactive]

theorem inv_exception (inv : s.Inv text loaded) (running : s.phase = .running) (ctx : Context) :
    Session.Inv text loaded { s with
      toStub := { s.toStub with ctx := ctx }.enter, phase := .processing (sigval ctx) } := by
  have patched := inv.patched (by simp [running])
  have recovered := patched_recoverStep (patched_recoverStep patched 0) 1
  constructor
  · intro _
    show Patched text.lines swBreakInst _ ({ s.toStub with ctx := ctx }.enter).toStepping.mem
      (({ s.toStub with ctx := ctx }.enter).toStepping.slots Empty.elim)
    rw [Stub.toStepping_enter]
    exact recovered
  · intro _ _ slot
    show ((({ s.toStub with ctx := ctx }.enter).toStepping).stepbp slot).active = false
    rw [Stub.toStepping_enter]
    match slot with
    | 0 =>
        rw [stepbp_recoverStep _ (by decide)]
        exact inactive_recoverStep ..
    | 1 => exact inactive_recoverStep ..

theorem inv_packet {sigval : Byte} {query : List Byte} {input : Input} (inv : s.Inv text loaded)
    (processing : s.phase = .processing sigval) {acknowledged : List (Word × Byte)} :
    let r := s.toStub.handlePacket bus query sigval input
    Session.Inv text loaded { s with
      toStub := r.2
      phase := .after sigval r.1
      written := s.written ++ (packetWrites input).1
      acknowledged := acknowledged } := by
  intro r
  have inactive := inv.clean sigval processing
  have patched := inv.patched (by simp [processing])
  have none := slots_none inactive
  have spec : _ ∨ (packetWrites input).1 = [] ∧ (r.1 = .fault ∨ _) := Stub.handlePacket_spec
  rcases spec with ⟨stepbp, mem⟩ | ⟨unwritten, fault | ⟨regs, resumed, stepped⟩⟩
  · have inactive' : ∀ slot, (r.2.stepbp slot).active = false := by
      intro slot
      rw [stepbp]
      exact inactive slot
    constructor
    · intro _
      apply Patched.empty (slots_none inactive')
      intro k inside
      show r.2.mem k = view loaded (s.written ++ _) k
      rw [mem, view_append]
      exact view_congr (patched.clean none inside) _
    · intro _ _
      exact inactive'
  · constructor
    · intro alive
      exact absurd (congrArg (Phase.after sigval) fault) alive
    · intro _ processing'
      cases (congrArg (Phase.after sigval) fault).symm.trans processing'
  · constructor
    · intro _
      show Patched text.lines swBreakInst (view loaded (s.written ++ _)) r.2.toStepping.mem
        (r.2.toStepping.slots Empty.elim)
      rw [unwritten, List.append_nil]
      have kept := patched_stepGeneric patched text.answers
        (fun _ _ slot _ _ => ⟨inactive slot, fun _ i p at_i => by simp [none] at at_i⟩)
        (.inr ⟨_, stepped⟩)
      rw [stepped] at kept
      exact kept
    · intro _ processing'
      cases (congrArg (Phase.after sigval) resumed).symm.trans processing'

theorem inv_after {e : GdbEvent} (inv : s.Inv text loaded) (step : (gdb bus text loaded).step s e s') :
    s'.Inv text loaded := by
  obtain ⟨after, same⟩ := step
  cases e with
  | exception ctx =>
      simp only [Session.after] at after
      split at after
      · cases after
        exact inv_exception inv ‹_› ctx
      · cases after
  | packet input query =>
      simp only [Session.after] at after
      split at after
      · cases after
        exact inv_packet inv ‹_›
      · cases after
  | lost =>
      simp only [Session.after] at after
      split at after
      · rename_i processing
        cases after
        exact ⟨fun _ => inv.patched (by simp [processing]), nofun⟩
      · cases after
  | program mem =>
      cases after
      exact ⟨fun alive => (inv.patched alive).agree (same mem rfl), inv.clean⟩

theorem inv_reachable (reachable : (gdb bus text loaded).Reachable s) : s.Inv text loaded := by
  apply reachable.invariant
  · intro s starts
    have inactive : ∀ slot, (s.stepbp slot).active = false := fun slot => by
      rw [starts.stepbp]
      rfl
    constructor
    · intro _
      rw [starts.mem, starts.written]
      exact .empty (slots_none inactive) fun _ _ => rfl
    · intro _ _
      exact inactive
  · intro s e s' inv step
    exact inv_after inv step

end

/-! ### A step, and a packet that is refused half way -/

def memoryBus : Bus := fun _ => true

def allText : Text memoryBus := ⟨Set.univ, fun _ _ => rfl⟩

def zeros : Memory := fun _ => 0

def opened : Session where
  mem := zeros
  stepbp _ := .zero
  output := []
  ctx _ := 0
  started := false
  hw := false
  iaddr := 0
  daddr := 0
  datatype := 0
  env := ⟨0, 0, 0, 0, 0, 0⟩
  phase := .running
  written := []
  acknowledged := []

def typed (text : List Char) : GdbEvent := .packet ⟨text.map char, fun _ => 0⟩ []

def breakAt (epc : Word) : GdbEvent := .exception (Context.setReg (fun _ => 0) .epc epc)

theorem reachable_opened {events : List GdbEvent} (quiet : ∀ mem, .program mem ∉ events) {s : Session}
    (run : System.exec (Session.after memoryBus) opened events = some s) :
    (gdb _ allText zeros).Reachable s := by
  have start : (gdb _ allText zeros).Reachable opened :=
    .init ⟨rfl, fun _ => rfl, rfl, rfl, rfl, rfl⟩
  apply start.exec _ run
  intro t e t' member after
  refine ⟨after, ?_⟩
  rintro mem rfl
  exact absurd member (quiet mem)

def runEnds (events : List GdbEvent) (holds : Session → Bool) : Bool :=
  (System.exec (Session.after memoryBus) opened events).any holds

end Psplink.Gdb
