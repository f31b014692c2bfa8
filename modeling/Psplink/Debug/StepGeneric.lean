import Psplink.Exception.Context
import Psplink.Lib.Patch

/-!
# Stepping

`step_generic`, which psplink/debug.c and gdbcommon/gdb-stub.c each have a copy of, and the
breakpoints it plants. Memory is a function on lines: the top nibble of an address selects a view
of the same memory, and the low two bits are zero wherever a word access does not fault.
-/

namespace Psplink.Debug
open Psplink.Lib Psplink.Exception

/-! ## Memory -/

abbrev Line := BitVec 26

def line (address : Word) : Line := address.extractLsb' 2 26

abbrev Memory := Line → Word

/-- Which aligned addresses answer; the others fault. -/
abbrev Bus := Word → Bool

def lw (bus : Bus) (mem : Memory) (address : Word) : Option Word :=
  if address &&& 3 = 0 ∧ bus address = true then some (mem (line address)) else none

def sw (mem : Memory) (value address : Word) : Memory := Function.update mem (line address) value

def swBreakInst : Word := 0x0000000d

structure BreakPoint where
  address : Word
  oldinst : Word
  active : Bool

def BreakPoint.zero : BreakPoint := ⟨0, 0, false⟩

def BreakPoint.patch (b : BreakPoint) : Option (Patch Line Word) :=
  if b.active then some ⟨line b.address, b.oldinst⟩ else none

theorem BreakPoint.patch_eq_some {b : BreakPoint} {p : Patch Line Word} :
    b.patch = some p ↔ b.active = true ∧ p = ⟨line b.address, b.oldinst⟩ := by
  by_cases active : b.active = true
  · rw [BreakPoint.patch, if_pos active, Option.some.injEq]
    exact ⟨fun same => ⟨active, same.symm⟩, fun holds => holds.2.symm⟩
  · rw [BreakPoint.patch, if_neg active]
    exact ⟨nofun, fun holds => absurd holds.1 active⟩

scoped instance neZeroSteps : NeZero 2 := Nat.instNeZeroSucc

structure Stepping where
  mem : Memory
  stepbp : Fin 2 → BreakPoint

/-! ## Instructions -/

structure StepRegs where
  epc : Word
  r : Fin 32 → Word

def StepRegs.ofContext (c : Context) : StepRegs := ⟨c.reg .epc, fun n => c.reg (.r n)⟩

@[match_pattern] abbrev beqOpcode : Nat := 0x4
@[match_pattern] abbrev beqlOpcode : Nat := 0x14
@[match_pattern] abbrev bgtzOpcode : Nat := 0x7
@[match_pattern] abbrev bgtzlOpcode : Nat := 0x17
@[match_pattern] abbrev blezOpcode : Nat := 0x6
@[match_pattern] abbrev blezlOpcode : Nat := 0x16
@[match_pattern] abbrev bneOpcode : Nat := 0x5
@[match_pattern] abbrev bnelOpcode : Nat := 0x15

@[match_pattern] abbrev regimmOpcode : Nat := 0x1
@[match_pattern] abbrev bgezOpcode : Nat := 0x1
@[match_pattern] abbrev bgezalOpcode : Nat := 0x11
@[match_pattern] abbrev bgezallOpcode : Nat := 0x13
@[match_pattern] abbrev bgezlOpcode : Nat := 0x3
@[match_pattern] abbrev bltzOpcode : Nat := 0
@[match_pattern] abbrev bltzalOpcode : Nat := 0x10
@[match_pattern] abbrev bltzallOpcode : Nat := 0x12
@[match_pattern] abbrev bltzlOpcode : Nat := 0x2

@[match_pattern] abbrev jOpcode : Nat := 0x2
@[match_pattern] abbrev jalOpcode : Nat := 0x3

@[match_pattern] abbrev specialOpcode : Nat := 0
@[match_pattern] abbrev jalrOpcode : Nat := 0x9
@[match_pattern] abbrev jrOpcode : Nat := 0x8
@[match_pattern] abbrev syscallOpcode : Nat := 0xc

@[match_pattern] abbrev cop0Opcode : Nat := 0x10
@[match_pattern] abbrev cop1Opcode : Nat := 0x11
@[match_pattern] abbrev cop2Opcode : Nat := 0x12
@[match_pattern] abbrev bcxfOpcode : Nat := 0x100
@[match_pattern] abbrev bcxflOpcode : Nat := 0x102
@[match_pattern] abbrev bcxtOpcode : Nat := 0x101
@[match_pattern] abbrev bcxtlOpcode : Nat := 0x103

/-- What the switch of `step_generic` leaves in its variables. -/
structure Target where
  targetpc : Word
  branch : Bool
  cond : Bool
  link : Bool
  deriving DecidableEq

def Target.next (epc : Word) : Target := ⟨epc + 4, false, false, false⟩

def Target.relative (epc opcode : Word) : Target :=
  ⟨epc + 4 + (opcode.setWidth 16).signExtend 32 * 4, true, true, false⟩

def Target.jump (epc opcode : Word) (link : Bool) : Target :=
  ⟨((opcode &&& 0x3ffffff) <<< 2) ||| ((epc + 4) &&& 0xf0000000), true, false, link⟩

def Target.register (regs : StepRegs) (opcode : Word) (link : Bool) : Target :=
  ⟨regs.r ⟨(opcode >>> 21 &&& 0x1f).toNat, by
    rw [BitVec.toNat_and]; exact Nat.lt_of_le_of_lt Nat.and_le_right (by decide)⟩, true, false, link⟩

/-- Only one of the two copies has the case of a system call, which is not a branch to it. -/
def stepTarget (syscalls : Bool) (regs : StepRegs) (opcode : Word) : Target :=
  match (opcode >>> 26).toNat with
  | beqOpcode | beqlOpcode | bgtzOpcode | bgtzlOpcode | blezOpcode | blezlOpcode | bneOpcode
  | bnelOpcode => .relative regs.epc opcode
  | regimmOpcode =>
      match (opcode >>> 16 &&& 0x1f).toNat with
      | bgezOpcode | bgezalOpcode | bgezallOpcode | bgezlOpcode | bltzOpcode | bltzalOpcode
      | bltzallOpcode | bltzlOpcode => .relative regs.epc opcode
      | _ => .next regs.epc
  | jalOpcode => .jump regs.epc opcode true
  | jOpcode => .jump regs.epc opcode false
  | specialOpcode =>
      match (opcode &&& 0x3f).toNat with
      | jalrOpcode => .register regs opcode true
      | jrOpcode => .register regs opcode false
      | syscallOpcode =>
          if syscalls then ⟨regs.r 31, false, false, false⟩ else .next regs.epc
      | _ => .next regs.epc
  | cop0Opcode | cop1Opcode | cop2Opcode =>
      match (opcode >>> 16 &&& 0x3ff).toNat with
      | bcxfOpcode | bcxflOpcode | bcxtOpcode | bcxtlOpcode => .relative regs.epc opcode
      | _ => .next regs.epc
  | _ => .next regs.epc

/-! ## Planting -/

namespace Stepping

def setBp (s : Stepping) (slot : Fin 2) (b : BreakPoint) : Stepping :=
  { s with stepbp := Function.update s.stepbp slot b }

/-- A step breakpoint at `address`. Where the load faults, the entry has its address already, and
is active if that is set before the load. -/
def plant (bus : Bus) (early : Bool) (slot : Fin 2) (address : Word) (s : Stepping) :
    Except Stepping Stepping :=
  match lw bus s.mem address with
  | none => .error (s.setBp slot
      ⟨address, (s.stepbp slot).oldinst, early || (s.stepbp slot).active⟩)
  | some oldinst =>
      .ok { s.setBp slot ⟨address, oldinst, true⟩ with mem := sw s.mem swBreakInst address }

end Stepping

def Stepping.recoverStep (s : Stepping) (slot : Fin 2) : Stepping :=
  if (s.stepbp slot).active then
    { s.setBp slot { s.stepbp slot with active := false } with
      mem := sw s.mem (s.stepbp slot).oldinst (s.stepbp slot).address }
  else s

/-- `step_generic`; an error is a fault, with what it leaves behind. -/
def stepGeneric (bus : Bus) (syscalls skip : Bool) (regs : StepRegs) (s : Stepping) :
    Except Stepping Stepping :=
  match lw bus s.mem regs.epc with
  | none => .error s
  | some opcode =>
      let t := stepTarget syscalls regs opcode
      if t.link && skip then s.plant bus false 1 (regs.epc + 8)
      else if t.branch then do
        let s ← s.plant bus false 0 t.targetpc
        if t.cond && t.targetpc ≠ regs.epc + 8 then s.plant bus false 1 (regs.epc + 8) else return s
      else s.plant bus true 0 t.targetpc

def stepPlants (syscalls skip : Bool) (regs : StepRegs) (opcode : Word) : List (Fin 2 × Word) :=
  let t := stepTarget syscalls regs opcode
  if t.link && skip then [(1, regs.epc + 8)]
  else if t.branch && (t.cond && t.targetpc ≠ regs.epc + 8) then [(0, t.targetpc), (1, regs.epc + 8)]
  else [(0, t.targetpc)]

/-- The lines of program text, which are memory. -/
structure Text (bus : Bus) where
  lines : Set Line
  answers : ∀ address, line address ∈ lines → bus address = true

/-! ## What a step does -/

theorem stepTarget_cases (syscalls : Bool) (regs : StepRegs) (opcode : Word) :
    stepTarget syscalls regs opcode = .next regs.epc ∨
      stepTarget syscalls regs opcode = .relative regs.epc opcode ∨
      (∃ link, stepTarget syscalls regs opcode = .jump regs.epc opcode link) ∨
      (∃ link, stepTarget syscalls regs opcode = .register regs opcode link) ∨
      syscalls = true ∧ stepTarget syscalls regs opcode = ⟨regs.r 31, false, false, false⟩ := by
  unfold stepTarget
  repeat' split
  all_goals first
    | exact .inl rfl
    | exact .inr (.inl rfl)
    | exact .inr (.inr (.inl ⟨_, rfl⟩))
    | exact .inr (.inr (.inr (.inl ⟨_, rfl⟩)))
    | exact .inr (.inr (.inr (.inr ⟨‹_›, rfl⟩)))

theorem aligned_iff (address : Word) : address &&& 3 = 0 ↔ address.toNat % 4 = 0 := by
  rw [← BitVec.toNat_inj, BitVec.toNat_and]
  exact Eq.congr_left (Nat.and_two_pow_sub_one_eq_mod address.toNat 2)

theorem toNat_line (address : Word) : (line address).toNat = address.toNat / 4 % 2 ^ 26 := by
  rw [line, BitVec.extractLsb'_toNat, Nat.shiftRight_eq_div_pow]

theorem aligned_add {a : Word} (aligned : a &&& 3 = 0) (n : Word) : (a + n * 4) &&& 3 = 0 := by
  rw [aligned_iff] at aligned ⊢
  rw [BitVec.toNat_add, BitVec.toNat_mul, show (4 : Word).toNat = 4 from rfl]
  omega

theorem line_add {a : Word} (aligned : a &&& 3 = 0) (n : Word) :
    (line (a + n * 4)).toNat = (a.toNat / 4 + n.toNat) % 2 ^ 26 := by
  rw [aligned_iff] at aligned
  rw [toNat_line, BitVec.toNat_add, BitVec.toNat_mul, show (4 : Word).toNat = 4 from rfl]
  omega

theorem signExtend_near (half : BitVec 16) :
    (half.signExtend 32).toNat < 2 ^ 15 ∨ 2 ^ 32 - 2 ^ 15 ≤ (half.signExtend 32).toNat := by
  have bound := half.isLt
  rw [BitVec.toNat_signExtend, BitVec.toNat_setWidth, BitVec.msb_eq_decide]
  split <;> simp_all <;> omega

theorem line_relative {epc opcode : Word} (aligned : epc &&& 3 = 0)
    (other : (Target.relative epc opcode).targetpc ≠ epc + 8) :
    line (Target.relative epc opcode).targetpc ≠ line (epc + 8) := by
  intro same
  have next : epc + 4 = epc + 1 * 4 := rfl
  have second : epc + 8 = epc + 1 * 4 + 1 * 4 := by rw [BitVec.add_assoc]; rfl
  have aligned' : (epc + 1 * 4) &&& 3 = 0 := aligned_add aligned 1
  rw [second, ← BitVec.toNat_inj, Target.relative, next, line_add aligned', line_add aligned'] at same
  have one : ((opcode.setWidth 16).signExtend 32).toNat % 2 ^ 26 = 1 := by
    rw [show (1 : Word).toNat = 1 from rfl] at same
    omega
  have near := signExtend_near (opcode.setWidth 16)
  apply other
  rw [second, Target.relative, next, show (opcode.setWidth 16).signExtend 32 = 1 from ?_]
  rw [← BitVec.toNat_inj]
  show _ = 1
  omega

theorem target_of_cond {syscalls : Bool} {regs : StepRegs} {opcode : Word}
    (cond : (stepTarget syscalls regs opcode).cond = true) :
    stepTarget syscalls regs opcode = .relative regs.epc opcode := by
  rcases stepTarget_cases syscalls regs opcode with next | branch | ⟨_, jump⟩ | ⟨_, register⟩ | ⟨_, call⟩
  · simp [next, Target.next] at cond
  · exact branch
  · simp [jump, Target.jump] at cond
  · simp [register, Target.register] at cond
  · simp [call] at cond

theorem target_of_straight {regs : StepRegs} {opcode : Word}
    (straight : (stepTarget false regs opcode).branch = false) :
    (stepTarget false regs opcode).targetpc = regs.epc + 4 := by
  rcases stepTarget_cases false regs opcode with next | branch | ⟨_, jump⟩ | ⟨_, register⟩ | ⟨call, _⟩
  · rw [next, Target.next]
  · simp [branch, Target.relative] at straight
  · simp [jump, Target.jump] at straight
  · simp [register, Target.register] at straight
  · cases call

/-! ## A step keeps track of what it patches -/

section
variable {T : Type} [DecidableEq T] {other : T → Option (Patch Line Word)}

/-- The breakpoints of a table and the step breakpoints, by their lines. -/
def Stepping.slots (other : T → Option (Patch Line Word)) (s : Stepping) :
    T ⊕ Fin 2 → Option (Patch Line Word) :=
  Sum.elim other fun slot => (s.stepbp slot).patch

variable {region : Set Line} {orig : Memory} {bus : Bus} {s : Stepping}

def leaves : Except Stepping Stepping → Stepping
  | .ok s => s
  | .error s => s

theorem slots_setBp (s : Stepping) (slot : Fin 2) (b : BreakPoint) :
    (s.setBp slot b).slots other = Function.update (s.slots other) (.inr slot) b.patch := by
  funext i
  cases i with
  | inl t => rfl
  | inr slot' =>
      by_cases same : slot' = slot
      · subst same
        simp [Stepping.slots, Stepping.setBp]
      · simp [Stepping.slots, Stepping.setBp, same]

theorem patched_recoverStep (patched : Patched region swBreakInst orig s.mem (s.slots other))
    (slot : Fin 2) :
    Patched region swBreakInst orig (s.recoverStep slot).mem ((s.recoverStep slot).slots other) := by
  unfold Stepping.recoverStep
  by_cases active : (s.stepbp slot).active = true
  · rw [if_pos active]
    show Patched region swBreakInst orig (sw s.mem _ _) ((s.setBp slot _).slots other)
    rw [slots_setBp, BreakPoint.patch, if_neg (by simp)]
    apply patched.restore (p := ⟨line (s.stepbp slot).address, (s.stepbp slot).oldinst⟩)
    simp [Stepping.slots, BreakPoint.patch, active]
  · rw [if_neg active]
    exact patched

theorem lw_eq_some {mem : Memory} {address oldinst : Word}
    (loaded : lw bus mem address = some oldinst) :
    address &&& 3 = 0 ∧ oldinst = mem (line address) := by
  unfold lw at loaded
  split at loaded
  · rename_i answers
    exact ⟨answers.1, (Option.some.inj loaded).symm⟩
  · cases loaded

theorem patched_plant (early : Bool) {slot : Fin 2} {address : Word}
    (patched : Patched region swBreakInst orig s.mem (s.slots other))
    (text : ∀ a, line a ∈ region → bus a = true) (unused : (s.stepbp slot).active = false)
    (free : line address ∈ region → Free (s.slots other) (line address))
    (aligned : early = true → address &&& 3 = 0) :
    Patched region swBreakInst orig (leaves (s.plant bus early slot address)).mem
      ((leaves (s.plant bus early slot address)).slots other) := by
  have none : s.slots other (.inr slot) = none := by
    simp [Stepping.slots, BreakPoint.patch, unused]
  unfold Stepping.plant
  cases loaded : lw bus s.mem address with
  | some oldinst =>
      obtain ⟨-, rfl⟩ := lw_eq_some loaded
      show Patched region swBreakInst orig (sw s.mem swBreakInst address)
        ((s.setBp slot ⟨address, s.mem (line address), true⟩).slots other)
      rw [slots_setBp]
      exact patched.plant none free
  | none =>
      show Patched region swBreakInst orig s.mem ((s.setBp slot _).slots other)
      rw [slots_setBp, unused, Bool.or_false]
      cases early with
      | false =>
          have same : Function.update (s.slots other) (.inr slot) .none = s.slots other := by
            rw [← none, Function.update_eq_self]
          rw [BreakPoint.patch, if_neg (by simp), same]
          exact patched
      | true =>
          -- the entry is active without its trap word, at a line that is no program text
          rw [BreakPoint.patch, if_pos (by simp)]
          apply patched.outside none
          intro inside
          rw [lw, if_pos ⟨aligned rfl, text address inside⟩] at loaded
          cases loaded

theorem stepbp_plant {early : Bool} {slot slot' : Fin 2} {address : Word} (differ : slot' ≠ slot) :
    (leaves (s.plant bus early slot address)).stepbp slot' = s.stepbp slot' := by
  unfold Stepping.plant
  split <;> exact Function.update_of_ne differ ..

theorem slots_plant {early : Bool} {slot : Fin 2} {address : Word} {s' : Stepping}
    (planted : s.plant bus early slot address = .ok s') :
    s'.slots other =
      Function.update (s.slots other) (.inr slot) (some ⟨line address, s.mem (line address)⟩) := by
  unfold Stepping.plant at planted
  cases loaded : lw bus s.mem address with
  | none =>
      rw [loaded] at planted
      cases planted
  | some oldinst =>
      obtain ⟨-, rfl⟩ := lw_eq_some loaded
      rw [loaded] at planted
      cases planted
      exact slots_setBp s slot _

theorem aligned_of_plant {early : Bool} {slot : Fin 2} {address : Word} {s' : Stepping}
    (planted : s.plant bus early slot address = .ok s') : address &&& 3 = 0 := by
  unfold Stepping.plant at planted
  cases loaded : lw bus s.mem address with
  | none =>
      rw [loaded] at planted
      cases planted
  | some oldinst => exact (lw_eq_some loaded).1

def Unused (other : T → Option (Patch Line Word)) (region : Set Line) (s : Stepping) (slot : Fin 2)
    (address : Word) : Prop :=
  (s.stepbp slot).active = false ∧ (line address ∈ region → Free (s.slots other) (line address))

theorem patched_branch {address after : Word} {both : Bool}
    (patched : Patched region swBreakInst orig s.mem (s.slots other))
    (text : ∀ a, line a ∈ region → bus a = true) (first : Unused other region s 0 address)
    (second : both = true → Unused other region s 1 after)
    (differ : both = true → line address ≠ line after) :
    let r := s.plant bus false 0 address >>= fun s =>
      if both then s.plant bus false 1 after else return s
    Patched region swBreakInst orig (leaves r).mem ((leaves r).slots other) := by
  intro r
  have kept := patched_plant false patched text first.1 first.2 nofun
  have untouched : (leaves (s.plant bus false 0 address)).stepbp 1 = s.stepbp 1 :=
    stepbp_plant (by decide)
  cases planted : s.plant bus false 0 address with
  | error s' =>
      have result : r = .error s' := by
        simp only [r, planted]
        rfl
      rw [planted] at kept
      rw [result]
      exact kept
  | ok s' =>
      rw [planted] at kept untouched
      have result : r = if both then s'.plant bus false 1 after else return s' := by
        simp only [r, planted]
        rfl
      rw [result]
      cases both with
      | false => exact kept
      | true =>
          rw [if_pos rfl]
          obtain ⟨unused, free⟩ := second rfl
          apply patched_plant false kept text (untouched ▸ unused) _ nofun
          intro inside i p at_i
          rw [leaves, slots_plant planted] at at_i
          by_cases here : i = .inr 0
          · subst here
            rw [Function.update_self] at at_i
            cases at_i
            exact differ rfl
          · rw [Function.update_of_ne here] at at_i
            exact free inside i p at_i

theorem patched_stepGeneric {syscalls skip : Bool} {regs : StepRegs}
    (patched : Patched region swBreakInst orig s.mem (s.slots other))
    (text : ∀ a, line a ∈ region → bus a = true)
    (unused : ∀ opcode, lw bus s.mem regs.epc = some opcode →
      ∀ slot address, (slot, address) ∈ stepPlants syscalls skip regs opcode →
        Unused other region s slot address)
    (completed : syscalls = false ∨ ∃ s', stepGeneric bus syscalls skip regs s = .ok s') :
    Patched region swBreakInst orig (leaves (stepGeneric bus syscalls skip regs s)).mem
      ((leaves (stepGeneric bus syscalls skip regs s)).slots other) := by
  unfold stepGeneric at completed ⊢
  cases loaded : lw bus s.mem regs.epc with
  | none => exact patched
  | some opcode =>
      have unused := unused opcode loaded
      obtain ⟨aligned, -⟩ := lw_eq_some loaded
      rw [loaded] at completed
      dsimp only at completed ⊢
      unfold stepPlants at unused
      generalize target : stepTarget syscalls regs opcode = t at completed unused ⊢
      dsimp only at unused
      by_cases skipping : (t.link && skip) = true
      · rw [if_pos skipping] at unused ⊢
        obtain ⟨idle, free⟩ := unused _ _ (List.mem_singleton_self _)
        exact patched_plant false patched text idle free nofun
      · rw [if_neg skipping] at unused completed ⊢
        by_cases branch : t.branch = true
        · rw [if_pos branch]
          rw [branch, Bool.true_and] at unused
          apply patched_branch patched text
          · apply unused
            split <;> simp
          · intro both
            rw [if_pos both] at unused
            exact unused _ _ (by simp)
          · intro both
            rw [Bool.and_eq_true, decide_eq_true_eq] at both
            subst target
            have relative := target_of_cond both.1
            rw [relative] at both ⊢
            exact line_relative aligned both.2
        · rw [if_neg branch] at completed ⊢
          rw [Bool.not_eq_true] at branch
          rw [branch, Bool.false_and] at unused
          obtain ⟨idle, free⟩ := unused _ _ (List.mem_singleton_self _)
          apply patched_plant true patched text idle free
          rintro -
          rcases completed with rfl | ⟨s', completed⟩
          · subst target
            rw [target_of_straight branch]
            exact aligned_add aligned 1
          · exact aligned_of_plant completed

end

end Psplink.Debug
