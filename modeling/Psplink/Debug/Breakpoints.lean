import Psplink.Debug.StepGeneric
import Psplink.Lib.System
import Mathlib.Data.Fintype.Basic

/-!
# The breakpoints of the shell

psplink/debug.c: the table `g_bps`, the step breakpoints and what an exception does with them.
-/

namespace Psplink.Debug
open Psplink.Lib

abbrev maxBps : Nat := 16

structure Debugger extends Stepping where
  bps : Fin maxBps → BreakPoint

namespace Debugger

/-- The address without the nibble that selects kernel, user or uncached memory. -/
def masked (address : Word) : Word := address &&& 0x0FFFFFFF

def findBp (s : Debugger) (address : Word) : Option (Fin maxBps) :=
  (List.finRange maxBps).find? fun i => (s.bps i).active && masked (s.bps i).address == masked address

def findFreebp (s : Debugger) : Option (Fin maxBps) :=
  (List.finRange maxBps).find? fun i => !(s.bps i).active

def setBp (s : Debugger) (i : Fin maxBps) (b : BreakPoint) : Debugger :=
  { s with bps := Function.update s.bps i b }

def recover (s : Debugger) (i : Fin maxBps) : Debugger :=
  { s.setBp i { s.bps i with active := false } with
    mem := sw s.mem (s.bps i).oldinst (s.bps i).address }

def recoverStep (s : Debugger) (slot : Fin 2) : Debugger :=
  { s with toStepping := s.toStepping.recoverStep slot }

def debugSetBp (bus : Bus) (address : Word) (s : Debugger) : Debugger :=
  match s.findBp address, s.findFreebp with
  | none, some i =>
      match lw bus s.mem address with
      | some oldinst =>
          { s.setBp i ⟨address, oldinst, true⟩ with mem := sw s.mem swBreakInst address }
      | none => s
  | _, _ => s

def debugDeleteBp (i : Int) (s : Debugger) : Debugger :=
  if bound : 0 ≤ i ∧ i < maxBps then
    let slot : Fin maxBps := ⟨i.toNat, by omega⟩
    if (s.bps slot).active then s.recover slot else s
  else s

def checkBp (s : Debugger) (address : Word) : Bool :=
  ((s.stepbp 0).active && (s.stepbp 0).address == address) ||
    ((s.stepbp 1).active && (s.stepbp 1).address == address) || (s.findBp address).isSome

def debugHandleException (epc : Word) (s : Debugger) : Debugger :=
  if s.checkBp epc then
    let s := (s.recoverStep 0).recoverStep 1
    match s.findBp epc with
    | some i => s.recover i
    | none => s
  else s

def debugStep (bus : Bus) (skip : Bool) (regs : StepRegs) (s : Debugger) : Debugger :=
  { s with toStepping := leaves (stepGeneric bus false skip regs s.toStepping) }

def slots (s : Debugger) : Fin maxBps ⊕ Fin 2 → Option (Patch Line Word) :=
  s.toStepping.slots fun i => (s.bps i).patch

end Debugger

/-! ## Runs -/

/-- The commands, with their arguments decoded, the exceptions, by the address they were taken at,
and the program, which writes to no text. -/
inductive DebugEvent
  | bpset (address : Word)
  | delete (i : Int)
  | step (skip : Bool) (regs : StepRegs)
  | exception (epc : Word)
  | program (mem : Memory)

def Debugger.after (bus : Bus) (s : Debugger) : DebugEvent → Debugger
  | .bpset address => s.debugSetBp bus (address &&& ~~~3)
  | .delete i => s.debugDeleteBp i
  | .step skip regs => s.debugStep bus skip regs
  | .exception epc => s.debugHandleException epc
  | .program mem => { s with mem := mem }

def Debugger.start (loaded : Memory) : Debugger := ⟨⟨loaded, fun _ => .zero⟩, fun _ => .zero⟩

def debugger (bus : Bus) (text : Text bus) (loaded : Memory) : System Debugger DebugEvent where
  init s := s = .start loaded
  step s e s' := s' = s.after bus e ∧
    ∀ mem, e = .program mem → ∀ k ∈ text.lines, mem k = s.mem k

/-- The two tables are kept apart: no breakpoint at the place of a pending step, and no step that
uses an entry still pending or plants at the place of a breakpoint. -/
def Apart (bus : Bus) (text : Text bus) (s : Debugger) : DebugEvent → Prop
  | .bpset address => ∀ slot, (s.stepbp slot).active = true → line (s.stepbp slot).address ∈ text.lines →
      line (s.stepbp slot).address ≠ line (address &&& ~~~3)
  | .step skip regs => ∀ opcode, lw bus s.mem regs.epc = some opcode →
      ∀ slot address, (slot, address) ∈ stepPlants false skip regs opcode →
        Unused (fun i => (s.bps i).patch) text.lines s.toStepping slot address
  | _ => True

/-! ## The invariant -/

theorem masked_iff {a b : Word} (aligned : a &&& 3 = 0) (aligned' : b &&& 3 = 0) :
    Debugger.masked a = Debugger.masked b ↔ line a = line b := by
  have low (c : Word) : (Debugger.masked c).toNat = c.toNat % 2 ^ 28 := by
    rw [Debugger.masked, BitVec.toNat_and]
    exact Nat.and_two_pow_sub_one_eq_mod c.toNat 28
  rw [aligned_iff] at aligned aligned'
  rw [← BitVec.toNat_inj, ← BitVec.toNat_inj, low, low, toNat_line, toNat_line]
  omega

namespace Debugger

variable {bus : Bus} {text : Text bus} {loaded : Memory} {s : Debugger}

structure Inv (text : Text bus) (loaded : Memory) (s : Debugger) : Prop where
  patched : Patched text.lines swBreakInst loaded s.mem s.slots
  aligned : ∀ i, (s.bps i).active = true → (s.bps i).address &&& 3 = 0

theorem slots_recover (s : Debugger) (i : Fin maxBps) :
    (s.recover i).slots = Function.update s.slots (.inl i) none := by
  funext j
  cases j with
  | inl j =>
      by_cases same : j = i
      · subst same
        simp [slots, Stepping.slots, recover, setBp, BreakPoint.patch]
      · simp [slots, Stepping.slots, recover, setBp, same]
  | inr slot => simp [slots, Stepping.slots, recover, setBp]

theorem inv_recover (inv : Inv text loaded s) {i : Fin maxBps} (active : (s.bps i).active = true) :
    Inv text loaded (s.recover i) where
  patched := by
    rw [slots_recover]
    exact inv.patched.restore (p := ⟨line (s.bps i).address, (s.bps i).oldinst⟩)
      (by simp [slots, Stepping.slots, BreakPoint.patch, active])
  aligned j active' := by
    by_cases same : j = i
    · subst same
      simp [recover, setBp] at active'
    · rw [recover, setBp] at active' ⊢
      simp only [Function.update_of_ne same] at active' ⊢
      exact inv.aligned j active'

theorem inv_recoverStep (inv : Inv text loaded s) (slot : Fin 2) :
    Inv text loaded (s.recoverStep slot) :=
  ⟨patched_recoverStep inv.patched slot, inv.aligned⟩

theorem active_of_findBp {address : Word} {i : Fin maxBps} (found : s.findBp address = some i) :
    (s.bps i).active = true := by
  have holds := List.find?_some found
  rw [Bool.and_eq_true] at holds
  exact holds.1

theorem inv_debugHandleException (inv : Inv text loaded s) (epc : Word) :
    Inv text loaded (s.debugHandleException epc) := by
  have steps := inv_recoverStep (inv_recoverStep inv 0) 1
  unfold debugHandleException
  split
  · dsimp only
    split
    · exact inv_recover steps (active_of_findBp ‹_›)
    · exact steps
  · exact inv

theorem inv_debugDeleteBp (inv : Inv text loaded s) (i : Int) : Inv text loaded (s.debugDeleteBp i) := by
  unfold debugDeleteBp
  split
  · dsimp only
    split
    · exact inv_recover inv ‹_›
    · exact inv
  · exact inv

theorem slots_setBp (s : Debugger) (i : Fin maxBps) (b : BreakPoint) :
    (s.setBp i b).slots = Function.update s.slots (.inl i) b.patch := by
  funext j
  cases j with
  | inl j =>
      by_cases same : j = i
      · subst same
        simp [slots, Stepping.slots, setBp]
      · simp [slots, Stepping.slots, setBp, same]
  | inr slot => simp [slots, Stepping.slots, setBp]

theorem inv_debugSetBp (inv : Inv text loaded s) {address : Word}
    (apart : ∀ slot, (s.stepbp slot).active = true → line (s.stepbp slot).address ∈ text.lines →
      line (s.stepbp slot).address ≠ line address) :
    Inv text loaded (s.debugSetBp bus address) := by
  unfold debugSetBp
  split
  · rename_i i unknown unused
    cases here : lw bus s.mem address with
    | none => exact inv
    | some oldinst =>
        obtain ⟨aligned, rfl⟩ := lw_eq_some here
        have inactive : (s.bps i).active = false := by simpa using List.find?_some unused
        constructor
        · show Patched text.lines swBreakInst loaded (sw s.mem swBreakInst address)
            (s.setBp i ⟨address, s.mem (line address), true⟩).slots
          rw [slots_setBp]
          apply inv.patched.plant
          · simp [slots, Stepping.slots, BreakPoint.patch, inactive]
          · intro inside j p at_j same
            cases j with
            | inl j =>
                -- `find_bp` has found no breakpoint under any view of the address
                obtain ⟨active, rfl⟩ := BreakPoint.patch_eq_some.mp at_j
                have differ := List.find?_eq_none.mp unknown j (List.mem_finRange j)
                rw [active, Bool.true_and, beq_iff_eq, masked_iff (inv.aligned j active) aligned]
                  at differ
                exact differ same
            | inr slot =>
                obtain ⟨active, rfl⟩ := BreakPoint.patch_eq_some.mp at_j
                have here : line (s.stepbp slot).address = line address := same
                exact apart slot active (here ▸ inside) here
        · intro j active
          by_cases same : j = i
          · subst same
            simpa [setBp] using aligned
          · simp only [setBp, Function.update_of_ne same] at active ⊢
            exact inv.aligned j active
  · exact inv

theorem inv_debugStep (inv : Inv text loaded s) {skip : Bool} {regs : StepRegs}
    (apart : Apart bus text s (.step skip regs)) : Inv text loaded (s.debugStep bus skip regs) :=
  ⟨patched_stepGeneric inv.patched text.answers apart (.inl rfl), inv.aligned⟩

end Debugger

section
variable {bus : Bus} {text : Text bus} {loaded : Memory}

theorem inv_after {s s' : Debugger} {e : DebugEvent} (inv : s.Inv text loaded)
    (apart : Apart bus text s e) (step : (debugger bus text loaded).step s e s') :
    s'.Inv text loaded := by
  obtain ⟨rfl, same⟩ := step
  cases e with
  | bpset address => exact Debugger.inv_debugSetBp inv apart
  | delete i => exact Debugger.inv_debugDeleteBp inv i
  | step skip regs => exact Debugger.inv_debugStep inv apart
  | exception epc => exact Debugger.inv_debugHandleException inv epc
  | program mem => exact ⟨inv.patched.agree (same mem rfl), inv.aligned⟩

theorem inv_reachable {s : Debugger}
    (reachable : ((debugger bus text loaded).guard (Apart bus text)).Reachable s) :
    s.Inv text loaded := by
  apply reachable.invariant
  · rintro s rfl
    exact ⟨.empty (by rintro (i | slot) <;> rfl) fun _ _ => rfl, nofun⟩
  · intro s e s' inv step
    exact inv_after inv step.1 step.2

/-- Where the tables are kept apart, text is what was loaded but for the active breakpoints, and
these have the word that belongs in their place. -/
theorem text_intact {s : Debugger}
    (reachable : ((debugger bus text loaded).guard (Apart bus text)).Reachable s) :
    (∀ b, (∃ i, b = s.bps i) ∨ (∃ slot, b = s.stepbp slot) → b.active = true →
      line b.address ∈ text.lines →
        s.mem (line b.address) = swBreakInst ∧ b.oldinst = loaded (line b.address)) ∧
    ∀ k ∈ text.lines, (∀ i, (s.bps i).active = true → line (s.bps i).address ≠ k) →
      (∀ slot, (s.stepbp slot).active = true → line (s.stepbp slot).address ≠ k) →
        s.mem k = loaded k := by
  obtain ⟨patched, -⟩ := inv_reachable reachable
  constructor
  · rintro b member active inside
    obtain ⟨j, at_j⟩ : ∃ j, s.slots j = some ⟨line b.address, b.oldinst⟩ := by
      rcases member with ⟨i, rfl⟩ | ⟨slot, rfl⟩
      · exact ⟨.inl i, BreakPoint.patch_eq_some.mpr ⟨active, rfl⟩⟩
      · exact ⟨.inr slot, BreakPoint.patch_eq_some.mpr ⟨active, rfl⟩⟩
    exact ⟨patched.trapped j _ at_j inside, patched.old j _ at_j inside⟩
  · intro k inside noBp noStep
    apply patched.rest k inside
    intro j p at_j
    cases j with
    | inl i =>
        obtain ⟨active, rfl⟩ := BreakPoint.patch_eq_some.mp at_j
        exact noBp i active
    | inr slot =>
        obtain ⟨active, rfl⟩ := BreakPoint.patch_eq_some.mp at_j
        exact noStep slot active

end

/-! ### A breakpoint at the place of a step -/

def wholeText : Text fun _ => true := ⟨Set.univ, fun _ _ => rfl⟩

def stepAt (epc : Word) : DebugEvent := .step false ⟨epc, fun _ => 0⟩

def nops : Memory := fun _ => 0

theorem text_intact_breakpoint : ∃ s,
    ((debugger _ wholeText nops).guard (Apart _ wholeText)).Reachable s ∧
      s.mem (line 0x08804008) = swBreakInst ∧ (s.bps 0).oldinst = nops (line 0x08804008) := by
  have start : ((debugger _ wholeText nops).guard (Apart _ wholeText)).Reachable (.start nops) :=
    .init rfl
  have apart : Apart _ wholeText (.start nops) (.bpset 0x08804008) := by
    intro slot pending
    cases pending
  have set := start.step (a := .bpset 0x08804008) ⟨apart, rfl, nofun⟩
  refine ⟨_, set, (text_intact set).1 _ (.inl ⟨0, rfl⟩) ?_ trivial⟩
  rfl

/-- A step onto a breakpoint that is deleted before the step traps: the trap puts the break
instruction back, and no breakpoint is left that remembers the word. -/
theorem text_not_intact : ∃ s, (debugger _ wholeText nops).Reachable s ∧
    (∀ i, (s.bps i).active = false) ∧ (∀ slot, (s.stepbp slot).active = false) ∧
      s.mem (line 0x08804004) ≠ nops (line 0x08804004) := by
  have start : (debugger _ wholeText nops).Reachable (.start nops) := .init rfl
  have set := start.step (a := .bpset 0x08804004) ⟨rfl, nofun⟩
  have step := set.step (a := stepAt 0x08804000) ⟨rfl, nofun⟩
  have delete := step.step (a := .delete 0) ⟨rfl, nofun⟩
  have trap := delete.step (a := .exception 0x08804004) ⟨rfl, nofun⟩
  exact ⟨_, trap, by decide, by decide, by decide⟩

end Psplink.Debug
