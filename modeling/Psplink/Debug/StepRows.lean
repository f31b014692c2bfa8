import Psplink.Debug.StepGeneric
import Psplink.Lib.Patterns
import Mathlib.Data.Set.Insert

/-!
# The switch of a step as patterns

Which words `step_generic` takes for branches and for jumps, and where a step plants its breakpoints.
-/

namespace Psplink.Debug
open Psplink.Lib

/-! ## Rows -/

inductive StepKind
  | relative
  | jump (link : Bool)
  | register (link : Bool)
  deriving DecidableEq

def StepKind.target (regs : StepRegs) (op : Word) : StepKind → Target
  | .relative => .relative regs.epc op
  | .jump link => .jump regs.epc op link
  | .register link => .register regs op link

structure StepRow where
  pattern : Pattern 32
  kind : StepKind
  deriving DecidableEq

def stepRows : List StepRow :=
  [⟨⟨0xFC000000, 0x10000000⟩, .relative⟩,
   ⟨⟨0xFC000000, 0x50000000⟩, .relative⟩,
   ⟨⟨0xFC000000, 0x1C000000⟩, .relative⟩,
   ⟨⟨0xFC000000, 0x5C000000⟩, .relative⟩,
   ⟨⟨0xFC000000, 0x18000000⟩, .relative⟩,
   ⟨⟨0xFC000000, 0x58000000⟩, .relative⟩,
   ⟨⟨0xFC000000, 0x14000000⟩, .relative⟩,
   ⟨⟨0xFC000000, 0x54000000⟩, .relative⟩,
   ⟨⟨0xFC1F0000, 0x04010000⟩, .relative⟩,
   ⟨⟨0xFC1F0000, 0x04110000⟩, .relative⟩,
   ⟨⟨0xFC1F0000, 0x04130000⟩, .relative⟩,
   ⟨⟨0xFC1F0000, 0x04030000⟩, .relative⟩,
   ⟨⟨0xFC1F0000, 0x04000000⟩, .relative⟩,
   ⟨⟨0xFC1F0000, 0x04100000⟩, .relative⟩,
   ⟨⟨0xFC1F0000, 0x04120000⟩, .relative⟩,
   ⟨⟨0xFC1F0000, 0x04020000⟩, .relative⟩,
   ⟨⟨0xFC000000, 0x0C000000⟩, .jump true⟩,
   ⟨⟨0xFC000000, 0x08000000⟩, .jump false⟩,
   ⟨⟨0xFC00003F, 0x00000009⟩, .register true⟩,
   ⟨⟨0xFC00003F, 0x00000008⟩, .register false⟩,
   ⟨⟨0xFFFF0000, 0x41000000⟩, .relative⟩,
   ⟨⟨0xFFFF0000, 0x41020000⟩, .relative⟩,
   ⟨⟨0xFFFF0000, 0x41010000⟩, .relative⟩,
   ⟨⟨0xFFFF0000, 0x41030000⟩, .relative⟩,
   ⟨⟨0xFFFF0000, 0x45000000⟩, .relative⟩,
   ⟨⟨0xFFFF0000, 0x45020000⟩, .relative⟩,
   ⟨⟨0xFFFF0000, 0x45010000⟩, .relative⟩,
   ⟨⟨0xFFFF0000, 0x45030000⟩, .relative⟩,
   ⟨⟨0xFFFF0000, 0x49000000⟩, .relative⟩,
   ⟨⟨0xFFFF0000, 0x49020000⟩, .relative⟩,
   ⟨⟨0xFFFF0000, 0x49010000⟩, .relative⟩,
   ⟨⟨0xFFFF0000, 0x49030000⟩, .relative⟩]

def syscallPattern : Pattern 32 := ⟨0xFC00003F, 0x0000000C⟩

/-! ## The switch -/

variable {syscalls : Bool} {regs : StepRegs} {op : Word} {p : Pattern 32}

theorem field_of (matched : p.Matches op) (shift : Nat) (m : Word) (given : p.mask >>> shift &&& m = m) :
    (op >>> shift &&& m).toNat = (p.bits >>> shift &&& m).toNat :=
  congrArg BitVec.toNat (matched.field shift m given)

theorem low_of (matched : p.Matches op) (m : Word) (given : p.mask &&& m = m) :
    (op &&& m).toNat = (p.bits &&& m).toNat := by
  rw [matched.bits_and, given]

theorem opcode_and (op : Word) : op >>> 26 &&& (0x3F : Word) = op >>> 26 := by
  rw [← BitVec.toNat_inj, BitVec.toNat_and]
  apply Nat.and_two_pow_sub_one_of_lt_two_pow (n := 6)
  rw [BitVec.toNat_ushiftRight, Nat.shiftRight_eq_div_pow]
  omega

theorem opcode_of (matched : p.Matches op) (given : p.mask >>> 26 &&& 0x3F = 0x3F) :
    (op >>> 26).toNat = (p.bits >>> 26).toNat := by
  have field := field_of matched 26 0x3F given
  rwa [opcode_and, opcode_and] at field

theorem stepTarget_of_row {row : StepRow} (member : row ∈ stepRows) (matched : row.pattern.Matches op) :
    stepTarget syscalls regs op = row.kind.target regs op := by
  unfold stepTarget
  simp only [stepRows, List.mem_cons, List.not_mem_nil, or_false] at member
  rcases member with rfl | rfl | rfl | rfl | rfl | rfl | rfl | rfl | rfl | rfl | rfl | rfl | rfl | rfl | rfl | rfl |
    rfl | rfl | rfl | rfl | rfl | rfl | rfl | rfl | rfl | rfl | rfl | rfl | rfl | rfl | rfl | rfl
  all_goals rw [opcode_of matched rfl]
  all_goals first
    | rfl
    | (rw [field_of matched 16 0x1f rfl]; rfl)
    | (rw [low_of matched 0x3f rfl]; rfl)
    | (rw [field_of matched 16 0x3ff rfl]; rfl)

theorem matches_opcode {n : Nat} (opcode : (op >>> 26).toNat = n) :
    (⟨0xFC000000, BitVec.ofNat 32 n <<< 26⟩ : Pattern 32).Matches op := by
  have value : op >>> 26 &&& (0x3F : Word) = BitVec.ofNat 32 n := by
    rw [opcode_and, ← opcode, BitVec.ofNat_toNat, BitVec.setWidth_eq]
  exact Pattern.matches_field value

/-- The opcode and a field besides. -/
theorem matches_both {n k shift : Nat} {m : Word} (opcode : (op >>> 26).toNat = n)
    (field : (op >>> shift &&& m).toNat = k) :
    (⟨0xFC000000 ||| m <<< shift, BitVec.ofNat 32 n <<< 26 ||| BitVec.ofNat 32 k <<< shift⟩ : Pattern 32).Matches op := by
  have value : op >>> shift &&& m = BitVec.ofNat 32 k := by
    rw [← field, BitVec.ofNat_toNat, BitVec.setWidth_eq]
  exact (matches_opcode opcode).both (Pattern.matches_field value)

theorem row_of_opcode {n : Nat} (opcode : (op >>> 26).toNat = n) (kind : StepKind)
    (member : ⟨⟨0xFC000000, BitVec.ofNat 32 n <<< 26⟩, kind⟩ ∈ stepRows) : ∃ row ∈ stepRows, row.pattern.Matches op :=
  ⟨_, member, matches_opcode opcode⟩

theorem row_of_field {n k shift : Nat} {m : Word} (opcode : (op >>> 26).toNat = n)
    (field : (op >>> shift &&& m).toNat = k) (kind : StepKind)
    (member : ⟨⟨0xFC000000 ||| m <<< shift, BitVec.ofNat 32 n <<< 26 ||| BitVec.ofNat 32 k <<< shift⟩, kind⟩ ∈ stepRows) :
    ∃ row ∈ stepRows, row.pattern.Matches op :=
  ⟨_, member, matches_both opcode field⟩

/-- What no row is of goes on to the next instruction. -/
theorem stepTarget_next (unmatched : ∀ row ∈ stepRows, ¬ row.pattern.Matches op) (plain : ¬ syscallPattern.Matches op) :
    stepTarget syscalls regs op = .next regs.epc := by
  have no_row : ¬ ∃ row ∈ stepRows, row.pattern.Matches op := fun ⟨row, member, matched⟩ => unmatched row member matched
  have low : op &&& (0x3f : Word) = op >>> 0 &&& 0x3f := by rw [BitVec.ushiftRight_zero]
  have no_call (opcode : (op >>> 26).toNat = 0) (function : (op >>> 0 &&& 0x3f).toNat = 12) : False :=
    plain (matches_both opcode function)
  unfold stepTarget
  rw [low]
  repeat' split
  all_goals first
    | rfl
    | exact absurd (row_of_opcode (by assumption) .relative (by decide)) no_row
    | exact absurd (row_of_field (by assumption) (by assumption) .relative (by decide)) no_row
    | exact absurd (row_of_opcode (by assumption) (.jump true) (by decide)) no_row
    | exact absurd (row_of_opcode (by assumption) (.jump false) (by decide)) no_row
    | exact absurd (row_of_field (by assumption) (by assumption) (.register true) (by decide)) no_row
    | exact absurd (row_of_field (by assumption) (by assumption) (.register false) (by decide)) no_row
    | exact (no_call (by assumption) (by assumption)).elim

/-! ## Planting -/

def Answers (bus : Bus) (address : Word) : Prop := address &&& 3 = 0 ∧ bus address = true

instance (bus : Bus) (address : Word) : Decidable (Answers bus address) :=
  inferInstanceAs (Decidable (address &&& 3 = 0 ∧ bus address = true))

/-- Where the active step breakpoints are. -/
def Stepping.planted (s : Stepping) : Set Word :=
  {address | ∃ slot, (s.stepbp slot).active = true ∧ (s.stepbp slot).address = address}

def Stepping.Trapped (s : Stepping) : Prop := ∀ address ∈ s.planted, s.mem (line address) = swBreakInst

section
variable {bus : Bus} {s s' : Stepping}

theorem lw_answers {mem : Memory} {address : Word} (answers : Answers bus address) :
    lw bus mem address = some (mem (line address)) := if_pos answers

theorem answers_of_lw {mem : Memory} {address value : Word} (loaded : lw bus mem address = some value) :
    Answers bus address := by
  by_contra silent
  have fault : lw bus mem address = none := if_neg silent
  rw [fault] at loaded
  cases loaded

theorem answers_of_plant {early : Bool} {slot : Fin 2} {address : Word}
    (planted : s.plant bus early slot address = .ok s') : Answers bus address := by
  unfold Stepping.plant at planted
  cases loaded : lw bus s.mem address with
  | none =>
      rw [loaded] at planted
      cases planted
  | some value => exact answers_of_lw loaded

/-- The breakpoint that is planted comes to those there are. -/
theorem plant_answers (early : Bool) {slot : Fin 2} {address : Word} (answers : Answers bus address)
    (idle : (s.stepbp slot).active = false) (trapped : s.Trapped) : ∃ s', s.plant bus early slot address = .ok s' ∧
      s'.planted = insert address s.planted ∧ s'.Trapped ∧ ∀ other, other ≠ slot → s'.stepbp other = s.stepbp other := by
  have planted : Stepping.planted { s.setBp slot ⟨address, s.mem (line address), true⟩ with
      mem := sw s.mem swBreakInst address } = insert address s.planted := by
    ext place
    constructor
    · rintro ⟨other, active, same⟩
      by_cases here : other = slot
      · subst here
        exact .inl (by simpa [Stepping.setBp] using same.symm)
      · simp only [Stepping.setBp, Function.update_of_ne here] at active same
        exact .inr ⟨other, active, same⟩
    · rintro (rfl | ⟨other, active, same⟩)
      · exact ⟨slot, by simp [Stepping.setBp], by simp [Stepping.setBp]⟩
      · have differ : other ≠ slot := by
          rintro rfl
          rw [idle] at active
          cases active
        exact ⟨other, by simpa [Stepping.setBp, differ] using active, by simpa [Stepping.setBp, differ] using same⟩
  refine ⟨_, by rw [Stepping.plant, lw_answers answers], planted, ?_, ?_⟩
  · intro place inside
    rw [planted] at inside
    by_cases here : line place = line address
    · show sw s.mem swBreakInst address (line place) = swBreakInst
      rw [here]
      exact Function.update_self ..
    · rcases inside with rfl | inside
      · exact absurd rfl here
      · exact (Function.update_of_ne here ..).trans (trapped place inside)
  · intro other differ
    exact Function.update_of_ne differ ..

theorem idle_planted (idle : ∀ slot, (s.stepbp slot).active = false) : s.planted = ∅ := by
  ext place
  refine iff_of_false ?_ (Set.notMem_empty place)
  rintro ⟨slot, active, -⟩
  rw [idle] at active
  cases active

theorem idle_trapped (idle : ∀ slot, (s.stepbp slot).active = false) : s.Trapped := by
  intro place inside
  rw [idle_planted idle] at inside
  cases inside

/-! ## A step -/

/-- A step plants exactly these. -/
def Plants (bus : Bus) (syscalls : Bool) (regs : StepRegs) (s : Stepping) (places : Set Word) : Prop :=
  ∃ s', stepGeneric bus syscalls false regs s = .ok s' ∧ s'.planted = places ∧ s'.Trapped

theorem Plants.unique {places places' : Set Word} (plants : Plants bus syscalls regs s places)
    (plants' : Plants bus syscalls regs s places') : places = places' := by
  obtain ⟨s', done, planted, -⟩ := plants
  obtain ⟨s'', done', planted', -⟩ := plants'
  rw [done] at done'
  cases done'
  rw [← planted, planted']

theorem stepGeneric_single (fetched : lw bus s.mem regs.epc = some op)
    (single : (stepTarget syscalls regs op).cond = false) :
    ∃ early, stepGeneric bus syscalls false regs s = s.plant bus early 0 (stepTarget syscalls regs op).targetpc := by
  rw [stepGeneric, fetched]
  simp only [Bool.and_false, single, Bool.false_and, Bool.false_eq_true, if_false]
  by_cases branch : (stepTarget syscalls regs op).branch = true
  · refine ⟨false, ?_⟩
    rw [if_pos branch]
    cases s.plant bus false 0 (stepTarget syscalls regs op).targetpc <;> rfl
  · exact ⟨true, if_neg branch⟩

theorem plants_single (fetched : lw bus s.mem regs.epc = some op) (idle : ∀ slot, (s.stepbp slot).active = false)
    (single : (stepTarget syscalls regs op).cond = false) {places : Set Word} :
    Plants bus syscalls regs s places ↔
      Answers bus (stepTarget syscalls regs op).targetpc ∧ places = {(stepTarget syscalls regs op).targetpc} := by
  obtain ⟨early, step⟩ := stepGeneric_single fetched single
  have plants (answers : Answers bus (stepTarget syscalls regs op).targetpc) :
      Plants bus syscalls regs s {(stepTarget syscalls regs op).targetpc} := by
    obtain ⟨s', planted, places, trapped, -⟩ := plant_answers early answers (idle 0) (idle_trapped idle)
    refine ⟨s', step.trans planted, ?_, trapped⟩
    rw [places, idle_planted idle, insert_empty_eq]
  constructor
  · intro given
    have ⟨s', done, _⟩ := given
    have answers := answers_of_plant (step.symm.trans done)
    exact ⟨answers, given.unique (plants answers)⟩
  · rintro ⟨answers, rfl⟩
    exact plants answers

theorem stepGeneric_relative (fetched : lw bus s.mem regs.epc = some op)
    (relative : stepTarget syscalls regs op = .relative regs.epc op) :
    stepGeneric bus syscalls false regs s = s.plant bus false 0 (Target.relative regs.epc op).targetpc >>= fun s =>
      if (Target.relative regs.epc op).targetpc = regs.epc + 8 then return s else s.plant bus false 1 (regs.epc + 8) := by
  rw [stepGeneric, fetched]
  simp only [relative, Target.relative, Bool.and_false, Bool.false_eq_true, if_false, if_true, Bool.true_and]
  simp only [decide_eq_true_eq, ne_eq, ite_not]
  rfl

theorem plants_relative (fetched : lw bus s.mem regs.epc = some op) (idle : ∀ slot, (s.stepbp slot).active = false)
    (relative : stepTarget syscalls regs op = .relative regs.epc op) {places : Set Word} :
    Plants bus syscalls regs s places ↔
      Answers bus (Target.relative regs.epc op).targetpc ∧ Answers bus (regs.epc + 8) ∧
        places = {(Target.relative regs.epc op).targetpc, regs.epc + 8} := by
  have step := stepGeneric_relative fetched relative
  generalize (Target.relative regs.epc op).targetpc = target at step ⊢
  have plants (first : Answers bus target) (second : Answers bus (regs.epc + 8)) :
      Plants bus syscalls regs s {target, regs.epc + 8} := by
    obtain ⟨s₁, planted₁, places₁, trapped₁, kept⟩ := plant_answers false first (idle 0) (idle_trapped idle)
    rw [idle_planted idle, insert_empty_eq] at places₁
    by_cases same : target = regs.epc + 8
    · refine ⟨s₁, ?_, ?_, trapped₁⟩
      · rw [step, planted₁]
        exact if_pos same
      · rw [places₁, same, Set.pair_eq_singleton]
    · have still : (s₁.stepbp 1).active = false := by
        rw [kept 1 (by decide)]
        exact idle 1
      obtain ⟨s₂, planted₂, places₂, trapped₂, -⟩ := plant_answers false second still trapped₁
      refine ⟨s₂, ?_, ?_, trapped₂⟩
      · rw [step, planted₁]
        exact (if_neg same).trans planted₂
      · rw [places₂, places₁, Set.pair_comm]
  constructor
  · intro given
    have ⟨s', done, _⟩ := given
    rw [step] at done
    have answers : Answers bus target ∧ Answers bus (regs.epc + 8) := by
      cases planted : s.plant bus false 0 target with
      | error faulted =>
          rw [planted] at done
          cases done
      | ok s₁ =>
          have first := answers_of_plant planted
          refine ⟨first, ?_⟩
          by_cases same : target = regs.epc + 8
          · exact same ▸ first
          · rw [planted] at done
            exact answers_of_plant ((if_neg same).symm.trans done)
    exact ⟨answers.1, answers.2, given.unique (plants answers.1 answers.2)⟩
  · rintro ⟨first, second, rfl⟩
    exact plants first second

end

end Psplink.Debug
