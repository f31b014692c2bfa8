import Psplink.Debug.StepRows
import Psplink.Debug.Operands

/-!
# Stepping and disassembly

Where a step plants its breakpoints, against where the disassembler shows that an instruction goes.
-/

namespace Psplink.Debug
open Psplink.Lib

/-! ## Branches and jumps of the tables -/

inductive Control
  | branch
  | jump
  deriving DecidableEq

/-- A branch has a condition, a jump has none. -/
def Instruction.control (ix : Instruction) : Option Control :=
  match ix.name with
  | ['b','e','q'] | ['b','e','q','l'] | ['b','n','e'] | ['b','n','e','l'] | ['b','n','e','z'] | ['b','n','e','z','l']
  | ['b','g','e','z'] | ['b','g','e','z','l'] | ['b','g','e','z','a','l'] | ['b','g','t','z'] | ['b','g','t','z','l']
  | ['b','l','e','z'] | ['b','l','e','z','l'] | ['b','l','t','z'] | ['b','l','t','z','l'] | ['b','l','t','z','a','l']
  | ['b','l','t','z','a','l','l'] | ['b','c','1','f'] | ['b','c','1','f','l'] | ['b','c','1','t'] | ['b','c','1','t','l']
  | ['b','v','f'] | ['b','v','f','l'] | ['b','v','t'] | ['b','v','t','l'] => some .branch
  | ['b'] | ['b','a','l'] | ['j'] | ['j','a','l'] | ['j','r'] | ['j','a','l','r'] => some .jump
  | _ => none

/-- The branch or jump that a word is shown as. -/
@[irreducible] def controlled (o : DisasmOpts) (op : Word) : Option Instruction :=
  (findInstruction o op).filter fun ix => ix.control.isSome

/-- The addresses among the operands, with the registers of the thread. -/
def shownAddrs (o : DisasmOpts) (regs : StepRegs) (op : Word) (ix : Instruction) : List Word :=
  (argsOf o op regs.epc (some regs.r) ix).filterMap Printed.addr

/-- Where the thread is after the instruction and its delay slot. -/
def Instruction.next (ix : Instruction) (pc target : Word) : Set Word :=
  match ix.control with
  | some .branch => {target, pc + 8}
  | _ => {target}

/-- A step plants a breakpoint at the address that is printed and, for a branch, after the delay slot. -/
def Shown (bus : Bus) (syscalls : Bool) (o : DisasmOpts) (regs : StepRegs) (op : Word) (s : Stepping)
    (ix : Instruction) : Prop :=
  ∃ target places, shownAddrs o regs op ix = [target] ∧ Plants bus syscalls regs s places ∧
    ix.next regs.epc target ⊆ places ∧ places ⊆ {target, regs.epc + 8}

/-- A step plants its breakpoints where the disassembler shows that the thread goes. -/
def Follows (bus : Bus) (syscalls : Bool) (o : DisasmOpts) (regs : StepRegs) (op : Word) (s : Stepping) : Prop :=
  match controlled o op with
  | some ix => Shown bus syscalls o regs op s ix
  | none => Plants bus syscalls regs s {regs.epc + 4}

/-! ## Where the tables and the switch differ -/

def bgezal : List Char := ['b','g','e','z','a','l']

def vfpuBranch : Pattern 32 := ⟨0xFFE00000, 0x49000000⟩

def regionJump : Pattern 32 := ⟨0xF8000000, 0x08000000⟩

/-- `bgezall`, the branches of coprocessor 0, and `blez`, `bgtz`, `blezl`, `bgtzl` with any `rt`. -/
def strayBranches : List (Pattern 32) :=
  [⟨0xFC1F0000, 0x04130000⟩, ⟨0xFFFF0000, 0x41000000⟩, ⟨0xFFFF0000, 0x41010000⟩, ⟨0xFFFF0000, 0x41020000⟩,
   ⟨0xFFFF0000, 0x41030000⟩, ⟨0xFC000000, 0x18000000⟩, ⟨0xFC000000, 0x1C000000⟩, ⟨0xFC000000, 0x58000000⟩,
   ⟨0xFC000000, 0x5C000000⟩]

/-- `jr` and `jalr` with anything in the other fields. -/
def strayJumps : List (Pattern 32) := [⟨0xFC00003F, 0x00000008⟩, ⟨0xFC00003F, 0x00000009⟩]

def sameRegion (pc : Word) : Prop := pc &&& 0xF0000000 = (pc + 4) &&& 0xF0000000

instance (pc : Word) : Decidable (sameRegion pc) :=
  inferInstanceAs (Decidable (pc &&& 0xF0000000 = (pc + 4) &&& 0xF0000000))

/-- The tables and the switch agree about the word, and the words at the breakpoints can be read. -/
def Agrees (bus : Bus) (o : DisasmOpts) (regs : StepRegs) (op : Word) : Prop :=
  match controlled o op with
  | some ix => ix.name ≠ bgezal ∧ (vfpuBranch.Matches op → vcc op = 0) ∧
      (regionJump.Matches op → sameRegion regs.epc) ∧ (∀ address ∈ shownAddrs o regs op ix, Answers bus address) ∧
      ('O' ∈ conversions ix.fmt → Answers bus (regs.epc + 8))
  | none => (∀ p ∈ strayBranches, ¬ p.Matches op) ∧
      (∀ p ∈ strayJumps, p.Matches op → regs.r (rs op) = regs.epc + 4) ∧ Answers bus (regs.epc + 4)

/-! ## The patterns -/

theorem control_disjoint : ∀ ix ∈ inst.filter (fun ix => ix.control.isSome), ∀ other ∈ macroInst ++ inst,
    ix.pattern.conflicts other.pattern = true ∨ other.control.isSome = true := by
  simp only [Pattern.conflicts_eq_beq, ← Bool.or_eq_true, ← List.all_eq_true]
  decide +kernel

/-- The address of a branch or jump of this kind, by its conversion. -/
def StepKind.conversion : StepKind → Char
  | .relative => 'O'
  | .jump _ => 'j'
  | .register _ => 'J'

/-- Every row is of words that the tables have for a branch or jump, or is stray. -/
theorem row_cases : ∀ row ∈ stepRows, (∃ ix ∈ inst.filter (fun ix => ix.control.isSome), row.pattern.refines ix.pattern = true) ∨
    row.kind = .relative ∧ row.pattern ∈ strayBranches ∨
    (∃ link, row.kind = .register link) ∧ row.pattern ∈ strayJumps ∧
      ∀ p ∈ strayBranches, row.pattern.conflicts p = true := by
  decide +kernel

theorem stray_rows : ∀ p ∈ strayBranches ++ strayJumps, ∃ row ∈ stepRows, row.pattern = p := by
  decide +kernel

/-- The condition code of a branch of the VFPU. -/
def vccZero : Pattern 32 := ⟨0x001C0000, 0⟩

def shownConversions (ix : Instruction) : List Char := (conversions ix.fmt).filter (addressConversions.contains ·)

/-- The words of the instruction are words of the row; of the VFPU those without a condition code. -/
def Instruction.Covered (ix : Instruction) (row : StepRow) : Prop :=
  ix.pattern.conflicts vfpuBranch = true ∧ ix.pattern.refines row.pattern = true ∨
    ix.control = some .branch ∧ row.kind = .relative ∧ ix.pattern.refines vfpuBranch = true ∧
      (ix.pattern.both vccZero).refines row.pattern = true

/-- An instruction that shows the address of its row. -/
def Instruction.Listed (ix : Instruction) (row : StepRow) : Prop :=
  shownConversions ix = [row.kind.conversion] ∧ (row.kind = .relative ∨ ix.control = some .jump) ∧ ix.Covered row ∧
    (if row.kind.conversion = 'j' then ix.pattern.refines regionJump else ix.pattern.conflicts regionJump) = true

theorem control_rows : ∀ ix ∈ macroInst ++ inst, ix.control.isSome = true →
    ix.name = bgezal ∧ shownConversions ix = [] ∨ ix.name ≠ bgezal ∧ ∃ row ∈ stepRows, ix.Listed row := by
  unfold Instruction.Listed Instruction.Covered
  decide +kernel

theorem vfpu_rows : ∀ row ∈ stepRows, row.pattern.conflicts vfpuBranch = true ∨ row.pattern.refines vccZero = true := by
  decide +kernel

/-! ## Decoding -/

variable {o : DisasmOpts} {op : Word} {regs : StepRegs}

theorem findInstruction_isSome {ix : Instruction} (member : ix ∈ inst) (matched : ix.pattern.Matches op) :
    ∃ found, findInstruction o op = some found := by
  unfold findInstruction
  split
  · exact ⟨_, rfl⟩
  · exact lastMatch_isSome member matched

/-- A word that some branch or jump of the table is of is shown as a branch or jump. -/
theorem controlled_of_matches {ix : Instruction} (member : ix ∈ inst.filter fun ix => ix.control.isSome)
    (matched : ix.pattern.Matches op) : controlled o op ≠ none := by
  obtain ⟨found, search⟩ := @findInstruction_isSome o op ix (List.mem_filter.mp member).1 matched
  obtain ⟨inTables, also⟩ := findInstruction_matches search
  rcases control_disjoint ix member found inTables with conflict | control
  · rw [matched.not_conflicts also] at conflict
    cases conflict
  · rw [controlled, search, Option.filter_some, if_pos control]
    exact Option.some_ne_none found

theorem controlled_eq_some {ix : Instruction} (found : controlled o op = some ix) :
    ix ∈ macroInst ++ inst ∧ ix.pattern.Matches op ∧ ix.control.isSome = true := by
  unfold controlled at found
  obtain ⟨search, control⟩ := Option.filter_eq_some_iff.mp found
  exact ⟨(findInstruction_matches search).1, (findInstruction_matches search).2, control⟩

theorem shownAddrs_eq (ix : Instruction) : shownAddrs o regs op ix =
    (shownConversions ix).filterMap (conversionAddr o op regs.epc (some regs.r)) := by
  rw [shownAddrs, argsOf, addrs_decodeArgs, shownConversions, List.filterMap_filter]
  congr 1
  funext conversion
  by_cases address : addressConversions.contains conversion = true
  · rw [if_pos address]
  · rw [if_neg address]
    exact conversionAddr_none fun member => address (List.contains_iff_mem.mpr member)

/-! ## Targets -/

theorem relative_target (pc op : Word) : pc + (imm op + 1) * 4 = (Target.relative pc op).targetpc := by
  rw [Target.relative, imm]
  generalize (op.setWidth 16).signExtend 32 = ofs
  bv_omega

theorem jump_target (pc op : Word) (link : Bool) :
    jump op pc = (Target.jump pc op link).targetpc ↔ sameRegion pc := by
  rw [jump, Target.jump, BitVec.or_comm _ ((pc + 4) &&& _), sameRegion]
  have region (top : Word) : ((top &&& (0xF0000000 : Word)) ||| ((op &&& 0x3FFFFFF) <<< 2)) &&& 0xF0000000 = top &&& 0xF0000000 := by
    have low : (op &&& (0x3FFFFFF : Word)) <<< 2 &&& 0xF0000000 = 0#32 := by
      rw [BitVec.shiftLeft_and_distrib, BitVec.and_assoc]
      exact BitVec.and_zero
    rw [BitVec.and_or_distrib_right, low, BitVec.or_zero, BitVec.and_assoc, BitVec.and_self]
  constructor
  · intro same
    rw [← region pc, same, region]
  · intro same
    rw [same]

theorem register_target (link : Bool) : regs.r (rs op) = (Target.register regs op link).targetpc := rfl

theorem conversionAddr_real (printreal : o.printreal = true) :
    conversionAddr o op regs.epc (some regs.r) 'J' = some (regs.r (rs op)) := by
  simp [conversionAddr, realAddr, printreal]

variable {bus : Bus} {syscalls : Bool} {s : Stepping}

/-! ## Words that are shown as no branch or jump -/

theorem next_ne (pc : Word) : pc + 8 ≠ pc + 4 := by
  intro same
  bv_omega

theorem plants_straight (fetched : lw bus s.mem regs.epc = some op) (idle : ∀ slot, (s.stepbp slot).active = false)
    (plain : ¬ syscallPattern.Matches op)
    (straight : ∀ ix ∈ inst.filter (fun ix => ix.control.isSome), ¬ ix.pattern.Matches op) :
    Plants bus syscalls regs s {regs.epc + 4} ↔ (∀ p ∈ strayBranches, ¬ p.Matches op) ∧
      (∀ p ∈ strayJumps, p.Matches op → regs.r (rs op) = regs.epc + 4) ∧ Answers bus (regs.epc + 4) := by
  by_cases matched : ∃ row ∈ stepRows, row.pattern.Matches op
  · obtain ⟨row, member, here⟩ := matched
    have target := @stepTarget_of_row syscalls regs op row member here
    rcases row_cases row member with ⟨ix, inTable, refines⟩ | ⟨kind, stray⟩ | ⟨⟨link, kind⟩, stray, apart⟩
    · exact absurd (here.of_refines refines) (straight ix inTable)
    · -- two breakpoints, and one of them is not after the word
      rw [kind] at target
      rw [plants_relative fetched idle target]
      refine iff_of_false ?_ fun agrees => agrees.1 _ stray here
      rintro ⟨-, -, same⟩
      have second : regs.epc + 8 ∈ ({regs.epc + 4} : Set Word) := same ▸ .inr rfl
      exact next_ne regs.epc second
    · rw [kind] at target
      have single : (stepTarget syscalls regs op).cond = false := by
        rw [target]
        rfl
      have pc : (stepTarget syscalls regs op).targetpc = regs.r (rs op) := by
        rw [target]
        rfl
      rw [plants_single fetched idle single, pc, Set.singleton_eq_singleton_iff]
      constructor
      · rintro ⟨answers, same⟩
        refine ⟨fun p member also => ?_, fun _ _ _ => same.symm, same ▸ answers⟩
        have conflict := apart p member
        rw [here.not_conflicts also] at conflict
        cases conflict
      · rintro ⟨-, register, answers⟩
        have same := register _ stray here
        exact ⟨same ▸ answers, same.symm⟩
  · have unmatched : ∀ row ∈ stepRows, ¬ row.pattern.Matches op := fun row member here => matched ⟨row, member, here⟩
    have no_stray : ∀ p ∈ strayBranches ++ strayJumps, ¬ p.Matches op := by
      intro p stray
      obtain ⟨row, member, rfl⟩ := stray_rows p stray
      exact unmatched row member
    have target := @stepTarget_next syscalls regs op unmatched plain
    have single : (stepTarget syscalls regs op).cond = false := by
      rw [target]
      rfl
    rw [List.forall_mem_append] at no_stray
    rw [plants_single fetched idle single, target]
    exact ⟨fun plants => ⟨no_stray.1, fun p stray here => absurd here (no_stray.2 p stray), plants.1⟩,
      fun agrees => ⟨agrees.2.2, rfl⟩⟩

/-! ## Words that are shown as a branch or jump -/

theorem next_subset (ix : Instruction) (pc target : Word) : ix.next pc target ⊆ {target, pc + 8} := by
  unfold Instruction.next
  split
  · exact subset_rfl
  · exact Set.singleton_subset_iff.mpr (.inl rfl)

theorem mem_shownConversions {ix : Instruction} {conversion : Char} (address : conversion ∈ addressConversions) :
    conversion ∈ shownConversions ix ↔ conversion ∈ conversions ix.fmt := by
  rw [shownConversions, List.mem_filter]
  exact and_iff_left (List.contains_iff_mem.mpr address)

section
variable {ix : Instruction}

theorem shown_relative (fetched : lw bus s.mem regs.epc = some op) (idle : ∀ slot, (s.stepbp slot).active = false)
    (shown : shownConversions ix = ['O']) (target : stepTarget syscalls regs op = .relative regs.epc op) :
    Shown bus syscalls o regs op s ix ↔
      (∀ address ∈ shownAddrs o regs op ix, Answers bus address) ∧ ('O' ∈ conversions ix.fmt → Answers bus (regs.epc + 8)) := by
  have addrs : shownAddrs o regs op ix = [(Target.relative regs.epc op).targetpc] := by
    rw [shownAddrs_eq, shown]
    exact congrArg (fun address => [address]) (relative_target regs.epc op)
  have relative : 'O' ∈ conversions ix.fmt := by
    rw [← mem_shownConversions (by decide), shown]
    exact List.mem_singleton_self _
  rw [Shown, addrs, List.forall_mem_singleton, imp_iff_right relative]
  constructor
  · rintro ⟨_, places, -, plants, -⟩
    have answers := (plants_relative fetched idle target).mp plants
    exact ⟨answers.1, answers.2.1⟩
  · rintro ⟨first, second⟩
    exact ⟨_, _, rfl, (plants_relative fetched idle target).mpr ⟨first, second, rfl⟩, next_subset .., subset_rfl⟩

theorem shown_single (fetched : lw bus s.mem regs.epc = some op) (idle : ∀ slot, (s.stepbp slot).active = false)
    {address : Word} (addrs : shownAddrs o regs op ix = [address]) (control : ix.control = some .jump)
    (single : (stepTarget syscalls regs op).cond = false) :
    Shown bus syscalls o regs op s ix ↔
      address = (stepTarget syscalls regs op).targetpc ∧ ∀ address ∈ shownAddrs o regs op ix, Answers bus address := by
  have next : ix.next regs.epc address = {address} := by
    rw [Instruction.next, control]
  rw [Shown, addrs, List.forall_mem_singleton]
  constructor
  · rintro ⟨target, places, same, plants, goes, -⟩
    cases same
    obtain ⟨answers, rfl⟩ := (plants_single fetched idle single).mp plants
    rw [next, Set.singleton_subset_singleton] at goes
    exact ⟨goes, goes ▸ answers⟩
  · rintro ⟨same, answers⟩
    refine ⟨address, {address}, rfl, (plants_single fetched idle single).mpr ⟨same ▸ answers, by rw [same]⟩, ?_, ?_⟩
    · rw [next]
    · exact Set.singleton_subset_iff.mpr (.inl rfl)

theorem vccZero_iff : vccZero.Matches op ↔ vcc op = 0 :=
  ⟨fun zero => zero.field 18 7 rfl, fun zero => Pattern.matches_field zero⟩

/-- A branch of the VFPU with a condition code is not found by the switch. -/
theorem not_shown_vfpu (fetched : lw bus s.mem regs.epc = some op) (idle : ∀ slot, (s.stepbp slot).active = false)
    (plain : ¬ syscallPattern.Matches op) (vfpu : vfpuBranch.Matches op) (code : vcc op ≠ 0)
    (control : ix.control = some .branch) : ¬ Shown bus syscalls o regs op s ix := by
  have unmatched : ∀ row ∈ stepRows, ¬ row.pattern.Matches op := by
    intro row member here
    rcases vfpu_rows row member with conflict | zero
    · rw [here.not_conflicts vfpu] at conflict
      cases conflict
    · exact code (vccZero_iff.mp (here.of_refines zero))
  have target := @stepTarget_next syscalls regs op unmatched plain
  have single : (stepTarget syscalls regs op).cond = false := by
    rw [target]
    rfl
  rintro ⟨address, places, -, plants, goes, -⟩
  obtain ⟨-, rfl⟩ := (plants_single fetched idle single).mp plants
  rw [Instruction.next, control, target] at goes
  exact next_ne regs.epc (goes (.inr rfl))

theorem listed_shown (printreal : o.printreal = true) (fetched : lw bus s.mem regs.epc = some op)
    (idle : ∀ slot, (s.stepbp slot).active = false) (plain : ¬ syscallPattern.Matches op) (matched : ix.pattern.Matches op)
    {row : StepRow} (member : row ∈ stepRows) (listed : ix.Listed row) :
    Shown bus syscalls o regs op s ix ↔
      (vfpuBranch.Matches op → vcc op = 0) ∧ (regionJump.Matches op → sameRegion regs.epc) ∧
        (∀ address ∈ shownAddrs o regs op ix, Answers bus address) ∧
        ('O' ∈ conversions ix.fmt → Answers bus (regs.epc + 8)) := by
  obtain ⟨shown, unconditional, covered, region⟩ := listed
  have no_match {p : Pattern 32} (conflict : ix.pattern.conflicts p = true) : ¬ p.Matches op := by
    intro also
    rw [matched.not_conflicts also] at conflict
    cases conflict
  have alone (other : row.kind ≠ .relative) :
      (vfpuBranch.Matches op → vcc op = 0) ∧ row.pattern.Matches op ∧ ix.control = some .jump := by
    rcases covered with ⟨apart, refines⟩ | ⟨-, kind, -⟩
    · exact ⟨fun also => absurd also (no_match apart), matched.of_refines refines, unconditional.resolve_left other⟩
    · exact absurd kind other
  have no_relative {conversion : Char} (shown : shownConversions ix = [conversion]) (differ : 'O' ≠ conversion) :
      'O' ∈ conversions ix.fmt → Answers bus (regs.epc + 8) := by
    rw [← mem_shownConversions (by decide), shown, List.mem_singleton]
    exact fun same => absurd same differ
  cases kind : row.kind with
  | relative =>
      rw [kind] at shown region
      have no_region : regionJump.Matches op → sameRegion regs.epc := fun jumps => absurd jumps (no_match region)
      have at_row (here : row.pattern.Matches op) : stepTarget syscalls regs op = .relative regs.epc op := by
        rw [stepTarget_of_row member here, kind]
        rfl
      rw [and_iff_right no_region]
      rcases covered with ⟨apart, refines⟩ | ⟨branch, -, vfpu, refines⟩
      · rw [and_iff_right fun also => absurd also (no_match apart)]
        exact shown_relative fetched idle shown (at_row (matched.of_refines refines))
      · by_cases code : vcc op = 0
        · rw [and_iff_right fun _ => code]
          exact shown_relative fetched idle shown (at_row ((matched.both (vccZero_iff.mpr code)).of_refines refines))
        · exact iff_of_false (not_shown_vfpu fetched idle plain (matched.of_refines vfpu) code branch)
            fun agrees => code (agrees.1 (matched.of_refines vfpu))
  | jump link =>
      rw [kind] at shown region
      obtain ⟨apart, here, control⟩ := alone (by rw [kind]; exact StepKind.noConfusion)
      have target : stepTarget syscalls regs op = .jump regs.epc op link := by
        rw [stepTarget_of_row member here, kind]
        rfl
      have addrs : shownAddrs o regs op ix = [jump op regs.epc] := by
        rw [shownAddrs_eq, shown]
        rfl
      rw [shown_single fetched idle addrs control (by rw [target]; rfl), target, jump_target, and_iff_right apart,
        imp_iff_right (matched.of_refines region), and_iff_left (no_relative shown (show 'O' ≠ 'j' by decide))]
  | register link =>
      rw [kind] at shown region
      obtain ⟨apart, here, control⟩ := alone (by rw [kind]; exact StepKind.noConfusion)
      have target : stepTarget syscalls regs op = .register regs op link := by
        rw [stepTarget_of_row member here, kind]
        rfl
      have addrs : shownAddrs o regs op ix = [regs.r (rs op)] := by
        rw [shownAddrs_eq, shown]
        exact congrArg Option.toList (conversionAddr_real printreal)
      rw [shown_single fetched idle addrs control (by rw [target]; rfl), target, and_iff_right apart,
        and_iff_right (register_target link), and_iff_right fun also => absurd also (no_match region),
        and_iff_left (no_relative shown (show 'O' ≠ 'J' by decide))]

end

/-- Both copies of `step_generic` follow the disassembler exactly on the words that they agree about. -/
theorem step_follows_disassembly (bus : Bus) (syscalls : Bool) (o : DisasmOpts) (printreal : o.printreal = true)
    (regs : StepRegs) (s : Stepping) (idle : ∀ slot, (s.stepbp slot).active = false) (op : Word)
    (fetched : lw bus s.mem regs.epc = some op) (plain : ¬ syscallPattern.Matches op) :
    Follows bus syscalls o regs op s ↔ Agrees bus o regs op := by
  unfold Follows Agrees
  cases found : controlled o op with
  | none =>
      refine plants_straight fetched idle plain fun ix member matched => ?_
      exact controlled_of_matches member matched found
  | some ix =>
      obtain ⟨member, matched, control⟩ := controlled_eq_some found
      rcases control_rows ix member control with ⟨name, shown⟩ | ⟨named, row, inRows, listed⟩
      · refine iff_of_false ?_ fun agrees => agrees.1 name
        rintro ⟨target, places, addrs, -⟩
        rw [shownAddrs_eq, shown] at addrs
        cases addrs
      · refine (listed_shown printreal fetched idle plain matched inRows listed).trans ?_
        exact (and_iff_right named).symm

/-! ### A jump, and a branch of the VFPU with a condition code -/

def realOpts : DisasmOpts := ⟨false, false, false, false, true, false, none⟩

def stepRegs : StepRegs := ⟨0x08804000, fun _ => 0⟩

def stepping (op : Word) : Stepping := ⟨fun _ => op, fun _ => .zero⟩

theorem fetched_stepping (op : Word) : lw (fun _ => true) (stepping op).mem stepRegs.epc = some op :=
  lw_answers (by decide)

theorem agrees_jal : Agrees (fun _ => true) realOpts stepRegs 0x0E201000 := by
  have found : controlled realOpts 0x0E201000 = some ⟨['j','a','l'], 0x0C000000, 0xFC000000, ['%','j']⟩ := by
    decide +kernel
  have addrs : shownAddrs realOpts stepRegs 0x0E201000 ⟨['j','a','l'], 0x0C000000, 0xFC000000, ['%','j']⟩ = [0x08804000] := by
    decide +kernel
  unfold Agrees
  rw [found]
  refine ⟨by decide, by decide, by decide, ?_, by decide⟩
  rw [addrs, List.forall_mem_singleton]
  decide

theorem step_follows_disassembly_jal :
    Follows (fun _ => true) false realOpts stepRegs 0x0E201000 (stepping 0x0E201000) :=
  (step_follows_disassembly (fun _ => true) false realOpts rfl stepRegs (stepping 0x0E201000) (fun _ => rfl) 0x0E201000
    (fetched_stepping 0x0E201000) (by decide)).mpr agrees_jal

theorem bvf_runs_away : ¬ Follows (fun _ => true) false realOpts stepRegs 0x49040003 (stepping 0x49040003) := by
  have found : controlled realOpts 0x49040003 = some ⟨['b','v','f'], 0x49000000, 0xFFE30000, ['%','Z',',',' ','%','O']⟩ := by
    decide +kernel
  unfold Follows
  rw [found]
  exact not_shown_vfpu (fetched_stepping 0x49040003) (fun _ => rfl) (by decide) (by decide) (by decide) rfl

end Psplink.Debug
