import Psplink.Debug.Disasm

/-!
# Addresses among the operands

Which of the conversions of a format print an address, and which address that is.
-/

namespace Psplink.Debug
open Psplink.Lib

section
variable (o : DisasmOpts) (op pc : Word) (realregs : Option RealRegs)

def realAddr (reg : Fin 32) (ofs : Word) : Option Word :=
  if o.printreal then realregs.map fun realregs => realregs reg + ofs else none

def conversionAddr (conversion : Char) : Option Word :=
  match conversion with
  | 'o' | 'V' => realAddr o realregs (rs op) (imm op)
  | 'Y' => realAddr o realregs (rs op) (imm op &&& ~~~3)
  | 'J' => realAddr o realregs (rs op) 0
  | 'O' => some (pc + (imm op + 1) * 4)
  | 'j' => some (jump op pc)
  | _ => none

/-- A character follows that is the type of a register. -/
def typed (conversion : Char) : Bool := ['x', 'y', 'z', 'X'].contains conversion

/-- The conversions of a format that have no type. -/
def conversions : List Char → List Char
  | '%' :: conversion :: fmt =>
      match typed conversion, fmt with
      | true, _ :: fmt => conversions fmt
      | true, [] => []
      | false, fmt => conversion :: conversions fmt
  | _ :: fmt => conversions fmt
  | [] => []

end

/-- The conversions that may be of an address. -/
def addressConversions : List Char := ['o', 'V', 'Y', 'J', 'O', 'j']

variable {o : DisasmOpts} {op pc : Word} {realregs : Option RealRegs}

/-! ## Formats -/

theorem typed_of_vfpuArg {vmmul : Bool} {conversion : Char} {reg : Word}
    (arg : vfpuArg op vmmul conversion = some reg) : typed conversion = true := by
  unfold vfpuArg at arg
  split at arg
  case h_5 => cases arg
  all_goals rfl

theorem not_typed_of_vfpuArg {vmmul : Bool} {conversion : Char} (arg : vfpuArg op vmmul conversion = none) :
    typed conversion = false := by
  unfold vfpuArg at arg
  split at arg
  case h_5 =>
    rename_i x y z X
    simp only [typed, List.contains_eq_mem, List.mem_cons, List.not_mem_nil, or_false, decide_eq_false_iff_not, not_or]
    exact ⟨x, y, z, X⟩
  all_goals cases arg

theorem conversions_typed {conversion type : Char} {fmt : List Char} (h : typed conversion = true) :
    conversions ('%' :: conversion :: type :: fmt) = conversions fmt := by
  simp [conversions, h]

theorem conversions_untyped {conversion : Char} {fmt : List Char} (h : typed conversion = false) :
    conversions ('%' :: conversion :: fmt) = conversion :: conversions fmt := by
  simp [conversions, h]

theorem conversions_char {c : Char} {fmt : List Char} (plain : ∀ conversion rest, c = '%' → fmt ≠ conversion :: rest) :
    conversions (c :: fmt) = conversions fmt := by
  rw [conversions]
  exact plain

theorem vfpuArg_of_not_typed {vmmul : Bool} {conversion : Char} (untyped : typed conversion = false) :
    vfpuArg op vmmul conversion = none := by
  cases arg : vfpuArg op vmmul conversion with
  | none => rfl
  | some reg => rw [typed_of_vfpuArg arg] at untyped; cases untyped

/-! ## Conversions -/

theorem conversionAddr_none {conversion : Char} (other : conversion ∉ addressConversions) :
    conversionAddr o op pc realregs conversion = none := by
  unfold conversionAddr
  split
  case h_7 => rfl
  all_goals exact absurd (by decide) other

theorem printOfs_plain {ofs : Word} {reg : Fin 32} (plain : realAddr o realregs reg ofs = none) :
    printOfs o ofs reg realregs = [.text (printImm o ofs ++ ['(']), .cpureg reg, .text [')']] := by
  unfold printOfs
  split
  · rename_i real
    rw [realAddr, real] at plain
    cases plain
  · rfl

theorem printJumpr_plain {reg : Fin 32} (plain : realAddr o realregs reg 0 = none) :
    printJumpr o reg realregs = [.cpureg reg] := by
  unfold printJumpr
  split
  · rename_i real
    rw [realAddr, real] at plain
    cases plain
  · rfl

theorem decodeArg_of_addr {conversion : Char} {addr : Word} (real : conversionAddr o op pc realregs conversion = some addr) :
    decodeArg o op pc realregs conversion = [.jump addr] := by
  have ofs {reg : Fin 32} {ofs : Word} (real : realAddr o realregs reg ofs = some addr) :
      printOfs o ofs reg realregs = [.jump addr] := by
    unfold realAddr at real
    unfold printOfs
    cases printreal : o.printreal <;> cases realregs <;> rw [printreal] at real <;> cases real
    rfl
  have jumpr {reg : Fin 32} (real : realAddr o realregs reg 0 = some addr) : printJumpr o reg realregs = [.jump addr] := by
    unfold realAddr at real
    unfold printJumpr
    cases printreal : o.printreal <;> cases realregs <;> rw [printreal] at real <;> cases real
    exact congrArg (fun addr => [Printed.jump addr]) (BitVec.add_zero _).symm
  unfold conversionAddr at real
  split at real
  · exact ofs real
  · exact ofs real
  · exact ofs real
  · exact jumpr real
  · cases real
    rfl
  · cases real
    rfl
  · cases real

/-! ## The addresses that are printed -/

def Printed.addr : Printed → Option Word
  | .jump addr => some addr
  | _ => none

theorem addrs_decodeArg (conversion : Char) :
    (decodeArg o op pc realregs conversion).filterMap Printed.addr =
      (conversionAddr o op pc realregs conversion).toList := by
  cases real : conversionAddr o op pc realregs conversion with
  | some addr =>
      rw [decodeArg_of_addr real]
      rfl
  | none =>
      unfold decodeArg
      split
      case h_6 => rw [printOfs_plain real]; rfl
      case h_7 => cases real
      case h_8 => rw [printOfs_plain real]; rfl
      case h_9 => cases real
      case h_10 => rw [printJumpr_plain real]; rfl
      case h_24 => rw [printOfs_plain real]; rfl
      all_goals rfl

/-- The addresses are printed for the conversions that are of one, in their order. -/
theorem addrs_decodeArgs (fmt : List Char) (vmmul : Bool) :
    (decodeArgs o op pc realregs fmt vmmul).filterMap Printed.addr =
      (conversions fmt).filterMap (conversionAddr o op pc realregs) := by
  fun_induction decodeArgs o op pc realregs fmt vmmul with
  | case1 => rfl
  | case2 conversion vmmul reg type fmt arg ih =>
      rw [conversions_typed (typed_of_vfpuArg arg), ← ih]
      rfl
  | case3 conversion vmmul reg arg =>
      simp [conversions, typed_of_vfpuArg arg]
  | case4 vmmul fmt arg ih =>
      rw [conversions_untyped (not_typed_of_vfpuArg arg), ih]
      rfl
  | case5 conversion vmmul fmt arg special ih =>
      rw [conversions_untyped (not_typed_of_vfpuArg arg), List.filterMap_append, addrs_decodeArg, ih, List.filterMap_cons]
      cases conversionAddr o op pc realregs conversion <;> rfl
  | case6 => rfl
  | case7 c fmt vmmul others _ ih =>
      rw [conversions_char others, ← ih]
      rfl

/-! ## The tables -/

theorem findInstruction_matches {ix : Instruction} (found : findInstruction o op = some ix) :
    ix ∈ macroInst ++ inst ∧ ix.pattern.Matches op := by
  unfold findInstruction at found
  split at found
  · rename_i first
    split at first
    · cases found
      have entry := lastMatch_eq_some first
      exact ⟨List.mem_append_left _ entry.1, entry.2⟩
    · cases first
  · have entry := lastMatch_eq_some found
    exact ⟨List.mem_append_right _ entry.1, entry.2⟩

end Psplink.Debug
