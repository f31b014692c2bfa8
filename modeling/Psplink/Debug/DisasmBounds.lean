import Psplink.Debug.Operands

/-!
# The buffers of the disassembler

How long the texts are that `disasmInstruction` and `decode_args` write.
-/

namespace Psplink.Debug
open Psplink.Lib

/-! ## Addresses among the operands -/

section
variable (o : DisasmOpts) (op pc : Word) (realregs : Option RealRegs)

/-- The address that an instruction of this format has among its operands. -/
def operandAddr (fmt : List Char) : Option Word := (conversions fmt).findSome? (conversionAddr o op pc realregs)

/-- The characters of a conversion that is no address. -/
def conversionWidth (conversion : Char) : Nat :=
  match conversion with
  | 'd' | 't' | 's' => 3
  | 'T' => 6
  | 'k' => if (rt op).val < 16 then 3 else 4
  | 'Z' => if o.hexints then 6 else 1
  | _ => 0

/-- The characters of the operands besides the address. -/
def besides : List Char → Nat
  | '%' :: conversion :: fmt =>
      match typed conversion, fmt with
      | true, _ :: fmt => 4 + besides fmt
      | true, [] => 0
      | false, fmt => conversionWidth o op conversion + besides fmt
  | _ :: fmt => 1 + besides fmt
  | [] => 0

end

/-! ## Operands -/

variable {o : DisasmOpts} {op pc : Word} {realregs : Option RealRegs}

@[simp] theorem length_hexWord (word : Word) : (hexWord word).length = 10 := by
  rw [hexWord, List.length_append, length_zeroPadded_hexadecimal (by decide) word.isLt]
  rfl

theorem length_decimal_fin (n : Fin 32) : (decimal n.val).length ≤ 2 :=
  length_decimal (by decide) (Nat.lt_trans n.isLt (by decide))

theorem length_regName : ∀ reg : Fin 32, (regName.getD reg []).length = 2 := by decide

@[simp] theorem length_printCpureg (reg : Fin 32) : (printCpureg o reg).length = 3 := by
  unfold printCpureg
  split
  · rw [List.length_cons, length_regName]
  · rw [List.length_cons, length_zeroPadded, max_eq_left (length_decimal_fin reg)]

@[simp] theorem length_printFpureg (reg : Fin 32) : (printFpureg reg).length = 6 := by
  rw [printFpureg, List.length_append, length_zeroPadded, max_eq_left (length_decimal_fin reg)]
  rfl

theorem toInt_and (word : Word) {m : Word} (small : m.toNat < 2 ^ 31) : ∃ n ≤ m.toNat, (word &&& m).toInt = n := by
  refine ⟨(word &&& m).toNat, ?_, BitVec.toInt_eq_toNat_of_lt ?_⟩
  · rw [BitVec.toNat_and]
    exact Nat.and_le_right
  · have bound : (word &&& m).toNat ≤ m.toNat := by
      rw [BitVec.toNat_and]
      exact Nat.and_le_right
    omega

theorem length_number_and (word : Word) {m : Word} (small : m.toNat < 10) : (number (word &&& m)).length = 1 := by
  obtain ⟨n, bound, value⟩ := toInt_and word (Nat.lt_trans small (by decide) : m.toNat < 2 ^ 31)
  rw [number, value]
  change (Nat.toDigits 10 n).length = 1
  rw [Nat.toDigits_of_lt_base (Nat.lt_of_le_of_lt bound small)]
  rfl

theorem length_printVfpusingle (reg : Word) : (printVfpusingle reg).length = 4 := by
  simp [printVfpusingle, length_number_and]

theorem length_printVfpuReg (reg : Word) {offset : Word} (digit : (number offset).length = 1) (one two : Char) :
    (printVfpuReg reg offset one two).length = 4 := by
  unfold printVfpuReg
  split <;> simp [length_number_and, digit]

theorem length_printVfpuquad (reg : Word) : (printVfpuquad reg).length = 4 :=
  length_printVfpuReg reg (by decide) _ _

theorem length_printVfpureg_le (reg : Word) (type : Char) : (printVfpureg reg type).length ≤ 4 := by
  unfold printVfpureg printVfpupair printVfputriple printVfpumpair printVfpumtriple printVfpumatrix
  split
  · exact (length_printVfpusingle reg).le
  · exact (length_printVfpuquad reg).le
  all_goals first
    | exact Nat.zero_le _
    | (split <;> exact (length_printVfpuReg reg (by decide) _ _).le)
    | exact (length_printVfpuReg reg (by decide) _ _).le

theorem length_printHex_le {n : Nat} (small : n < 16 ^ 5) : (printHex n).length ≤ 7 := by
  rw [printHex, List.length_append]
  exact Nat.add_le_add_left (length_hexadecimal (by decide) small) 2

theorem toNat_and_lt (word : Word) {m : Word} {bound : Nat} (small : m.toNat < bound) : (word &&& m).toNat < bound := by
  rw [BitVec.toNat_and]
  exact Nat.lt_of_le_of_lt Nat.and_le_right small

theorem length_printImm_le {ofs : Word} (small : ofs.toInt.natAbs < 10 ^ 5) : (printImm o ofs).length ≤ 6 := by
  unfold printImm
  split
  · have bound : (ofs &&& 0xFFFF).toNat < 16 ^ 4 := toNat_and_lt ofs (by decide)
    rw [List.length_append, length_zeroPadded_hexadecimal (by decide) bound]
    exact Nat.le_refl _
  · exact length_decimal_le (by decide) small

theorem small_signExtend (half : BitVec 16) : (half.signExtend 32).toInt.natAbs < 10 ^ 5 := by
  have low : -2 ^ 15 ≤ half.toInt := BitVec.le_toInt half
  have high : half.toInt < 2 ^ 15 := BitVec.toInt_lt
  rw [BitVec.toInt_signExtend_of_le (by decide)]
  omega

theorem small_imm_and (op : Word) : (imm op &&& ~~~3).toInt.natAbs < 10 ^ 5 := by
  have word : imm op &&& ~~~3 = (op.setWidth 16 &&& ~~~3).signExtend 32 := by
    rw [BitVec.signExtend_and]
    rfl
  rw [word]
  exact small_signExtend _

theorem length_printCop0_le : ∀ reg : Fin 32, (printCop0 reg).length ≤ 8 := by decide

theorem length_printDebugreg_le : ∀ reg : Fin 32, (printDebugreg reg).length ≤ 6 := by decide

/-! ## Texts without an address -/

def printedLength (o : DisasmOpts) (printed : List Printed) : Nat := (printed.flatMap (Printed.chars o)).length

@[simp] theorem printedLength_nil : printedLength o [] = 0 := rfl

@[simp] theorem printedLength_cons (p : Printed) (printed : List Printed) :
    printedLength o (p :: printed) = (p.chars o).length + printedLength o printed := by
  rw [printedLength, List.flatMap_cons, List.length_append]
  rfl

theorem printedLength_append (front back : List Printed) :
    printedLength o (front ++ back) = printedLength o front + printedLength o back := by
  rw [printedLength, List.flatMap_append, List.length_append]
  rfl

theorem length_printOfs_le {ofs : Word} {reg : Fin 32} (plain : realAddr o realregs reg ofs = none)
    (small : ofs.toInt.natAbs < 10 ^ 5) : printedLength o (printOfs o ofs reg realregs) ≤ 12 := by
  have number := @length_printImm_le o ofs small
  rw [printOfs_plain plain]
  simp only [printedLength_cons, Printed.chars, List.length_append, length_printCpureg, List.length_singleton,
    printedLength_nil]
  omega

theorem small_vcc (op : Word) : (vcc op).toInt.natAbs < 10 ^ 5 := by
  obtain ⟨n, bound, value⟩ := toInt_and (op >>> 18) (m := 7) (by decide)
  rw [vcc, value]
  exact Nat.lt_of_le_of_lt bound (by decide)

theorem length_printInt_le {n : Nat} (small : n < 10 ^ 2) : (printInt n).length ≤ 2 := length_decimal (by decide) small

theorem length_printCop1_le (reg : Fin 32) : (printCop1 reg).length ≤ 8 := by
  rw [printCop1, List.length_append]
  exact (Nat.add_le_add_left (length_decimal_fin reg) _).trans (by decide)

theorem printedLength_text {chars : List Char} : printedLength o [.text chars] = chars.length := by
  rw [printedLength_cons, printedLength_nil, Nat.add_zero, Printed.chars]

theorem length_decodeArg_le {conversion : Char} (plain : conversionAddr o op pc realregs conversion = none) :
    printedLength o (decodeArg o op pc realregs conversion) ≤ 12 := by
  have word {chars : List Char} (bound : chars.length ≤ 8) : printedLength o [.text chars] ≤ 12 :=
    printedLength_text.le.trans (bound.trans (by decide))
  have reg (reg : Fin 32) : printedLength o [.cpureg reg] ≤ 12 := by
    simp [Printed.chars]
  have hex {n : Nat} (small : n < 16 ^ 5) : (printHex n).length ≤ 8 := (length_printHex_le small).trans (by decide)
  have imm {ofs : Word} (small : ofs.toInt.natAbs < 10 ^ 5) : (printImm o ofs).length ≤ 8 :=
    (length_printImm_le small).trans (by decide)
  have int (n : Fin 32) : (printInt n.val).length ≤ 2 := length_printInt_le (Nat.lt_trans n.isLt (by decide))
  unfold decodeArg
  split
  · exact reg _
  · exact reg _
  · exact reg _
  · exact word (imm (small_signExtend _))
  · exact word (hex (toNat_and_lt op (by decide)))
  · exact length_printOfs_le plain (small_signExtend _)
  · cases plain
  · exact length_printOfs_le plain (small_signExtend _)
  · cases plain
  · rw [printJumpr_plain plain]
    exact reg _
  · exact word ((int _).trans (by decide))
  · exact word (length_printCop0_le _)
  · exact word (length_printCop1_le _)
  · exact word (Nat.succ_le_succ ((int (rd op)).trans (by decide)))
  · exact word (hex (Nat.lt_trans (rt op).isLt (by decide)))
  · exact word ((length_printFpureg _).le.trans (by decide))
  · exact word ((length_printFpureg _).le.trans (by decide))
  · exact word ((length_printFpureg _).le.trans (by decide))
  · exact word ((length_printDebugreg_le _).trans (by decide))
  · exact word ((length_printInt_le (Nat.lt_of_le_of_lt (rd op).isLt (by decide))).trans (by decide))
  · exact word (imm (small_vcc op))
  · exact word (hex (toNat_and_lt (op >>> 6) (by decide)))
  · exact word (hex (toNat_and_lt (op >>> 6) (by decide)))
  · exact length_printOfs_le plain (small_imm_and op)
  · exact Nat.zero_le _

/-- The texts of operands without an address are short. -/
theorem length_decodeArgs_le {fmt : List Char} {vmmul : Bool}
    (plain : ∀ conversion ∈ conversions fmt, conversionAddr o op pc realregs conversion = none) :
    printedLength o (decodeArgs o op pc realregs fmt vmmul) ≤ 6 * fmt.length := by
  fun_induction decodeArgs o op pc realregs fmt vmmul with
  | case1 => exact Nat.zero_le _
  | case2 conversion vmmul reg type fmt arg ih =>
      rw [conversions_typed (typed_of_vfpuArg arg)] at plain
      have vfpu := length_printVfpureg_le reg type
      have rest := ih plain
      rw [printedLength_cons, Printed.chars]
      simp only [List.length_cons]
      omega
  | case3 => exact Nat.zero_le _
  | case4 vmmul fmt arg ih =>
      rw [conversions_untyped (not_typed_of_vfpuArg arg), List.forall_mem_cons] at plain
      have rest := ih plain.2
      simp only [List.length_cons]
      omega
  | case5 conversion vmmul fmt arg special ih =>
      rw [conversions_untyped (not_typed_of_vfpuArg arg), List.forall_mem_cons] at plain
      have first := length_decodeArg_le plain.1
      have rest := ih plain.2
      rw [printedLength_append]
      simp only [List.length_cons]
      omega
  | case6 => exact Nat.zero_le _
  | case7 c fmt vmmul others _ ih =>
      rw [conversions_char others] at plain
      have rest := ih plain
      rw [printedLength_cons, Printed.chars]
      simp only [List.length_cons, List.length_nil]
      omega

/-! ## Texts with an address -/

/-- What is before the address. -/
def fronts : List (List Char) :=
  [[],
   ['%', 's', ',', ' '],
   ['%', 't', ',', ' '],
   ['%', 's', ',', ' ', '%', 't', ',', ' '],
   ['%', 'Z', ',', ' '],
   ['%', 'k', ',', ' '],
   ['%', 'T', ',', ' '],
   ['%', 'X', 'q', ',', ' '],
   ['%', 'X', 's', ',', ' ']]

/-- The address, and what is after it. -/
def backs : List (List Char) :=
  [['%', 'O'], ['%', 'j'], ['%', 'J'], ['%', 'J', ',', ' ', '%', 'd'], ['%', 'o'], ['%', 'Y']]

theorem fmts_checked : ((macroInst ++ inst).all fun ix => ix.fmt.length ≤ 15 && (ix.name.length ≤ 10 &&
    ((conversions ix.fmt).all (fun conversion => !addressConversions.contains conversion) ||
      fronts.any fun front => backs.any fun back => ix.fmt == front ++ back))) = true := by
  decide +kernel

theorem fmts (ix : Instruction) (member : ix ∈ macroInst ++ inst) :
    ix.fmt.length ≤ 15 ∧ ix.name.length ≤ 10 ∧
      ((∀ conversion ∈ conversions ix.fmt, conversion ∉ addressConversions) ∨
        ∃ front ∈ fronts, ∃ back ∈ backs, ix.fmt = front ++ back) := by
  have checked := List.all_eq_true.mp fmts_checked ix member
  simpa only [Bool.and_eq_true, Bool.or_eq_true, decide_eq_true_eq, List.all_eq_true, List.any_eq_true, Bool.not_eq_true',
    List.contains_eq_mem, decide_eq_false_iff_not, beq_iff_eq] using checked

theorem length_hexadecimal_low {n : Nat} (small : n < 16 ^ 2) : (hexadecimal n).length = if n < 16 then 1 else 2 := by
  have le {k : Nat} (some : 0 < k) : (hexadecimal n).length ≤ k ↔ n < 16 ^ k := by
    rw [hexadecimal, List.length_map]
    exact Nat.length_toDigits_le_iff (by decide) some
  have two := (le (k := 2) (by decide)).mpr small
  have one := le (k := 1) (by decide)
  have digits : (hexadecimal n).length ≠ 0 := by
    rw [hexadecimal, List.length_map]
    exact Nat.ne_of_gt Nat.length_toDigits_pos
  split <;> omega

theorem length_printHex_fin (n : Fin 32) : (printHex n.val).length = if n.val < 16 then 3 else 4 := by
  rw [printHex, List.length_append, length_hexadecimal_low (Nat.lt_trans n.isLt (by decide))]
  split <;> rfl

theorem length_printImm_vcc (op : Word) : (printImm o (vcc op)).length = if o.hexints then 6 else 1 := by
  unfold printImm
  split
  · have bound : (vcc op &&& 0xFFFF).toNat < 16 ^ 4 := toNat_and_lt (vcc op) (by decide)
    rw [List.length_append, length_zeroPadded_hexadecimal (by decide) bound]
    rfl
  · exact length_number_and _ (by decide)

theorem front_width {front : List Char} (member : front ∈ fronts) (fmt : List Char) :
    printedLength o (decodeArgs o op pc realregs (front ++ fmt) false) =
        besides o op front + printedLength o (decodeArgs o op pc realregs fmt false) ∧
      besides o op (front ++ fmt) = besides o op front + besides o op fmt ∧
      operandAddr o op pc realregs (front ++ fmt) = operandAddr o op pc realregs fmt := by
  simp only [fronts, List.mem_cons, List.not_mem_nil, or_false] at member
  rcases member with rfl | rfl | rfl | rfl | rfl | rfl | rfl | rfl | rfl
  all_goals simp [decodeArgs, vfpuArg, decodeArg, Printed.chars, besides, typed, conversionWidth, operandAddr,
      conversions, conversionAddr, length_printImm_vcc, length_printHex_fin, printVfpureg, length_printVfpuquad, length_printVfpusingle,
      ← Nat.add_assoc]

theorem jump_width {conversion : Char} {addr : Word} (real : conversionAddr o op pc realregs conversion = some addr)
    (untyped : typed conversion = false) (plain : conversion ≠ '?') (fmt : List Char) :
    printedLength o (decodeArgs o op pc realregs ('%' :: conversion :: fmt) false) =
      (printJump o addr).length + printedLength o (decodeArgs o op pc realregs fmt false) := by
  have first : decodeArgs o op pc realregs ('%' :: conversion :: fmt) false =
      decodeArg o op pc realregs conversion ++ decodeArgs o op pc realregs fmt false := by
    rw [decodeArgs]
    · exact if_neg plain
    · exact vfpuArg_of_not_typed untyped
  rw [first, decodeArg_of_addr real, printedLength_append, printedLength_cons, printedLength_nil]
  rfl

theorem back_width {back : List Char} (member : back ∈ backs) {addr : Word}
    (operand : operandAddr o op pc realregs back = some addr) :
    printedLength o (decodeArgs o op pc realregs back false) = besides o op back + (printJump o addr).length := by
  have only {conversion : Char} (first : conversions back = [conversion]) :
      conversionAddr o op pc realregs conversion = some addr := by
    rw [operandAddr, first] at operand
    simpa using operand
  simp only [backs, List.mem_cons, List.not_mem_nil, or_false] at member
  rcases member with rfl | rfl | rfl | rfl | rfl | rfl
  · rw [jump_width (only rfl) rfl (by decide)]
    exact Nat.add_comm _ _
  · rw [jump_width (only rfl) rfl (by decide)]
    exact Nat.add_comm _ _
  · rw [jump_width (only rfl) rfl (by decide)]
    exact Nat.add_comm _ _
  · have real : conversionAddr o op pc realregs 'J' = some addr := by
      cases first : conversionAddr o op pc realregs 'J' with
      | none =>
          have second : conversionAddr o op pc realregs 'd' = none := rfl
          simp [operandAddr, conversions, typed, first, second] at operand
      | some =>
          simpa [operandAddr, conversions, typed, first] using operand
    have after : printedLength o (decodeArgs o op pc realregs [',', ' ', '%', 'd'] false) = 5 := by
      simp [decodeArgs, vfpuArg, decodeArg, Printed.chars]
    rw [jump_width real rfl (by decide), after]
    exact Nat.add_comm _ _
  · rw [jump_width (only rfl) rfl (by decide)]
    exact Nat.add_comm _ _
  · rw [jump_width (only rfl) rfl (by decide)]
    exact Nat.add_comm _ _

theorem length_args_addr {ix : Instruction} (member : ix ∈ macroInst ++ inst) {addr : Word}
    (operand : operandAddr o op pc realregs ix.fmt = some addr) :
    (argsText o op pc realregs ix).length = besides o op ix.fmt + (printJump o addr).length := by
  rcases (fmts ix member).2.2 with plain | ⟨front, inFronts, back, inBacks, fmt⟩
  · obtain ⟨conversion, inside, some⟩ := List.exists_of_findSome?_eq_some operand
    rw [conversionAddr_none (plain conversion inside)] at some
    cases some
  · obtain ⟨widths, sum, address⟩ := @front_width o op pc realregs front inFronts back
    rw [fmt, address] at operand
    have text : (argsText o op pc realregs ix).length = printedLength o (decodeArgs o op pc realregs ix.fmt false) := rfl
    rw [text, fmt, widths, sum, back_width inBacks operand, Nat.add_assoc]

theorem length_args_plain {ix : Instruction} (member : ix ∈ macroInst ++ inst)
    (none : operandAddr o op pc realregs ix.fmt = none) : (argsText o op pc realregs ix).length ≤ 90 := by
  have short := @length_decodeArgs_le o op pc realregs ix.fmt false (List.findSome?_eq_none_iff.mp none)
  exact short.trans (Nat.mul_le_mul_left 6 (fmts ix member).1)

theorem besides_le {ix : Instruction} (member : ix ∈ macroInst ++ inst) {addr : Word}
    (operand : operandAddr o op pc realregs ix.fmt = some addr) : besides o op ix.fmt ≤ 15 := by
  rcases (fmts ix member).2.2 with plain | ⟨front, inFronts, back, inBacks, fmt⟩
  · obtain ⟨conversion, inside, some⟩ := List.exists_of_findSome?_eq_some operand
    rw [conversionAddr_none (plain conversion inside)] at some
    cases some
  · rw [fmt, (@front_width o op pc realregs front inFronts back).2.1]
    have front_le : besides o op front ≤ 10 := by
      simp only [fronts, List.mem_cons, List.not_mem_nil, or_false] at inFronts
      rcases inFronts with rfl | rfl | rfl | rfl | rfl | rfl | rfl | rfl | rfl
      all_goals simp [besides, typed, conversionWidth]
      all_goals split <;> decide
    have back_le : besides o op back ≤ 5 := by
      simp only [backs, List.mem_cons, List.not_mem_nil, or_false] at inBacks
      rcases inBacks with rfl | rfl | rfl | rfl | rfl | rfl <;> simp [besides, typed, conversionWidth]
    exact Nat.add_le_add front_le back_le

/-! ## Everything fits -/

/-- The characters of the address of the instruction. -/
def placeLength (o : DisasmOpts) (pc : Word) : Nat :=
  match addrSymbol o pc with
  | some name => max 20 name.length
  | none => 10

def Fits (o : DisasmOpts) (op pc : Word) (realregs : Option RealRegs) : Prop :=
  ∀ written ∈ disasmWrites o op pc realregs, written.2.length < written.1.size

theorem symbol_lt {addr : Word} {name : List Char} (found : o.symbol addr = some name) : name.length < 128 := by
  obtain ⟨symresolver, -, resolved⟩ := Option.bind_eq_some_iff.mp found
  exact symresolver.fills addr symbolSize name resolved

theorem addrSymbol_lt {name : List Char} (found : addrSymbol o pc = some name) : name.length < 128 := by
  unfold addrSymbol at found
  split at found
  · exact symbol_lt found
  · cases found

theorem length_addrText : (addrText o pc).length = placeLength o pc := by
  unfold addrText placeLength
  cases addrSymbol o pc with
  | some name => exact length_leftAligned 20 name
  | none => exact length_hexWord pc

theorem placeLength_lt : placeLength o pc < 128 := by
  unfold placeLength
  split
  · exact max_lt (by decide) (addrSymbol_lt ‹_›)
  · decide

theorem length_codeText {ix : Instruction} (member : ix ∈ macroInst ++ inst) :
    (codeText o op pc realregs ix).length = placeLength o pc + 24 + (argsText o op pc realregs ix).length := by
  have word : (zeroPadded 8 (hexadecimal op.toNat)).length = 8 := length_zeroPadded_hexadecimal (by decide) op.isLt
  have name : (leftAligned 10 ix.name).length = 10 := by
    rw [length_leftAligned, max_eq_left (fmts ix member).2.1]
  simp only [codeText, List.length_append, List.length_cons, List.length_nil, length_addrText, word, name]
  omega

theorem addrWrites_fit : ∀ written ∈ addrWrites o pc, written.2.length < written.1.size := by
  have hex : (hexWord pc).length < 128 := by
    rw [length_hexWord]
    decide
  unfold addrWrites
  rw [List.forall_mem_cons]
  refine ⟨hex, ?_⟩
  cases found : addrSymbol o pc with
  | none => exact List.forall_mem_nil _
  | some name =>
      have short := addrSymbol_lt found
      have aligned : (leftAligned 20 name).length < 128 := by
        rw [length_leftAligned]
        exact max_lt (by decide) short
      exact List.forall_mem_cons.mpr ⟨short, List.forall_mem_singleton.mpr aligned⟩

theorem unknown_fits : (unknownText o op pc).length < 256 := by
  have word : (zeroPadded 8 (hexadecimal op.toNat)).length = 8 := length_zeroPadded_hexadecimal (by decide) op.isLt
  have place := @placeLength_lt o pc
  simp only [unknownText, List.length_append, List.length_cons, List.length_nil, length_addrText, word]
  omega

/-- Besides the operands everything fits always. -/
theorem fits_iff_args : Fits o op pc realregs ↔ ∀ ix, findInstruction o op = some ix →
    (argsText o op pc realregs ix).length < 128 ∧ placeLength o pc + 24 + (argsText o op pc realregs ix).length < 256 := by
  have codes : Fits o op pc realregs ↔ ∀ written ∈ codeWrites o op pc realregs, written.2.length < written.1.size := by
    rw [Fits, disasmWrites, List.forall_mem_append]
    exact and_iff_right addrWrites_fit
  have first : (TextBuffer.code, unknownText o op pc).2.length < TextBuffer.code.size := unknown_fits
  rw [codes, codeWrites, List.forall_mem_cons, and_iff_right first]
  cases found : findInstruction o op with
  | none => exact iff_of_true (List.forall_mem_nil _) fun ix same => by cases same
  | some ix =>
      have text := @length_codeText o op pc realregs ix (findInstruction_matches found).1
      rw [List.forall_mem_cons, List.forall_mem_singleton]
      constructor
      · rintro ⟨args, code⟩ ix' same
        cases same
        exact ⟨args, text ▸ code⟩
      · intro fits
        obtain ⟨args, code⟩ := fits ix rfl
        exact ⟨args, text.trans_lt code⟩

theorem disasm_fits_iff (o : DisasmOpts) (op pc : Word) (realregs : Option RealRegs) :
    Fits o op pc realregs ↔ ∀ ix addr name, findInstruction o op = some ix →
      operandAddr o op pc realregs ix.fmt = some addr → o.symbol addr = some name →
        besides o op ix.fmt + name.length < 128 ∧ placeLength o pc + 24 + besides o op ix.fmt + name.length < 256 := by
  have place := @placeLength_lt o pc
  constructor
  · intro fits ix addr name found operand named
    have text := length_args_addr (findInstruction_matches found).1 operand
    have printed : printJump o addr = name := by
      rw [printJump, named]
    rw [printed] at text
    obtain ⟨args, code⟩ := fits_iff_args.mp fits ix found
    omega
  · intro short
    rw [fits_iff_args]
    intro ix found
    cases operand : operandAddr o op pc realregs ix.fmt with
    | none =>
        have bound := length_args_plain (findInstruction_matches found).1 operand
        omega
    | some addr =>
        have text := length_args_addr (findInstruction_matches found).1 operand
        cases named : o.symbol addr with
        | none =>
            have printed : printJump o addr = hexWord addr := by
              rw [printJump, named]
            have bound := besides_le (findInstruction_matches found).1 operand
            rw [printed, length_hexWord] at text
            omega
        | some name =>
            have printed : printJump o addr = name := by
              rw [printJump, named]
            rw [printed] at text
            have fits := short ix addr name found operand named
            omega

/-! ### The longest names -/

theorem longNames_fills (_ : Word) (size : Nat) (name : List Char)
    (found : (if 0 < size then some (List.replicate (size - 1) 'a') else none) = some name) : name.length < size := by
  split at found
  · cases found
    rw [List.length_replicate]
    omega
  · cases found

def longNames : SymResolve := ⟨fun _ size => if 0 < size then some (List.replicate (size - 1) 'a') else none, longNames_fills⟩

def longOpts : DisasmOpts := ⟨false, false, false, false, false, false, some longNames⟩

theorem disasm_overflows : ¬ Fits longOpts 0x10220003 0x08804000 none := by
  unfold Fits
  decide +kernel

end Psplink.Debug
