import Psplink.Lib.Printf
import Psplink.Shell.Delivery
import Psplink.Symbols.Loads

/-!
# Symbolic names

The command `symbyaddr` and `symbolFindNameByAddressEx` both work out the start of an entry once more. When both
print the name and the distance from that start.
-/

namespace Psplink.Symbols
open Psplink.Lib Psplink.Lib.Flat Psplink.Kernel

/-! ## The code -/

def lowercaseHexBytes (n : Nat) : Bytes := (lowercaseHex n).map fun c => UInt8.ofNat c.toNat

def uppercaseHexBytes (width n : Nat) : Bytes := (zeroPadded width (hexadecimal n)).map fun c => UInt8.ofNat c.toNat

/-- The name, and the distance of an address behind a start. -/
def printed (name : Bytes) (start addr : Word) : Bytes :=
  if start < addr then name ++ ascii "+0x" ++ lowercaseHexBytes (addr - start).toNat else name

/-- What is left in the output: there may be none, or `symtemp` is too short. -/
inductive NameOutput
  | none
  | overrun
  | text (output : Bytes)

abbrev symtempSize : Nat := 256

namespace State

def symbolFindNameByAddressEx (m : ModuleManager) (s : State) (addr : Word) (output : Addr) (size : Int) : NameOutput :=
  if output = 0 ∨ size ≤ 0 then .none
  else
    match s.symbolFindByAddress m addr with
    | none => .none
    | some (pSym, baseaddr) =>
        let e := load SymfileEntry s.mem pSym
        let reladdr := if baseaddr ≤ e.addr then e.addr - baseaddr else e.addr
        let symtemp := printed (cstrAt s.mem e.name) (baseaddr + reladdr) addr
        if symtempSize ≤ symtemp.length then .overrun else .text (symtemp.take (size.toNat - 1))

/-- `symbyaddr_cmd`, with what `memDecode` makes of its argument: the result, and what is printed. -/
def symbyaddrCmd (m : ModuleManager) (s : State) (decoded : Option Word) : Int × Bytes :=
  match decoded with
  | none => (Shell.cmdError, [])
  | some addr =>
      match s.symbolFindByAddress m addr with
      | some (pEntry, baseaddr) =>
          let e := load SymfileEntry s.mem pEntry
          (Shell.cmdOk, printed (cstrAt s.mem e.name) (baseaddr + e.addr) addr ++ [10])
      | none =>
          (Shell.cmdError, ascii "Error could not find symbol at address 0x" ++ uppercaseHexBytes 8 addr.toNat ++ [10])

end State

/-! ## One name -/

/-- The name, and a distance that is not zero. -/
def symbolic (name : Bytes) (distance : Word) : Bytes :=
  if distance = 0 then name else name ++ ascii "+0x" ++ lowercaseHexBytes distance.toNat

theorem char_digitChar : ∀ d < 16, Char.ofNat (UInt8.ofNat (Nat.digitChar d).toNat).toNat = Nat.digitChar d := by decide

theorem lowercaseHexBytes_inj {m n : Nat} (same : lowercaseHexBytes m = lowercaseHexBytes n) : m = n := by
  have chars (n : Nat) : (lowercaseHexBytes n).map (fun b => Char.ofNat b.toNat) = lowercaseHex n := by
    rw [lowercaseHexBytes, List.map_map]
    refine (List.map_congr_left fun c mem => ?_).trans (List.map_id _)
    obtain ⟨d, small, rfl⟩ := mem_lowercaseHex mem
    exact char_digitChar d small
  refine lowercaseHex_inj ?_
  rw [← chars m, ← chars n, same]

theorem symbolic_inj {name : Bytes} {d d' : Word} (same : symbolic name d = symbolic name d') : d = d' := by
  unfold symbolic at same
  split at same
  · next zero =>
    split at same
    · next zero' => rw [zero, zero']
    · have lengths := congrArg List.length same
      simp [ascii] at lengths
  · split at same
    · have lengths := congrArg List.length same
      simp [ascii] at lengths
    · exact BitVec.eq_of_toNat_eq (lowercaseHexBytes_inj (List.append_cancel_left same))

theorem printed_eq (name : Bytes) (start addr : Word) :
    printed name start addr = symbolic name (if start < addr then addr - start else 0) := by
  unfold printed symbolic
  by_cases before : start < addr
  · have some_ : addr - start ≠ 0 := fun none => by
      have number := congrArg BitVec.toNat none
      rw [BitVec.lt_def] at before
      rw [BitVec.toNat_sub] at number
      have zero : (0 : Word).toNat = 0 := rfl
      omega
    rw [if_pos before, if_pos before, if_neg some_]
  · rw [if_neg before, if_neg before, if_pos rfl]

/-- A printer with a start of its own prints the same as with the entry's start. -/
theorem printed_eq_iff {name : Bytes} {start start' addr : Word} (le : start ≤ addr) :
    printed name start' addr = symbolic name (addr - start) ↔ start' = start ∨ addr = start ∧ ¬ start' < addr := by
  rw [printed_eq]
  by_cases before : start' < addr
  · rw [if_pos before]
    constructor
    · intro same
      exact .inl ((BitVec.sub_right_inj addr).mp (symbolic_inj same))
    · rintro (rfl | ⟨-, after⟩)
      · rfl
      · exact absurd before after
  · rw [if_neg before]
    constructor
    · intro same
      have zero := (BitVec.sub_self addr).trans (symbolic_inj same)
      exact .inr ⟨(BitVec.sub_right_inj addr).mp zero, before⟩
    · intro either
      have at_ : addr = start := by
        rcases either with rfl | ⟨same, -⟩
        · exact BitVec.le_antisymm (BitVec.not_lt.mp before) le
        · exact same
      rw [at_, BitVec.sub_self]
      rfl

/-- The text that names an address, with an entry and a base address. -/
def nameOf (s : State) (e : SymfileEntry) (base addr : Word) : Bytes :=
  symbolic (cstrAt s.mem e.name) (addr - e.bottom base)

/-- Where there is an entry both print that text, into every buffer that has room for it. -/
def SameName (m : ModuleManager) (s : State) (addr : Word) : Prop :=
  ∀ pSym base, s.symbolFindByAddress m addr = some (pSym, base) →
    s.symbyaddrCmd m (some addr) = (Shell.cmdOk, nameOf s (load SymfileEntry s.mem pSym) base addr ++ [10]) ∧
    ∀ (output : Addr) (size : Int), output ≠ 0 → (nameOf s (load SymfileEntry s.mem pSym) base addr).length < size →
      s.symbolFindNameByAddressEx m addr output size = .text (nameOf s (load SymfileEntry s.mem pSym) base addr)

/-- A relative entry that is less than the base, an absolute entry at the address itself that does not wrap around with
the base, or no base. -/
def Plain (e : SymfileEntry) (base addr : Word) : Prop :=
  base = 0 ∨ e.addr < absolute ∧ e.addr < base ∨ absolute ≤ e.addr ∧ addr = e.addr ∧ e.addr ≤ base + e.addr

theorem bottom_le_of_found {m : ModuleManager} {s : State} {addr base : Word} {pSym : Addr}
    (found : s.symbolFindByAddress m addr = some (pSym, base)) : (load SymfileEntry s.mem pSym).bottom base ≤ addr := by
  unfold State.symbolFindByAddress at found
  dsimp only at found
  split at found
  · cases found
  · split at found
    · cases found
    · obtain ⟨i, here, same⟩ := Option.map_eq_some_iff.mp found
      obtain ⟨rfl, rfl⟩ := Prod.mk.inj same
      have holds := List.find?_some here
      rw [spans, decide_eq_true_iff] at holds
      exact holds.1

/-- The two starts are the entry's, or nothing is added to its name where the address is its start. -/
theorem plain_iff {e : SymfileEntry} {base addr : Word} (le : e.bottom base ≤ addr) :
    ((base + e.addr = e.bottom base ∨ addr = e.bottom base ∧ ¬ base + e.addr < addr) ∧
      (base + (if base ≤ e.addr then e.addr - base else e.addr) = e.bottom base ∨
        addr = e.bottom base ∧ ¬ base + (if base ≤ e.addr then e.addr - base else e.addr) < addr)) ↔
      Plain e base addr := by
  have limit : absolute.toNat = 0x08000000 := rfl
  have zero : (0 : Word).toNat = 0 := rfl
  have smallBase := base.isLt
  have smallAddr := e.addr.isLt
  unfold Plain
  unfold SymfileEntry.bottom at le ⊢
  by_cases isAbsolute : absolute ≤ e.addr
  · rw [if_pos isAbsolute] at le ⊢
    by_cases before : base ≤ e.addr
    · rw [if_pos before]
      simp only [← BitVec.toNat_inj, BitVec.lt_def, BitVec.le_def, BitVec.toNat_add, BitVec.toNat_sub, limit, zero] at *
      omega
    · rw [if_neg before]
      simp only [← BitVec.toNat_inj, BitVec.lt_def, BitVec.le_def, BitVec.toNat_add, limit, zero] at *
      omega
  · rw [if_neg isAbsolute] at le ⊢
    by_cases before : base ≤ e.addr
    · rw [if_pos before]
      simp only [← BitVec.toNat_inj, BitVec.lt_def, BitVec.le_def, BitVec.toNat_add, BitVec.toNat_sub, limit, zero] at *
      omega
    · rw [if_neg before]
      simp only [← BitVec.toNat_inj, BitVec.lt_def, BitVec.le_def, BitVec.toNat_add, limit, zero] at *
      omega

/-- Both printers print the name and the distance if and only if the entry is relative and less than the base, or
absolute and asked for at its own address, or the base is zero, and the text has less than 256 bytes. -/
theorem sameName_iff (m : ModuleManager) (s : State) (addr : Word) : SameName m s addr ↔
    ∀ pSym base, s.symbolFindByAddress m addr = some (pSym, base) →
      Plain (load SymfileEntry s.mem pSym) base addr ∧
        (nameOf s (load SymfileEntry s.mem pSym) base addr).length < symtempSize := by
  refine forall₃_congr fun pSym base found => ?_
  generalize entry : load SymfileEntry s.mem pSym = e
  have le : e.bottom base ≤ addr := entry ▸ bottom_le_of_found found
  have command : s.symbyaddrCmd m (some addr) = (Shell.cmdOk, nameOf s e base addr ++ [10]) ↔
      printed (cstrAt s.mem e.name) (base + e.addr) addr = nameOf s e base addr := by
    simp only [State.symbyaddrCmd, found, entry, Prod.mk.injEq, true_and, List.append_cancel_right_eq]
  let start' := base + if base ≤ e.addr then e.addr - base else e.addr
  have function {output : Addr} {size : Int} (some_ : output ≠ 0) (positive : 0 < size) :
      s.symbolFindNameByAddressEx m addr output size =
        if symtempSize ≤ (printed (cstrAt s.mem e.name) start' addr).length then .overrun
        else .text ((printed (cstrAt s.mem e.name) start' addr).take (size.toNat - 1)) := by
    rw [State.symbolFindNameByAddressEx, if_neg (not_or.mpr ⟨some_, not_le.mpr positive⟩)]
    simp only [found, entry]
    rfl
  have buffers : (∀ (output : Addr) (size : Int), output ≠ 0 → (nameOf s e base addr).length < size →
      s.symbolFindNameByAddressEx m addr output size = .text (nameOf s e base addr)) ↔
      printed (cstrAt s.mem e.name) start' addr = nameOf s e base addr ∧ (nameOf s e base addr).length < symtempSize := by
    constructor
    · intro all
      -- a buffer that also has room for what is printed
      let room : Nat := (nameOf s e base addr).length + (printed (cstrAt s.mem e.name) start' addr).length + 1
      have whole := all 1 room (by decide) (by omega)
      rw [function (by decide) (by omega)] at whole
      split at whole
      · cases whole
      · next fits =>
        have text := NameOutput.text.inj whole
        rw [List.take_of_length_le (by omega)] at text
        exact ⟨text, text ▸ not_le.mp fits⟩
    · intro both output size some_ room
      obtain ⟨same, fits⟩ := both
      rw [function some_ (by omega), same, if_neg (not_le.mpr fits), List.take_of_length_le (by omega)]
  rw [command, buffers, ← and_assoc]
  refine and_congr_left fun _ => ?_
  rw [nameOf, printed_eq_iff le, printed_eq_iff le]
  exact plain_iff le

/-- An absolute entry of a module that is not at zero. -/
def absoluteFoo : State := (emptyStart.symbolLoadSymbols (wholeFile (FileLoad.oneEntry 0 0x08900010))).2

/-- The command prints `foo`, the function `foo+0x2`. -/
theorem names_differ : ¬ SameName oneModule absoluteFoo 0x08900012 := by
  intro same
  have found : absoluteFoo.symbolFindByAddress oneModule 0x08900012 = some (0x8810003c, 0x08900000) := by decide +kernel
  have command := (same _ _ found).1
  exact absurd command (by decide +kernel)

end Psplink.Symbols
