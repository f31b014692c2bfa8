import Psplink.Address.Evaluation
import Psplink.Memory.Search

/-!
# Setting a register

`setreg_cmd` of psplink/shell.c decodes its first argument, which is the name of the register, where the value is
the second one.
-/

namespace Psplink.Shell.SetReg
open Psplink.Lib Psplink.Lib.Flat Psplink.Address Psplink.Memory

/-! ## The code -/

structure Outcome where
  ret : Int
  mem : Flat
  printed : Bytes

def setregCmd (env : Env) (argv : List CStr) : Outcome :=
  match memDecode env (arg argv 0) with
  | none => ⟨cmdOk, env.mem, []⟩
  | some addr =>
      match (arg argv 0).text with
      | 36 :: name =>
          match exceptionReg name with
          | none => ⟨cmdError, env.mem, ascii "Error could not find register " ++ (arg argv 0).text ++ [10]⟩
          | some reg => ⟨cmdOk, save env.mem (regAddr env.currex reg) addr, []⟩
      | _ => ⟨cmdError, env.mem, ascii "Error register must start with a $" ++ [10]⟩

/-! ## What should hold -/

/-- The register that the first argument names, and the value of the second. -/
def asked (env : Env) (argv : List CStr) : Option (Exception.Reg × Word) :=
  match (arg argv 0).text with
  | 36 :: name => (exceptionReg name).bind fun reg => (memDecode env (arg argv 1)).map fun value => (reg, value)
  | _ => none

structure Sets (env : Env) (argv : List CStr) : Prop where
  holds : ∀ reg value, asked env argv = some (reg, value) →
    load Word (setregCmd env argv).mem (regAddr env.currex reg) = value
  others : ∀ reg value, asked env argv = some (reg, value) → ∀ x, ¬ In (regAddr env.currex reg) 4 x →
    (setregCmd env argv).mem x = env.mem x
  invalid : asked env argv = none → (setregCmd env argv).mem = env.mem

/-! ## The register as an expression -/

variable {env : Env} {argv : List CStr}

theorem exceptionReg_alnum {name : Bytes} {reg : Exception.Reg} (known : exceptionReg name = some reg) :
    ∀ c ∈ name, Util.isAlnum c := by
  unfold exceptionReg at known
  split at known
  · next same => exact List.all_eq_true.mp (by rw [same]; decide)
  · split at known
    · next same => exact List.all_eq_true.mp (by rw [same]; decide)
    · obtain ⟨n, found, -⟩ := Option.map_eq_some_iff.mp known
      have same : regName[n.val]? = some name := by simpa using List.find?_some found
      have alnum : regName.all (·.all Util.isAlnum) = true := by decide
      exact List.all_eq_true.mp (List.all_eq_true.mp alnum name (List.mem_of_getElem? same))

/-- A register is worth what it holds. -/
theorem memDecode_register {line : CStr} {name : Bytes} {reg : Exception.Reg} (text : line.text = 36 :: name)
    (known : exceptionReg name = some reg) : memDecode env line = some (env.lw (regAddr env.currex reg)) := by
  have short : name.length ≤ 3 := exceptionReg_length (by rw [known]; exact Option.some_ne_none reg)
  have whole : lineBuf line = dollar :: name := by
    rw [lineBuf, text, List.take_of_length_le (by rw [List.length_cons]; omega)]
  have read : nameAt dollar (name ++ []) = some (⟨.register, name⟩, []) :=
    nameAt_register (exceptionReg_alnum known) (by omega) ends_nil
  rw [List.append_nil] at read
  have looks : turn .first dollar name = .looksUp ⟨.register, name⟩ [] := turn_kind rfl read
  have value : (env.lookup ⟨.register, name⟩).value = some (env.lw (regAddr env.currex reg)) := by
    simp only [Env.lookup, Env.getReg, known]
  rw [memDecode, decodeLog, whole, parse_looksUp looks, value]
  rfl

/-- Whatever is asked for, what the command writes is there already. -/
theorem setreg_unchanged (env : Env) (argv : List CStr) : (setregCmd env argv).mem = env.mem := by
  unfold setregCmd
  cases decoded : memDecode env (arg argv 0) with
  | none => rfl
  | some addr =>
      dsimp only
      split
      · next name text =>
        cases known : exceptionReg name with
        | none => rfl
        | some reg =>
            have own : memDecode env (arg argv 0) = some (env.lw (regAddr env.currex reg)) := memDecode_register text known
            rw [decoded, Option.some.injEq] at own
            rw [own]
            exact save_load env.mem _
      · rfl

/-- A register is set as it should be exactly if it holds the value already, or nothing valid is asked for. -/
theorem setreg_sets_iff (env : Env) (argv : List CStr) : Sets env argv ↔
    ∀ reg value, asked env argv = some (reg, value) → env.lw (regAddr env.currex reg) = value := by
  constructor
  · intro sets reg value valid
    rw [← sets.holds reg value valid, setreg_unchanged]
    rfl
  · intro already
    refine ⟨?_, ?_, ?_⟩
    · intro reg value valid
      rw [setreg_unchanged, ← already reg value valid]
      rfl
    · intro _ _ _ x _
      rw [setreg_unchanged]
    · exact fun _ => setreg_unchanged env argv

theorem a0_nulFree : 0 ∉ ascii "$a0" := by decide

theorem one_nulFree : 0 ∉ ascii "1" := by decide

def a0One : List CStr := [⟨ascii "$a0", a0_nulFree⟩, ⟨ascii "1", one_nulFree⟩]

def trappedEnv : Env := { bareEnv with currex := 0x08801000 }

/-- `setreg $a0 1` with a zero in `a0`. -/
theorem a0_not_set : ¬ Sets trappedEnv a0One := by
  intro sets
  have valid : asked trappedEnv a0One = some (.r 4, 1) := by decide
  have held := sets.holds _ _ valid
  rw [setreg_unchanged] at held
  exact absurd held (by decide)

end Psplink.Shell.SetReg
