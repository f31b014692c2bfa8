import Psplink.Address.Evaluation

/-!
# Failed lookups

What is looked up in vain ends the loop. Not every operand that names nothing is looked up in vain: a register is
read through the context of an exception even where there is none, and what the kernel says about a module is used
even where it refuses to say it.
-/

namespace Psplink.Address
open Psplink.Lib Psplink.Lib.Flat Psplink.Util Psplink.Kernel Psplink.Symbols

/-! ## Entries of the log -/

/-- An entry has been looked up, and a result with it has failed where it has no value. -/
def Evaluated.SettledBy (env : Env) (entry : Evaluated) (result : Option Word) : Prop :=
  entry.looked = env.lookup entry.operand ∧ (entry.looked.value = none → result = none)

def operateLog (env : Env) (fuel : Nat) (st : Loop) (temp : Word) (rest : Bytes) (log : List Evaluated) :
    Option Word × List Evaluated :=
  match env.derefAddr st.deref temp with
  | none => (none, log)
  | some temp => ((parseLine env fuel (st.after temp) rest).1, log ++ (parseLine env fuel (st.after temp) rest).2)

section Log

variable {env : Env} {fuel : Nat} {st : Loop} {c : UInt8} {line : Bytes} {entry : Evaluated}

theorem settled_of_operate {temp : Word} {rest : Bytes} {log : List Evaluated}
    (ih : ∀ {st line}, entry ∈ (parseLine env fuel st line).2 → entry.SettledBy env (parseLine env fuel st line).1)
    (before : entry ∈ log → ∀ result, entry.SettledBy env result) (mem : entry ∈ (operateLog env fuel st temp rest log).2) :
    entry.SettledBy env (operateLog env fuel st temp rest log).1 := by
  unfold operateLog at mem ⊢
  cases deref : env.derefAddr st.deref temp with
  | none =>
      simp only [deref] at mem ⊢
      exact before mem none
  | some v =>
      simp only [deref] at mem ⊢
      rcases List.mem_append.mp mem with mem | mem
      · exact before mem _
      · exact ih mem

theorem log_looksUp {o : Named} {rest : Bytes} (looks : turn st c line = .looksUp o rest) :
    parseLine env (fuel + 1) st (c :: line) =
      (env.lookup o).value.elim (none, [⟨o, env.lookup o⟩])
        fun temp => operateLog env fuel st temp rest [⟨o, env.lookup o⟩] := by
  rw [parseLine]
  simp only [looks]
  cases (env.lookup o).value <;> rfl

theorem log_number {temp : Word} {rest : Bytes} (number : turn st c line = .number temp rest) :
    parseLine env (fuel + 1) st (c :: line) = operateLog env fuel st temp rest [] := by
  rw [parseLine]
  simp only [number]
  rfl

theorem log_opens (opens : turn st c line = .opens) :
    parseLine env (fuel + 1) st (c :: line) =
      (bracket 1 line).elim (none, []) fun cut =>
        (parseLine env fuel .first cut.1).1.elim (none, (parseLine env fuel .first cut.1).2)
          fun temp => operateLog env fuel st temp cut.2 (parseLine env fuel .first cut.1).2 := by
  rw [parseLine]
  simp only [opens]
  cases bracket 1 line with
  | none => rfl
  | some cut =>
      rw [Option.elim_some]
      dsimp only
      generalize parseLine env fuel .first cut.1 = inner
      obtain ⟨value, log⟩ := inner
      cases value <;> rfl

/-- What is looked up in vain ends the loop, also from inside brackets. -/
theorem parse_settles (mem : entry ∈ (parseLine env fuel st line).2) :
    entry.SettledBy env (parseLine env fuel st line).1 := by
  induction fuel generalizing st line with
  | zero => exact absurd mem List.not_mem_nil
  | succ fuel ih =>
      cases line with
      | nil => exact absurd mem List.not_mem_nil
      | cons c line =>
          cases here : turn st c line with
          | fails =>
              rw [parseLine] at mem
              simp only [here] at mem
              exact absurd mem List.not_mem_nil
          | skips next rest =>
              rw [parseLine] at mem ⊢
              simp only [here] at mem ⊢
              exact ih mem
          | looksUp o rest =>
              rw [log_looksUp here] at mem ⊢
              cases value : (env.lookup o).value with
              | none =>
                  simp only [value, Option.elim_none, List.mem_singleton] at mem ⊢
                  exact ⟨by rw [mem], fun _ => rfl⟩
              | some temp =>
                  simp only [value, Option.elim_some] at mem ⊢
                  refine settled_of_operate ih ?_ mem
                  intro first result
                  rw [List.mem_singleton.mp first]
                  refine ⟨rfl, fun none_ => ?_⟩
                  rw [value] at none_
                  cases none_
          | number temp rest =>
              rw [log_number here] at mem ⊢
              exact settled_of_operate ih (fun first => absurd first List.not_mem_nil) mem
          | opens =>
              rw [log_opens here] at mem ⊢
              cases brackets : bracket 1 line with
              | none =>
                  simp only [brackets, Option.elim_none] at mem
                  exact absurd mem List.not_mem_nil
              | some cut =>
                  simp only [brackets, Option.elim_some] at mem ⊢
                  cases within : (parseLine env fuel .first cut.1).1 with
                  | none =>
                      simp only [within, Option.elim_none] at mem ⊢
                      have inner := ih mem
                      rwa [within] at inner
                  | some temp =>
                      simp only [within, Option.elim_some] at mem ⊢
                      refine settled_of_operate ih ?_ mem
                      intro first result
                      obtain ⟨looked, fails⟩ := ih first
                      refine ⟨looked, fun none_ => ?_⟩
                      rw [within] at fails
                      cases fails none_

end Log

/-! ## Lookups in vain -/

/-- The text after the colon asks for something that `get_modaddr` knows. -/
def knownField : Option Bytes → Bool
  | none => true
  | some ext =>
      (["text", "stext", "sdata", "sbss"].map ascii).contains ext || ext.contains comma ||
        (["s1", "s2", "s3", "s4", "1", "2", "3", "4"].map ascii).contains ext

/-- An operand that names nothing is noticed to do so, unless it is a known register while there is no current
exception, or a module whose info the kernel refuses or whose library lacks an export. -/
def Noticed (env : Env) (o : Named) : Prop :=
  match o.kind with
  | .register => exceptionReg o.name = none ∨ env.currex ≠ 0
  | .module_ =>
      env.moduleUid (cutAt colon o.name).1 = none ∨ knownField (cutAt colon o.name).2 = false ∨
        env.missingModule o.name = false
  | .thread | .symbol => True

section Vain

variable {env : Env}

theorem digits_known (digit : UInt8) : 49 ≤ digit ∧ digit ≤ 52 →
    knownField (some [115, digit]) = true ∧ knownField (some [digit]) = true := by
  revert digit
  exact forall_byte (by decide +kernel)

theorem moduleField_none {uid : Word} {info : ModuleInfo} {pcolon : Option Bytes} (unknown : knownField pcolon = false) :
    env.moduleField uid info pcolon = none := by
  cases pcolon with
  | none => cases unknown
  | some ext =>
      have fields := unknown
      rw [knownField, Bool.or_eq_false_iff, Bool.or_eq_false_iff] at fields
      obtain ⟨⟨apart, noComma⟩, -⟩ := fields
      have noField (field : String) (known : field ∈ ["text", "stext", "sdata", "sbss"]) : ext ≠ ascii field := by
        rintro rfl
        rw [List.contains_iff_mem.mpr (List.mem_map_of_mem known)] at apart
        cases apart
      have single : cutAt comma ext = (ext.takeWhile (· ≠ comma), none) := by
        refine congrArg (Prod.mk _) (if_neg fun mem => ?_)
        rw [List.contains_iff_mem.mpr mem] at noComma
        cases noComma
      unfold Env.moduleField
      dsimp only
      rw [if_neg (noField "text" (by simp)), if_neg (noField "stext" (by simp)), if_neg (noField "sdata" (by simp)),
        if_neg (noField "sbss" (by simp)), single]
      dsimp only
      split
      · next s digit =>
        by_cases size : s = 115
        · subst size
          refine (if_pos rfl).trans (if_neg fun known => ?_)
          rw [(digits_known digit known).1] at unknown
          cases unknown
        · exact if_neg size
      · next digit =>
        refine if_neg fun known => ?_
        rw [(digits_known digit known).2] at unknown
        cases unknown
      · rfl

theorem getModaddr_none {name : Bytes} (noticed : env.moduleUid (cutAt colon name).1 = none ∨ knownField (cutAt colon name).2 = false) :
    env.getModaddr name = none := by
  unfold Env.getModaddr
  dsimp only
  cases found : env.moduleUid (cutAt colon name).1 with
  | none => rfl
  | some uid => exact moduleField_none (noticed.resolve_left (by simp [found]))

theorem getThreadaddr_none {name : Bytes} (missing : ((env.threadUid (cutAt colon name).1).bind env.threadStatus).isNone) :
    env.getThreadaddr name = none := by
  unfold Env.getThreadaddr
  dsimp only
  rw [Option.isNone_iff_eq_none.mp missing]

theorem getSymbol_none {name : Bytes} (missing : (env.symbols.symbolFindByName env.modules
    (if name.head? = some backquote then name.tail else name)).1 = 0) : env.getSymbol name = none := by
  unfold Env.getSymbol
  split
  next getsize line shape =>
  have asked : line = if name.head? = some backquote then name.tail else name := by
    split at shape
    · exact (Prod.mk.inj shape).2.symm
    · next other =>
      rw [if_neg fun head => other _ (cons_of_head head)]
      exact (Prod.mk.inj shape).2.symm
  rw [← asked] at missing
  exact if_pos missing

/-- What names nothing and is noticed has no value, and nothing is read for it. -/
theorem lookup_vain {o : Named} (missing : env.missing o) (noticed : Noticed env o) : env.lookup o = ⟨none, []⟩ := by
  obtain ⟨kind, name⟩ := o
  cases kind with
  | register =>
      have none_ : exceptionReg name = none := by
        rcases of_decide_eq_true missing with none_ | noContext
        · exact none_
        · exact noticed.resolve_right (not_not_intro noContext)
      show env.getReg name = _
      rw [Env.getReg, none_]
  | module_ =>
      have vain : env.getModaddr name = none := by
        rcases noticed with noModule | noField | there
        · exact getModaddr_none (.inl noModule)
        · exact getModaddr_none (.inr noField)
        · exact absurd missing (Bool.eq_false_iff.mp there)
      exact congrArg (Looked.mk · []) vain
  | thread => exact congrArg (Looked.mk · []) (getThreadaddr_none missing)
  | symbol => exact congrArg (Looked.mk · []) (getSymbol_none (of_decide_eq_true missing))

end Vain

/-! ## Expressions with failed lookups -/

/-- The address lies in the current exception context. -/
def InContext (env : Env) (a : Addr) : Prop := env.currex ≠ 0 ∧ In env.currex (4 * Exception.contextWords) a

/-- The loop gets to the end of the line, in the grammar or not. -/
def ReadThrough (env : Env) (line : CStr) : Prop := ∃ st k, Reads env CodeCut .first (lineBuf line) st [] k

theorem epc_nulFree : 0 ∉ ascii "$epc" := by decide

def epcLine : CStr := ⟨ascii "$epc", epc_nulFree⟩

end Psplink.Address
