import Psplink.Kernel.ApiHook
import Psplink.Lib.MipsFrames

/-!
# Calls of hooked functions

The stubs of psplink/kmode.S between the caller of a hooked function and the function. The functions of
apihook.c that they call are compiled: they keep the frame of their caller.
-/

namespace Psplink.Kernel
open Psplink.Lib Psplink.Lib.Mips

/-! ## Code -/

structure HookSymbols where
  apiHook : Fin maxIds → Word
  apiHookEntry : Word
  apiHookHandle : Word
  apiHookReturn : Word

namespace HookSymbols

variable (sym : HookSymbols)

def saveArgs : List Op := .addiu sp sp (-(4 * 8)) :: sws sp
  [(0, ra), (4, a0), (8, a1), (12, a2), (16, a3), (20, t0), (24, t1), (28, v0)] ++ [.move a0 v0]

def restoreArgs : List Op := lws sp [(4, a0), (8, a1), (12, a2), (16, a3)]

def saveResults : List Op := sws sp [(4, v0), (8, v1)] ++ lws sp [(28, a0)]

def restoreResults : List Op := lws sp [(4, v0), (4, v1)]

/-- Label 1. -/
def leave : Word := sym.apiHookEntry + 108

def callHandle : List Instr := [.jal sym.apiHookHandle, .op (.addiu a1 sp 4)]

def unlessFunc : List Instr := [.beq v0 zero sym.leave, .op (.lw t0 20 sp)]

def callFunc : List Instr := [.jalr v0, .op (.lw t1 24 sp)]

def callReturn : List Instr := [.jal sym.apiHookReturn, .op (.addiu a1 sp 4)]

def restoreRa : List Op := [.lw ra 0 sp]

def toCaller : List Instr := [.jr ra, .op (.addiu sp sp (4 * 8))]

def entryCode : List Instr :=
  saveArgs.map .op ++ sym.callHandle ++ restoreArgs.map .op ++ sym.unlessFunc ++ callFunc ++ saveResults.map .op ++
    sym.callReturn ++ restoreResults.map .op ++ restoreRa.map .op ++ toCaller

def hookCode (id : Fin maxIds) : List Instr := [.j sym.apiHookEntry, .op (.li v0 (BitVec.ofNat 32 id))]

end HookSymbols

/-- Which function `_apiHookHandle` gives back. -/
def apiHookHandle (hooks : Fin maxIds → ApiHookGeneric) (id : Word) : Word :=
  if bound : 0 ≤ id.toInt ∧ id.toInt < maxIds then (hooks ⟨id.toInt.toNat, by omega⟩).func else 0

/-! ## Calls -/

def args (d : Data) : List Word := [d.get a0, d.get a1, d.get a2, d.get a3, d.get t0, d.get t1]

def frameOffsets : List Nat := [0, 4, 8, 12, 16, 20, 24, 28]

/-- A function returns to a frame as it was. -/
structure Keeps (f : Data → Data) (d : Data) : Prop where
  stack : (f d).get sp = d.get sp
  frame : ∀ k ∈ frameOffsets, (f d).mem (d.get sp + BitVec.ofNat 32 k) = d.mem (d.get sp + BitVec.ofNat 32 k)

/-- A call of the function `f` at `func` that `hooks id` hooks. It gets 32 bytes less of the stack
than from its caller, and knows of no others; what it returns depends on its arguments. -/
structure HookedCall (m : Machine) (sym : HookSymbols) (hooks : Fin maxIds → ApiHookGeneric) (id : Fin maxIds)
    (f : Data → Data) (d : Data) (r₀ r₁ : Word) : Prop where
  active : (hooks id).func ≠ 0
  entry : Loaded m.code sym.apiHookEntry sym.entryCode
  stub : Loaded m.code (sym.apiHook id) (sym.hookCode id)
  handle : m.code sym.apiHookHandle = none ∧ ∃ handle, m.external sym.apiHookHandle = some handle ∧
    ∀ d, Keeps handle d ∧ (handle d).get v0 = apiHookHandle hooks (d.get a0)
  ret : m.code sym.apiHookReturn = none ∧ ∃ ret, m.external sym.apiHookReturn = some ret ∧ ∀ d, Keeps ret d
  func : m.code (hooks id).func = none ∧ m.external (hooks id).func = some f
  other : (hooks id).func ≠ sym.apiHookHandle ∧ (hooks id).func ≠ sym.apiHookReturn
  keeps : ∀ d', args d' = args d → d'.get sp = d.get sp + BitVec.ofInt 32 (-(4 * 8)) → Keeps f d'
  returns : ∀ d', args d' = args d → (f d').get v0 = r₀ ∧ (f d').get v1 = r₁
  caller : m.code (d.get ra) = none ∧ m.external (d.get ra) = none
  aligned : Aligned (d.get sp)

/-- The call is as one without the hook. -/
def Transparent (m : Machine) (stub func : Word) (f : Data → Data) (d : Data) : Prop :=
  ∃ s ∈ StateTransition.eval m.step (.at stub d []), ∃ call,
    s.calls.filter (fun call => call.entry = func) = [call] ∧ args call.before = args d ∧ s.pc = d.get ra ∧
    s.data.get v0 = (f d).get v0 ∧ s.data.get v1 = (f d).get v1 ∧ s.data.get sp = d.get sp ∧ s.data.get ra = d.get ra

section

variable {m : Machine} {sym : HookSymbols} {hooks : Fin maxIds → ApiHookGeneric} {id : Fin maxIds} {f : Data → Data}
  {d : Data} {r₀ r₁ : Word}

theorem HookSymbols.blocks (loaded : Loaded m.code sym.apiHookEntry sym.entryCode) :
    ((((((((Loaded m.code sym.apiHookEntry (saveArgs.map .op) ∧
      Loaded m.code (sym.apiHookEntry + 40#32) sym.callHandle) ∧
      Loaded m.code (sym.apiHookEntry + 48#32) (restoreArgs.map .op)) ∧
      Loaded m.code (sym.apiHookEntry + 64#32) sym.unlessFunc) ∧
      Loaded m.code (sym.apiHookEntry + 72#32) callFunc) ∧
      Loaded m.code (sym.apiHookEntry + 80#32) (saveResults.map .op)) ∧
      Loaded m.code (sym.apiHookEntry + 92#32) sym.callReturn) ∧
      Loaded m.code (sym.apiHookEntry + 100#32) (restoreResults.map .op)) ∧
      Loaded m.code (sym.apiHookEntry + 108#32) (restoreRa.map .op)) ∧
      Loaded m.code (sym.apiHookEntry + 112#32) toCaller := by
  simpa only [entryCode, loaded_append, List.length_append, List.length_map, saveArgs, restoreArgs, saveResults,
    restoreResults, restoreRa, callHandle, unlessFunc, callFunc, callReturn, toCaller, sws, lws, List.length_cons,
    List.length_nil, Nat.reduceAdd, Nat.reduceMul] using loaded

/-- The frame of the stub: the stack pointer in it, and what it holds. -/
def frameBase (d : Data) : Word := d.get sp + BitVec.ofInt 32 (-(4 * 8))

def frame (id : Fin maxIds) (d : Data) : List (Nat × Word) :=
  [(0, d.get ra), (4, d.get a0), (8, d.get a1), (12, d.get a2), (16, d.get a3), (20, d.get t0), (24, d.get t1),
    (28, BitVec.ofNat 32 id)]

theorem inFrame_of_mem (aligned : Aligned (d.get sp)) {offsets : List Nat} (inside : offsets ⊆ frameOffsets) :
    InFrame (frameBase d) offsets :=
  ⟨aligned.add (by decide), fun k member => by
    have all : ∀ k ∈ frameOffsets, k % 4 = 0 := by decide
    exact all k (inside member)⟩

theorem effects_saveArgs (aligned : Aligned (d.get sp)) :
    ∃ d₁, effects HookSymbols.saveArgs (d.set v0 (BitVec.ofNat 32 id)) = some d₁ ∧
      d₁.get a0 = BitVec.ofNat 32 id ∧ d₁.get sp = frameBase d ∧ d₁.mem = write (frameBase d) (frame id d) d.mem := by
  generalize entered : (d.set v0 (BitVec.ofNat 32 id)).set sp (frameBase d) = d₀
  have base : d₀.get sp = frameBase d := by
    rw [← entered]
    exact Data.get_set_self _ _ (by decide)
  have number : d₀.get v0 = BitVec.ofNat 32 id := by
    simp (disch := decide) only [← entered, Data.get_set_of_ne, Data.get_set_self]
  have memory : d₀.mem = d.mem := by
    rw [← entered]
    rfl
  have opened : (Op.addiu sp sp (-(4 * 8))).effect (d.set v0 (BitVec.ofNat 32 id)) = some d₀ := by
    rw [Op.effect, Data.get_set_of_ne _ _ (by decide), ← entered]
    rfl
  have values : [(0, ra), (4, a0), (8, a1), (12, a2), (16, a3), (20, t0), (24, t1), (28, v0)].map
      (fun s => (s.1, d₀.get s.2)) = frame id d := by
    simp (disch := decide) only [List.map_cons, List.map_nil, ← entered, Data.get_set_of_ne, Data.get_set_self, frame]
  have saved := effects_sws
    [(0, ra), (4, a0), (8, a1), (12, a2), (16, a3), (20, t0), (24, t1), (28, v0)]
    base (inFrame_of_mem aligned (List.Subset.refl _))
  rw [values, memory] at saved
  refine ⟨(d₀.setMem (write (frameBase d) (frame id d) d.mem)).set a0 (d₀.get v0), ?_, ?_, ?_, rfl⟩
  · rw [HookSymbols.saveArgs, List.cons_append, effects, opened, Option.bind_some, effects_append, saved, Option.bind_some,
      effects_one, Op.effect, Data.setMem_get]
  · rw [Data.get_set_self _ _ (by decide), number]
  · rw [Data.get_set_of_ne _ _ (by decide), Data.setMem_get, base]

theorem Keeps.holds {slots : List (Nat × Word)} (keeps : Keeps f d) (inside : slots.map Prod.fst ⊆ frameOffsets)
    (holds : Holds (d.get sp) slots d.mem) : Holds (d.get sp) slots (f d).mem := fun s member => by
  rw [keeps.frame s.1 (inside (List.mem_map_of_mem member))]
  exact holds s member

/-- As far as the call of `_apiHookHandle`. -/
theorem stub_enters (entry : Loaded m.code sym.apiHookEntry sym.entryCode) (stub : Loaded m.code (sym.apiHook id) (sym.hookCode id))
    (aligned : Aligned (d.get sp)) :
    ∃ d₁, m.Reaches (.at (sym.apiHook id) d []) (.at sym.apiHookHandle d₁ []) ∧ d₁.get a0 = BitVec.ofNat 32 id ∧
      d₁.get sp = frameBase d ∧ d₁.get ra = sym.apiHookEntry + 48#32 ∧ d₁.mem = write (frameBase d) (frame id d) d.mem := by
  obtain ⟨⟨⟨⟨⟨⟨⟨⟨⟨save, call⟩, -⟩, -⟩, -⟩, -⟩, -⟩, -⟩, -⟩, -⟩ := HookSymbols.blocks entry
  obtain ⟨d₁, saved, number, base, memory⟩ := @effects_saveArgs id d aligned
  have numbered : m.Reaches (.at (sym.apiHook id) d []) (.at sym.apiHookEntry (d.set v0 (BitVec.ofNat 32 id)) []) :=
    Machine.reaches_delayed stub rfl rfl
  have calls : m.Reaches (.at (sym.apiHookEntry + 40#32) d₁ [])
      (.at sym.apiHookHandle ((d₁.set ra (sym.apiHookEntry + 40#32 + 8)).set a1 ((d₁.set ra (sym.apiHookEntry + 40#32 + 8)).get sp + 4)) []) :=
    Machine.reaches_delayed call rfl rfl
  refine ⟨_, (numbered.trans (Machine.reaches_ops save saved rfl)).trans calls, ?_, ?_, ?_, memory⟩
  · simp (disch := decide) only [Data.get_set_of_ne, number]
  · simp (disch := decide) only [Data.get_set_of_ne, base]
  · simp (disch := decide) only [Data.get_set_of_ne, Data.get_set_self]
    rw [BitVec.add_assoc]
    rfl

theorem effects_restoreArgs (aligned : Aligned (d.get sp)) {d₂ : Data} (base : d₂.get sp = frameBase d)
    (holds : Holds (frameBase d) (frame id d) d₂.mem) :
    ∃ d₃, effects HookSymbols.restoreArgs d₂ = some d₃ ∧ d₃.get a0 = d.get a0 ∧ d₃.get a1 = d.get a1 ∧
      d₃.get a2 = d.get a2 ∧ d₃.get a3 = d.get a3 ∧ d₃.get v0 = d₂.get v0 ∧ d₃.get sp = frameBase d ∧ d₃.mem = d₂.mem := by
  obtain ⟨d₃, restored, loaded, kept, same⟩ := lws_spec [(4, a0), (8, a1), (12, a2), (16, a3)] base
    (inFrame_of_mem aligned (by decide)) (by decide) (by decide) (by decide)
  simp only [Holds, frame, List.forall_mem_cons] at holds
  simp only [List.forall_mem_cons, holds] at loaded
  exact ⟨d₃, restored, loaded.1, loaded.2.1, loaded.2.2.1, loaded.2.2.2.1, kept v0 (by decide),
    (kept sp (by decide)).trans base, by rw [same]⟩

/-- From the return of `_apiHookHandle` to the function. -/
theorem stub_forwards (entry : Loaded m.code sym.apiHookEntry sym.entryCode) (aligned : Aligned (d.get sp)) {d₂ : Data}
    (base : d₂.get sp = frameBase d) (holds : Holds (frameBase d) (frame id d) d₂.mem) (some : d₂.get v0 ≠ 0)
    (calls : List Called) :
    ∃ d₄, m.Reaches (.at (sym.apiHookEntry + 48#32) d₂ calls) (.at (d₂.get v0) d₄ calls) ∧ args d₄ = args d ∧
      d₄.get sp = frameBase d ∧ d₄.get ra = sym.apiHookEntry + 80#32 ∧ d₄.mem = d₂.mem := by
  obtain ⟨⟨⟨⟨⟨⟨⟨⟨-, restore⟩, branch⟩, call⟩, -⟩, -⟩, -⟩, -⟩, -⟩ := HookSymbols.blocks entry
  obtain ⟨d₃, restored, arg0, arg1, arg2, arg3, func, base', memory⟩ := effects_restoreArgs aligned base holds
  have slots : ∀ k ∈ frameOffsets, Aligned (frameBase d + BitVec.ofNat 32 k) :=
    fun k member => (inFrame_of_mem aligned (List.Subset.refl _)).slot member
  simp only [Holds, frame, List.forall_mem_cons] at holds
  obtain ⟨-, -, -, -, -, arg4, arg5, -⟩ := holds
  rw [← memory] at arg4 arg5
  have fifth : (Op.lw t0 20 sp).effect d₃ = Option.some (d₃.set t0 (d.get t0)) := by
    rw [← arg4]
    exact effect_lw t0 base' (slots 20 (by decide))
  generalize linked : (d₃.set t0 (d.get t0)).set ra (sym.apiHookEntry + 72#32 + 8) = d₄
  have base'' : d₄.get sp = frameBase d := by
    simp (disch := decide) only [← linked, Data.get_set_of_ne, base']
  have sixth : (Op.lw t1 24 sp).effect d₄ = Option.some (d₄.set t1 (d.get t1)) := by
    have same : d₄.mem = d₃.mem := by rw [← linked]; rfl
    rw [← arg5, ← same]
    exact effect_lw t1 base'' (slots 24 (by decide))
  have jumps : (Instr.jalr v0).exec (.at (sym.apiHookEntry + 72#32) (d₃.set t0 (d.get t0)) calls) =
      Option.some ⟨sym.apiHookEntry + 72#32 + 4, d₂.get v0, d₄, calls⟩ := by
    rw [← linked, ← func, ← d₃.get_set_of_ne (d.get t0) (show v0 ≠ t0 by decide)]
    rfl
  have loads : m.Reaches (.at (sym.apiHookEntry + 48#32) d₂ calls) (.at (sym.apiHookEntry + 64#32) d₃ calls) :=
    Machine.reaches_ops restore restored (BitVec.add_assoc ..)
  have passes : m.Reaches (.at (sym.apiHookEntry + 64#32) d₃ calls)
      (.at (sym.apiHookEntry + 72#32) (d₃.set t0 (d.get t0)) calls) :=
    Machine.reaches_beq_not branch (by rw [func, Data.get_zero]; exact some) fifth (BitVec.add_assoc ..)
  have enters : m.Reaches (.at (sym.apiHookEntry + 72#32) (d₃.set t0 (d.get t0)) calls)
      (.at (d₂.get v0) (d₄.set t1 (d.get t1)) calls) := Machine.reaches_delayed call jumps sixth
  refine ⟨_, (loads.trans passes).trans enters, ?_, ?_, ?_, ?_⟩
  · simp (disch := decide) only [args, ← linked, Data.get_set_of_ne, Data.get_set_self, arg0, arg1, arg2, arg3]
  · simp (disch := decide) only [Data.get_set_of_ne, base'']
  · simp (disch := decide) only [← linked, Data.get_set_of_ne, Data.get_set_self]
    exact BitVec.add_assoc ..
  · rw [← memory, ← linked]
    rfl

/-- From the return of the function to the call of `_apiHookReturn`. -/
theorem stub_reports (entry : Loaded m.code sym.apiHookEntry sym.entryCode) (aligned : Aligned (d.get sp)) {d₅ : Data}
    (base : d₅.get sp = frameBase d) (calls : List Called) :
    ∃ d₆, m.Reaches (.at (sym.apiHookEntry + 80#32) d₅ calls) (.at sym.apiHookReturn d₆ calls) ∧
      d₆.get sp = frameBase d ∧ d₆.get ra = sym.apiHookEntry + 100#32 ∧
      d₆.mem = write (frameBase d) [(4, d₅.get v0), (8, d₅.get v1)] d₅.mem := by
  obtain ⟨⟨⟨⟨⟨-, save⟩, call⟩, -⟩, -⟩, -⟩ := HookSymbols.blocks entry
  have stored := effects_sws [(4, v0), (8, v1)] base (inFrame_of_mem aligned (by decide))
  simp only [List.map_cons, List.map_nil] at stored
  generalize memory : write (frameBase d) [(4, d₅.get v0), (8, d₅.get v1)] d₅.mem = mem at stored
  obtain ⟨d', loaded, -, kept, same⟩ := lws_spec [(28, a0)]
    (show (d₅.setMem mem).get sp = frameBase d from base) (inFrame_of_mem aligned (by decide)) (by decide) (by decide) (by decide)
  have saved : effects HookSymbols.saveResults d₅ = some d' := by
    rw [HookSymbols.saveResults, effects_append, stored, Option.bind_some, loaded]
  have saves : m.Reaches (.at (sym.apiHookEntry + 80#32) d₅ calls) (.at (sym.apiHookEntry + 92#32) d' calls) :=
    Machine.reaches_ops save saved (BitVec.add_assoc ..)
  generalize linked : d'.set ra (sym.apiHookEntry + 92#32 + 8) = d₆
  have enters : m.Reaches (.at (sym.apiHookEntry + 92#32) d' calls)
      (.at sym.apiHookReturn (d₆.set a1 (d₆.get sp + BitVec.ofInt 32 4)) calls) := by
    rw [← linked]
    exact Machine.reaches_delayed call rfl rfl
  refine ⟨_, saves.trans enters, ?_, ?_, ?_⟩
  · simp (disch := decide) only [← linked, Data.get_set_of_ne]
    rw [kept sp (by decide), Data.setMem_get, base]
  · simp (disch := decide) only [← linked, Data.get_set_of_ne, Data.get_set_self]
    exact BitVec.add_assoc ..
  · rw [← linked, Data.set_mem, Data.set_mem, same]
    rfl

/-- From the return of `_apiHookReturn` to the caller: `v1` is loaded from the slot of `v0`. -/
theorem stub_returns (entry : Loaded m.code sym.apiHookEntry sym.entryCode) (aligned : Aligned (d.get sp)) {d₇ : Data}
    (base : d₇.get sp = frameBase d) {r₀ : Word} (holds : Holds (frameBase d) [(0, d.get ra), (4, r₀)] d₇.mem)
    (calls : List Called) :
    ∃ d₈, m.Reaches (.at (sym.apiHookEntry + 100#32) d₇ calls) (.at (d.get ra) d₈ calls) ∧ d₈.get v0 = r₀ ∧
      d₈.get v1 = r₀ ∧ d₈.get sp = d.get sp ∧ d₈.get ra = d.get ra := by
  obtain ⟨⟨⟨-, restore⟩, last⟩, leave⟩ := HookSymbols.blocks entry
  simp only [Holds, List.forall_mem_cons] at holds
  obtain ⟨link, first, -⟩ := holds
  obtain ⟨d', restored, loaded, kept, same⟩ := lws_spec [(4, v0), (4, v1)] base
    (inFrame_of_mem aligned (by decide)) (by decide) (by decide) (by decide)
  simp only [List.forall_mem_cons, first] at loaded
  obtain ⟨low, high, -⟩ := loaded
  have base' : d'.get sp = frameBase d := (kept sp (by decide)).trans base
  have linked : effects HookSymbols.restoreRa d' = some (d'.set ra (d.get ra)) := by
    have memory : d'.mem = d₇.mem := by rw [same]
    have slot : Aligned (frameBase d + BitVec.ofNat 32 0) :=
      (inFrame_of_mem aligned (List.Subset.refl _)).slot (show 0 ∈ frameOffsets by decide)
    rw [HookSymbols.restoreRa, effects_one, ← link, ← memory]
    exact effect_lw ra base' slot
  have loads : m.Reaches (.at (sym.apiHookEntry + 100#32) d₇ calls) (.at (sym.apiHookEntry + 108#32) d' calls) :=
    Machine.reaches_ops restore restored (BitVec.add_assoc ..)
  have links : m.Reaches (.at (sym.apiHookEntry + 108#32) d' calls)
      (.at (sym.apiHookEntry + 112#32) (d'.set ra (d.get ra)) calls) :=
    Machine.reaches_ops last linked (BitVec.add_assoc ..)
  have jumps : (Instr.jr ra).exec (.at (sym.apiHookEntry + 112#32) (d'.set ra (d.get ra)) calls) =
      some ⟨sym.apiHookEntry + 112#32 + 4, d.get ra, d'.set ra (d.get ra), calls⟩ := by
    rw [Instr.exec, Data.get_set_self _ _ (by decide)]
  have leaves : m.Reaches (.at (sym.apiHookEntry + 112#32) (d'.set ra (d.get ra)) calls)
      (.at (d.get ra) ((d'.set ra (d.get ra)).set sp ((d'.set ra (d.get ra)).get sp + BitVec.ofInt 32 (4 * 8))) calls) :=
    Machine.reaches_delayed leave jumps rfl
  refine ⟨_, (loads.trans links).trans leaves, ?_, ?_, ?_, ?_⟩
  · simp (disch := decide) only [Data.get_set_of_ne, low]
  · simp (disch := decide) only [Data.get_set_of_ne, high]
  · simp (disch := decide) only [Data.get_set_of_ne, Data.get_set_self, base']
    rw [frameBase, BitVec.add_assoc]
    exact BitVec.add_zero _
  · simp (disch := decide) only [Data.get_set_of_ne, Data.get_set_self]

theorem apiHookHandle_id (hooks : Fin maxIds → ApiHookGeneric) (id : Fin maxIds) :
    apiHookHandle hooks (BitVec.ofNat 32 id) = (hooks id).func := by
  have bound : id.val < 16 := id.isLt
  have value : (BitVec.ofNat 32 id).toInt = id := by
    rw [BitVec.toInt_eq_toNat_of_lt (by rw [BitVec.toNat_ofNat]; omega), BitVec.toNat_ofNat, Nat.mod_eq_of_lt (by omega)]
  rw [apiHookHandle, dif_pos ⟨by omega, by omega⟩]
  exact congrArg (fun i => (hooks i).func) (Fin.ext (by simp only [value, Int.toNat_natCast]))

theorem slots_frame (id : Fin maxIds) (d : Data) : Slots ((frame id d).map Prod.fst) :=
  (⟨by decide, by decide⟩ : Slots frameOffsets)

/-- The whole call, with what the function has been called with. -/
theorem hooked_run (call : HookedCall m sym hooks id f d r₀ r₁) :
    ∃ d₄ d₈ first last, m.Reaches (.at (sym.apiHook id) d [])
        (.at (d.get ra) d₈ [first, ⟨(hooks id).func, d₄, f d₄⟩, last]) ∧
      first.entry = sym.apiHookHandle ∧ last.entry = sym.apiHookReturn ∧ args d₄ = args d ∧ d₈.get v0 = r₀ ∧
      d₈.get v1 = r₀ ∧ d₈.get sp = d.get sp ∧ d₈.get ra = d.get ra := by
  obtain ⟨noHandle, handle, isHandle, handles⟩ := call.handle
  obtain ⟨noRet, ret, isRet, rets⟩ := call.ret
  obtain ⟨d₁, enters, number, base₁, link₁, memory₁⟩ := stub_enters call.entry call.stub call.aligned
  obtain ⟨keeps₁, func⟩ := handles d₁
  rw [number, apiHookHandle_id] at func
  have base₂ := keeps₁.stack.trans base₁
  have holds₂ : Holds (frameBase d) (frame id d) (handle d₁).mem := by
    have holds₁ : Holds (d₁.get sp) (frame id d) d₁.mem := by
      rw [base₁, memory₁]
      exact holds_write _ (slots_frame id d) _
    rw [← base₁]
    exact keeps₁.holds (List.Subset.refl _) holds₁
  obtain ⟨d₄, forwards, same, base₄, link₄, memory₄⟩ := stub_forwards call.entry call.aligned base₂ holds₂
    (by rw [func]; exact call.active) [⟨sym.apiHookHandle, d₁, handle d₁⟩]
  rw [func] at forwards
  have keeps₄ := call.keeps d₄ same base₄
  obtain ⟨low, high⟩ := call.returns d₄ same
  have base₅ := keeps₄.stack.trans base₄
  obtain ⟨d₆, reports, base₆, link₆, memory₆⟩ := stub_reports call.entry call.aligned base₅
    [⟨sym.apiHookHandle, d₁, handle d₁⟩, ⟨(hooks id).func, d₄, f d₄⟩]
  rw [low, high] at memory₆
  have base₇ := (rets d₆).stack.trans base₆
  have holds₇ : Holds (frameBase d) [(0, d.get ra), (4, r₀)] (ret d₆).mem := by
    have linked : (f d₄).mem (frameBase d + BitVec.ofNat 32 0) = d.get ra := by
      rw [← base₄, keeps₄.frame 0 (by decide), memory₄, base₄]
      exact holds₂ (0, d.get ra) List.mem_cons_self
    have holds₆ : Holds (d₆.get sp) [(0, d.get ra), (4, r₀)] d₆.mem := by
      rw [base₆, memory₆]
      have apart : Slots ([(4, r₀), (8, r₁)].map Prod.fst) := (⟨by decide, by decide⟩ : Slots [4, 8])
      intro s member
      obtain rfl | rfl : s = (0, d.get ra) ∨ s = (4, r₀) := by simpa using member
      · rw [write_of_not_mem apart (show 0 < 2 ^ 32 by decide) (show 0 ∉ [4, 8] by decide), linked]
      · exact write_of_mem apart List.mem_cons_self _
    rw [← base₆]
    exact (rets d₆).holds (show [0, 4] ⊆ frameOffsets by decide) holds₆
  obtain ⟨d₈, returns, low₈, high₈, stack, link⟩ := stub_returns call.entry call.aligned base₇ holds₇
    [⟨sym.apiHookHandle, d₁, handle d₁⟩, ⟨(hooks id).func, d₄, f d₄⟩, ⟨sym.apiHookReturn, d₆, ret d₆⟩]
  have handled : m.Reaches (.at sym.apiHookHandle d₁ [])
      (.at (sym.apiHookEntry + 48#32) (handle d₁) [⟨sym.apiHookHandle, d₁, handle d₁⟩]) := by
    rw [← link₁]
    exact Machine.reaches_external noHandle isHandle
  have called : m.Reaches (.at (hooks id).func d₄ [⟨sym.apiHookHandle, d₁, handle d₁⟩])
      (.at (sym.apiHookEntry + 80#32) (f d₄) [⟨sym.apiHookHandle, d₁, handle d₁⟩, ⟨(hooks id).func, d₄, f d₄⟩]) := by
    rw [← link₄]
    exact Machine.reaches_external call.func.1 call.func.2
  have reported : m.Reaches
      (.at sym.apiHookReturn d₆ [⟨sym.apiHookHandle, d₁, handle d₁⟩, ⟨(hooks id).func, d₄, f d₄⟩])
      (.at (sym.apiHookEntry + 100#32) (ret d₆)
        [⟨sym.apiHookHandle, d₁, handle d₁⟩, ⟨(hooks id).func, d₄, f d₄⟩, ⟨sym.apiHookReturn, d₆, ret d₆⟩]) := by
    rw [← link₆]
    exact Machine.reaches_external noRet isRet
  have run := (((((enters.trans handled).trans forwards).trans called).trans reports).trans reported).trans returns
  exact ⟨d₄, d₈, _, _, run, rfl, rfl, same, low₈, high₈, stack, link⟩

theorem equal_of_transparent (call : HookedCall m sym hooks id f d r₀ r₁)
    (transparent : Transparent m (sym.apiHook id) (hooks id).func f d) : r₁ = r₀ := by
  obtain ⟨d₄, d₈, first, last, run, -, -, -, -, high, -⟩ := hooked_run call
  obtain ⟨s, final, -, -, -, -, -, high', -⟩ := transparent
  rw [Machine.eval_eq run call.caller.1 call.caller.2] at final
  rw [Part.mem_some_iff.mp final, high, (call.returns d rfl).2] at high'
  exact high'.symm

/-- A call through the stub is as one without the hook exactly when the function returns the same
word twice. -/
theorem hook_transparent_iff (call : HookedCall m sym hooks id f d r₀ r₁) :
    Transparent m (sym.apiHook id) (hooks id).func f d ↔ r₁ = r₀ := by
  refine ⟨equal_of_transparent call, fun equal => ?_⟩
  obtain ⟨d₄, d₈, first, last, run, handle, ret, same, low, high, stack, link⟩ := hooked_run call
  obtain ⟨low', high'⟩ := call.returns d rfl
  have other : first.entry ≠ (hooks id).func ∧ last.entry ≠ (hooks id).func := by
    rw [handle, ret]
    exact ⟨call.other.1.symm, call.other.2.symm⟩
  have one : [first, ⟨(hooks id).func, d₄, f d₄⟩, last].filter (fun call => call.entry = (hooks id).func) =
      [⟨(hooks id).func, d₄, f d₄⟩] := by
    simp [other.1, other.2]
  rw [Transparent, Machine.eval_eq run call.caller.1 call.caller.2, low', high']
  exact ⟨_, Part.mem_some _, _, one, same, rfl, low, high.trans equal.symm, stack, link⟩

end

/-! ## A hooked function -/

def hookedSymbols : HookSymbols := ⟨fun id => 0x1000 + BitVec.ofNat 32 (8 * id), 0x2000, 0x3000, 0x4000⟩

def hookedOnce (id : Fin maxIds) : ApiHookGeneric := ⟨[], [], 0, if id = 3 then 0x5000 else 0, none, 0, 0⟩

/-- A function that returns two words. -/
def returning (r₀ r₁ : Word) (d : Data) : Data := (d.set v0 r₀).set v1 r₁

def hookedCode : Word → Option Instr :=
  placed [(0x1018, hookedSymbols.hookCode 3), (0x2000, hookedSymbols.entryCode)]

def hookedMachine (r₀ r₁ : Word) : Machine where
  code := hookedCode
  external a :=
    if a = 0x3000 then some fun d => d.set v0 (apiHookHandle hookedOnce (d.get a0))
    else if a = 0x4000 then some fun d => d
    else if a = 0x5000 then some (returning r₀ r₁)
    else none

def callerData : Data where
  gpr r := if r = sp then 0x8000 else if r = ra then 0x6000 else 0
  hi := 0
  lo := 0
  mem _ := 0
  cop0 _ := 0
  ctrl0 _ := 0
  fpr _ := 0
  ctrl1 _ := 0
  vfpu _ _ := 0

theorem hookedCall (r₀ r₁ : Word) :
    HookedCall (hookedMachine r₀ r₁) hookedSymbols hookedOnce 3 (returning r₀ r₁) callerData r₀ r₁ where
  active := by decide
  entry := (by decide +kernel : Loaded hookedCode hookedSymbols.apiHookEntry hookedSymbols.entryCode)
  stub := (by decide +kernel : Loaded hookedCode (hookedSymbols.apiHook 3) (hookedSymbols.hookCode 3))
  handle := ⟨(by decide +kernel : hookedCode 0x3000 = none), _, rfl, fun d =>
    ⟨⟨d.get_set_of_ne _ (by decide), fun _ _ => rfl⟩, d.get_set_self _ (by decide)⟩⟩
  ret := ⟨(by decide +kernel : hookedCode 0x4000 = none), _, rfl, fun _ => ⟨rfl, fun _ _ => rfl⟩⟩
  func := ⟨(by decide +kernel : hookedCode 0x5000 = none), rfl⟩
  other := by decide
  keeps d' _ _ :=
    ⟨((d'.set v0 r₀).get_set_of_ne _ (by decide)).trans (d'.get_set_of_ne _ (by decide)), fun _ _ => rfl⟩
  returns d' _ :=
    ⟨((d'.set v0 r₀).get_set_of_ne _ (by decide)).trans (d'.get_set_self _ (by decide)),
      (d'.set v0 r₀).get_set_self _ (by decide)⟩
  caller := ⟨(by decide +kernel : hookedCode 0x6000 = none), rfl⟩
  aligned := by decide

theorem hook_transparent_iff_word :
    Transparent (hookedMachine 7 7) (hookedSymbols.apiHook 3) (hookedOnce 3).func (returning 7 7) callerData ↔
      (7 : Word) = 7 :=
  hook_transparent_iff (hookedCall 7 7)

/-- The value 7 in 64 bits comes back as 7 in both words. -/
theorem hook_repeats_word :
    ¬ Transparent (hookedMachine 7 0) (hookedSymbols.apiHook 3) (hookedOnce 3).func (returning 7 0) callerData :=
  fun transparent => absurd (equal_of_transparent (hookedCall 7 0) transparent) (by decide)

end Psplink.Kernel
