import Mathlib.Data.List.FinRange
import Mathlib.Data.List.ProdSigma
import Psplink.Exception.Trap

/-!
# Resumes

What `_psplinkExceptionResume` puts back of a trapped thread: all that is in its block but `HI` and
`LO`.
-/

namespace Psplink.Exception
open Psplink.Lib.Mips hiding Word

/-! ## Threads -/

/-- A general register of the thread: `v0` and `v1` are in control registers when the handler is entered. -/
def threadGpr (h : Data) (r : Gpr) : Word := if r = v0 then h.ctrl0 4 else if r = v1 then h.ctrl0 5 else h.get r

/-- A thread has what it trapped with, all but what `fsrMask` leaves out of `fsr`. -/
structure Restored (h e : Data) : Prop where
  gpr : ∀ r ≠ zero, e.get r = threadGpr h r
  hi : e.hi = h.hi
  lo : e.lo = h.lo
  fpr : enabled cu1 (h.ctrl0 2) ≠ 0 → e.fpr = h.fpr
  fsr : enabled cu1 (h.ctrl0 2) ≠ 0 → e.ctrl1 fsr = h.ctrl1 fsr &&& fsrMask
  vfpu : enabled cu2 (h.ctrl0 2) ≠ 0 → e.vfpu = h.vfpu

/-- What was trapped with `t` resumes with `u`: the block at `c` is as it was. -/
structure Resumes (sym : ExSymbols) (c : Word) (t u : Data) : Prop where
  breaks : u.cop0 epc = sym.psplinkResumeFromException
  context : u.get a0 = c
  unedited : ∀ i < regWords, u.mem (c + 8#32 + BitVec.ofNat 32 (4 * i)) = t.mem (c + 8#32 + BitVec.ofNat 32 (4 * i))

/-- The thread goes on where it trapped, with what it had. -/
def Transparent (m : Machine) (sym : ExSymbols) (h u : Data) : Prop :=
  ∃ s ∈ StateTransition.eval m.step (.at sym.psplinkDefaultExHandler u []), s.pc = h.ctrl0 0 ∧ Restored h s.data

/-! ## Restoring -/

section

variable {sym : ExSymbols} {m : Machine} {h u d : Data} {c type : Word} {mem : Word → Word}

theorem gprRecord_eq (h : Data) : gprRecord h = (gprSlots 0).map fun s => (s.1, threadGpr h s.2) := rfl

theorem mem_record_gpr (h : Data) (type : Word) (r : Gpr) : (Reg.ofs (.r r), threadGpr h r) ∈ record h type := by
  have slot : (Reg.ofs (.r r), r) ∈ gprSlots 0 := List.mem_map.mpr ⟨r, List.mem_finRange r, rfl⟩
  have saved : (Reg.ofs (.r r), threadGpr h r) ∈ gprRecord h := by
    rw [gprRecord_eq]
    exact List.mem_map.mpr ⟨_, slot, rfl⟩
  simp only [record, List.mem_append, saved, true_or]

theorem mem_record_epc (h : Data) (type : Word) : (Reg.ofs .epc, h.ctrl0 0) ∈ record h type := by
  have saved : (Reg.ofs .epc, h.ctrl0 0) ∈ cop0Record h := by simp only [cop0Record, List.mem_cons, true_or, or_true]
  simp only [record, List.mem_append, saved, true_or, or_true]

theorem mem_record_status (h : Data) (type : Word) : (Reg.ofs .status, h.ctrl0 2) ∈ record h type := by
  have saved : (Reg.ofs .status, h.ctrl0 2) ∈ cop0Record h := by simp only [cop0Record, List.mem_cons, true_or, or_true]
  simp only [record, List.mem_append, saved, true_or, or_true]

theorem mem_record_fpu (h : Data) (type : Word) (on : enabled cu1 (h.ctrl0 2) ≠ 0) {s : Nat × Word}
    (slot : s ∈ (fprSlots.map fun s => (s.1, h.fpr s.2)) ++ [(Reg.ofs .fsr, h.ctrl1 fsr), (Reg.ofs .fir, h.ctrl1 fir)]) :
    s ∈ record h type := by
  have saved : s ∈ fpuRecord h := by rwa [fpuRecord, if_neg on]
  simp only [record, List.mem_append, saved, true_or, or_true]

theorem mem_record_vfpu (h : Data) (type : Word) (on : enabled cu2 (h.ctrl0 2) ≠ 0) {s : Nat × Word}
    (slot : s ∈ columnSlots h.vfpu vfpuColumns) : s ∈ record h type := by
  have saved : s ∈ vfpuRecord h := by rwa [vfpuRecord, if_neg on]
  simp only [record, List.mem_append, saved, true_or, or_true]

/-- The thread `u` is being restored from the block of the context `c`. -/
structure Restoring (u : Data) (c : Word) (mem : Word → Word) (d : Data) : Prop where
  aligned : Aligned c
  base : d.get v0 = c + 8#32
  memory : d.mem = mem
  hi : d.hi = u.hi
  lo : d.lo = u.lo

namespace Restoring

theorem set (restoring : Restoring u c mem d) {r : Gpr} (other : v0 ≠ r) (w : Word) : Restoring u c mem (d.set r w) :=
  ⟨restoring.aligned, (d.get_set_of_ne w other).trans restoring.base, restoring.memory, restoring.hi, restoring.lo⟩

theorem lw (restoring : Restoring u c mem d) (r : Gpr) {k : Nat} {w : Word} (multiple : k % 4 = 0)
    (saved : mem (c + 8#32 + BitVec.ofNat 32 k) = w) : (Op.lw r k v0).effect d = some (d.set r w) := by
  have aligned : Aligned (c + 8#32 + BitVec.ofNat 32 k) :=
    (inBlock restoring.aligned (show ∀ k' ∈ [k], k' % 4 = 0 by simpa using multiple)).slot List.mem_cons_self
  rw [effect_lw r restoring.base aligned, restoring.memory, saved]

/-- The test of an enable bit in the `status` that was saved. -/
theorem test (restoring : Restoring u c mem d) (saved : Holds (c + 8#32) (record h type) mem) (bit : BitVec 16) :
    ∃ d', effects (ExSymbols.testStatus bit) d = some d' ∧ Restoring u c mem d' ∧
      d'.get a0 = enabled bit (h.ctrl0 2) ∧ d'.vfpu = d.vfpu := by
  generalize tested : ((d.set v1 (h.ctrl0 2)).set a0 (bit ++ (0 : BitVec 16))).set a0 (enabled bit (h.ctrl0 2)) = d₁
  have status : (Op.lw v1 (Reg.ofs .status) v0).effect d = some (d.set v1 (h.ctrl0 2)) :=
    restoring.lw v1 (by decide) (saved _ (mem_record_status h type))
  have lifted : (Op.lui a0 bit).effect (d.set v1 (h.ctrl0 2)) =
      some ((d.set v1 (h.ctrl0 2)).set a0 (bit ++ (0 : BitVec 16))) := rfl
  have masked : (Op.and a0 a0 v1).effect ((d.set v1 (h.ctrl0 2)).set a0 (bit ++ (0 : BitVec 16))) = some d₁ := by
    rw [← tested, Op.effect]
    simp (disch := decide) only [Data.get_set_of_ne, Data.get_set_self, enabled]
  refine ⟨d₁, ?_, ?_, ?_, ?_⟩
  · rw [ExSymbols.testStatus, effects, status, Option.bind_some, effects, lifted, Option.bind_some, effects_one, masked]
  · rw [← tested]
    exact ((restoring.set (by decide) _).set (by decide) _).set (by decide) _
  · rw [← tested]
    exact Data.get_set_self _ _ (by decide)
  · rw [← tested]
    rfl

end Restoring

/-- From the break to the first test: the context is free again. -/
theorem resume_enters (default : Loaded m.code sym.psplinkDefaultExHandler sym.defaultCode) (loaded : ResumeLoaded m sym)
    (breaks : u.cop0 epc = sym.psplinkResumeFromException) (context : u.get a0 = c) (aligned : Aligned c) :
    ∃ d, m.Reaches (.at sym.psplinkDefaultExHandler u []) (.at (sym.exceptionResume + 12#32) d []) ∧
      Restoring u c (write c [(0, 0)] u.mem) d := by
  simp only [ExSymbols.defaultCode, List.flatten_cons, List.flatten_nil, loaded_append, List.length_map,
    ExSymbols.defaultEntry, List.length_cons, List.length_nil, Nat.reduceAdd, Nat.reduceMul] at default
  obtain ⟨entry, branch, -⟩ := default
  generalize tested : (u.set v1 sym.psplinkResumeFromException).set v0 (u.cop0 epc) = d₁
  have enters : m.Reaches (.at sym.psplinkDefaultExHandler u []) (.at (sym.psplinkDefaultExHandler + 16#32) d₁ []) := by
    rw [← tested]
    exact Machine.reaches_ops entry rfl rfl
  have equal : d₁.get v0 = d₁.get v1 := by
    simp (disch := decide) only [← tested, Data.get_set_of_ne, Data.get_set_self]
    exact breaks
  have goes : m.Reaches (.at (sym.psplinkDefaultExHandler + 16#32) d₁ []) (.at sym.exceptionResume d₁ []) :=
    Machine.reaches_beq branch equal rfl
  have context₁ : d₁.get a0 = c := by
    simp (disch := decide) only [← tested, Data.get_set_of_ne, context]
  have memory₁ : d₁.mem = u.mem := by
    rw [← tested]
    rfl
  generalize freed : (d₁.set v0 c).setMem (write c [(0, 0)] u.mem) = d₂
  have moved : (Op.move v0 a0).effect d₁ = some (d₁.set v0 c) := by rw [Op.effect, context₁]
  have stored : (Op.sw zero 0 v0).effect (d₁.set v0 c) = some d₂ := by
    have saved := effect_sw (k := 0) zero (d₁.get_set_self c (show v0 ≠ zero by decide))
      (by rw [BitVec.add_zero]; exact aligned)
    rwa [Data.set_mem, memory₁, Data.get_zero, freed] at saved
  have base : d₂.get v0 = c := by
    rw [← freed]
    exact d₁.get_set_self c (by decide)
  have skipped : (Op.addiu v0 v0 8).effect d₂ = some (d₂.set v0 (c + 8#32)) := by
    rw [Op.effect, base]
    rfl
  have released : effects ExSymbols.release d₁ = some (d₂.set v0 (c + 8#32)) := by
    rw [ExSymbols.release, effects, moved, Option.bind_some, effects, stored, Option.bind_some, effects_one, skipped]
  refine ⟨_, (enters.trans goes).trans (Machine.reaches_ops loaded.release released rfl), aligned,
    d₂.get_set_self _ (by decide), ?_, ?_, ?_⟩
  all_goals
    rw [← freed, ← tested]
    rfl

theorem nodup_vfpuColumns : (vfpuColumns.map Prod.snd).Nodup := by
  have columns : vfpuColumns.map Prod.snd = List.finRange 8 ×ˢ List.finRange 4 := by
    rw [vfpuColumns, List.map_flatMap]
    simp only [List.map_map]
    rfl
  rw [columns]
  exact (List.nodup_finRange 8).product (List.nodup_finRange 4)

theorem nodup_fprSlots : (fprSlots.map Prod.snd).Nodup := by
  have registers : fprSlots.map Prod.snd = List.finRange 32 := (List.map_map ..).trans (List.map_id _)
  rw [registers]
  exact List.nodup_finRange 32

/-- The matrices are put back if they are enabled. -/
theorem restores_vfpu (loaded : ResumeLoaded m sym) (restoring : Restoring u c mem d)
    (saved : Holds (c + 8#32) (record h type) mem) :
    ∃ d', m.Reaches (.at (sym.exceptionResume + 12#32) d []) (.at sym.resumeNoVfpu d' []) ∧ Restoring u c mem d' ∧
      (enabled cu2 (h.ctrl0 2) ≠ 0 → d'.vfpu = h.vfpu) := by
  obtain ⟨d₁, tests, restoring₁, bit, -⟩ := restoring.test saved cu2
  have test : m.Reaches (.at (sym.exceptionResume + 12#32) d []) (.at (sym.exceptionResume + 24#32) d₁ []) :=
    Machine.reaches_ops loaded.testVfpu tests (BitVec.add_assoc ..)
  by_cases off : enabled cu2 (h.ctrl0 2) = 0
  · exact ⟨d₁, test.trans (Machine.reaches_beq loaded.ifNoVfpu (by rw [bit, off]; rfl) rfl), restoring₁, absurd off⟩
  · have on : m.Reaches (.at (sym.exceptionResume + 24#32) d₁ []) (.at (sym.exceptionResume + 32#32) d₁ []) :=
      Machine.reaches_beq_not loaded.ifNoVfpu (by rw [bit]; exact off) rfl (BitVec.add_assoc ..)
    have loads := effects_ulvqs restoring₁.base
      (inBlock restoring₁.aligned (show ∀ k ∈ vfpuColumns.map Prod.fst, k % 4 = 0 by decide))
    refine ⟨_, (test.trans on).trans (Machine.reaches_ops loaded.restoreVfpu loads (BitVec.add_assoc ..)),
      ⟨restoring₁.aligned, restoring₁.base, restoring₁.memory, restoring₁.hi, restoring₁.lo⟩, fun _ => ?_⟩
    funext i
    -- every column of every matrix has its slot
    have slot : (Reg.ofs (.vfpu 0) + 16 * (4 * i.1.val + i.2.val), i) ∈ vfpuColumns :=
      List.mem_flatMap.mpr ⟨i.1, List.mem_finRange _, List.mem_map.mpr ⟨i.2, List.mem_finRange _, rfl⟩⟩
    generalize Reg.ofs (.vfpu 0) + 16 * (4 * i.1.val + i.2.val) = k at slot
    have nodup : ((vfpuColumns.map fun s => (s.2, fun j : Fin 4 =>
        d₁.mem (c + 8#32 + BitVec.ofNat 32 s.1 + BitVec.ofNat 32 (4 * j)))).map Prod.fst).Nodup := by
      rw [List.map_map]
      exact nodup_vfpuColumns
    refine (updates_of_mem nodup (List.mem_map.mpr ⟨_, slot, rfl⟩) _).trans (funext fun j => ?_)
    have word : (k + 4 * j.val, h.vfpu i j) ∈ columnSlots h.vfpu vfpuColumns := by
      exact List.mem_flatMap.mpr ⟨_, slot, List.mem_map.mpr ⟨(4 * j.val, h.vfpu i j), mem_column _ j, rfl⟩⟩
    rw [restoring₁.memory, BitVec.add_assoc (c + 8#32), ← BitVec.ofNat_add]
    exact saved _ (mem_record_vfpu h type off word)

/-- The floating-point registers are put back if they are enabled, `fsr` under its mask. -/
theorem restores_fpu (loaded : ResumeLoaded m sym) (restoring : Restoring u c mem d)
    (saved : Holds (c + 8#32) (record h type) mem) :
    ∃ d', m.Reaches (.at sym.resumeNoVfpu d []) (.at sym.resumeNoFpu d' []) ∧ Restoring u c mem d' ∧
      d'.vfpu = d.vfpu ∧ (enabled cu1 (h.ctrl0 2) ≠ 0 → d'.fpr = h.fpr ∧ d'.ctrl1 fsr = h.ctrl1 fsr &&& fsrMask) := by
  obtain ⟨d₁, tests, restoring₁, bit, vfpu⟩ := restoring.test saved cu1
  have test : m.Reaches (.at sym.resumeNoVfpu d []) (.at (sym.exceptionResume + 172#32) d₁ []) :=
    Machine.reaches_ops loaded.testFpu tests (BitVec.add_assoc ..)
  by_cases off : enabled cu1 (h.ctrl0 2) = 0
  · exact ⟨d₁, test.trans (Machine.reaches_beq loaded.ifNoFpu (by rw [bit, off]; rfl) rfl), restoring₁, vfpu, absurd off⟩
  · have on : m.Reaches (.at (sym.exceptionResume + 172#32) d₁ []) (.at (sym.exceptionResume + 180#32) d₁ []) :=
      Machine.reaches_beq_not loaded.ifNoFpu (by rw [bit]; exact off) rfl (BitVec.add_assoc ..)
    have fprs := effects_lwc1s restoring₁.base
      (inBlock restoring₁.aligned (show ∀ k ∈ fprSlots.map Prod.fst, k % 4 = 0 by decide))
    generalize filled :
      updates (fprSlots.map fun s => (s.2, d₁.mem (c + 8#32 + BitVec.ofNat 32 s.1))) d₁.fpr = fpr at fprs
    have same : fpr = h.fpr := by
      rw [← filled, restoring₁.memory]
      funext r
      have slot : (Reg.ofs (.fpr r), r) ∈ fprSlots := List.mem_map.mpr ⟨r, List.mem_finRange r, rfl⟩
      have nodup : ((fprSlots.map fun s => (s.2, mem (c + 8#32 + BitVec.ofNat 32 s.1))).map Prod.fst).Nodup := by
        rw [List.map_map]
        exact nodup_fprSlots
      refine (updates_of_mem nodup (List.mem_map.mpr ⟨_, slot, rfl⟩) _).trans ?_
      exact saved _ (mem_record_fpu h type off (List.mem_append_left _ (List.mem_map.mpr ⟨_, slot, rfl⟩)))
    have restoring₂ : Restoring u c mem { d₁ with fpr := fpr } :=
      ⟨restoring₁.aligned, restoring₁.base, restoring₁.memory, restoring₁.hi, restoring₁.lo⟩
    have control : (Op.lw t0 (Reg.ofs .fsr) v0).effect { d₁ with fpr := fpr } =
        some (({ d₁ with fpr := fpr } : Data).set t0 (h.ctrl1 fsr)) :=
      restoring₂.lw t0 (by decide) (saved _ (mem_record_fpu h type off
        (List.mem_append_right _ List.mem_cons_self)))
    generalize loadedControl : ({ d₁ with fpr := fpr } : Data).set t0 (h.ctrl1 fsr) = d₂ at control
    generalize masked : (d₂.set t1 fsrMask).set t0 (h.ctrl1 fsr &&& fsrMask) = d₃
    have mask : (Op.and t0 t0 t1).effect (d₂.set t1 fsrMask) = some d₃ := by
      rw [← masked, Op.effect, ← loadedControl]
      simp (disch := decide) only [Data.get_set_of_ne, Data.get_set_self]
    have restoring₃ : Restoring u c mem d₃ := by
      rw [← masked, ← loadedControl]
      exact ((restoring₂.set (by decide) _).set (by decide) _).set (by decide) _
    have value : d₃.get t0 = h.ctrl1 fsr &&& fsrMask := by
      rw [← masked]
      exact Data.get_set_self _ _ (by decide)
    have moves : (Op.ctc1 t0 fsr).effect d₃ =
        some { d₃ with ctrl1 := Function.update d₃.ctrl1 fsr (h.ctrl1 fsr &&& fsrMask) } := by
      rw [Op.effect, value]
    have restored : effects ExSymbols.restoreFpu d₁ =
        some { d₃ with ctrl1 := Function.update d₃.ctrl1 fsr (h.ctrl1 fsr &&& fsrMask) } := by
      have immediate : (Op.li t1 fsrMask).effect d₂ = some (d₂.set t1 fsrMask) := rfl
      rw [ExSymbols.restoreFpu, effects_append, fprs, Option.bind_some, effects, control, Option.bind_some, effects,
        immediate, Option.bind_some, effects, mask, Option.bind_some, effects_one, moves]
    refine ⟨_, (test.trans on).trans (Machine.reaches_ops loaded.restoreFpu restored (BitVec.add_assoc ..)),
      ⟨restoring₃.aligned, restoring₃.base, restoring₃.memory, restoring₃.hi, restoring₃.lo⟩, ?_, fun _ => ⟨?_, ?_⟩⟩
    · rw [← vfpu, ← masked, ← loadedControl]
      rfl
    · rw [← same, ← masked, ← loadedControl]
      rfl
    · exact Function.update_self fsr (h.ctrl1 fsr &&& fsrMask) d₃.ctrl1

theorem gpr_slot : ∀ r : Gpr, r ≠ zero → r ≠ 1 → r ≠ v0 → (Reg.ofs (.r r), r) ∈ gprSlots 3 := by decide +kernel

/-- The general registers come last, `v0` after all others; the saved `EPC` is then in its place. -/
theorem effects_restoreGprs (restoring : Restoring u c mem d) (saved : Holds (c + 8#32) (record h type) mem) :
    ∃ e, effects ExSymbols.restoreGprs d = some e ∧ (∀ r ≠ zero, e.get r = threadGpr h r) ∧ e.cop0 epc = h.ctrl0 0 ∧
      e.hi = u.hi ∧ e.lo = u.lo ∧ e.fpr = d.fpr ∧ e.ctrl1 = d.ctrl1 ∧ e.vfpu = d.vfpu := by
  obtain ⟨d₁, gprs, loads, kept, same⟩ := lws_spec (gprSlots 3) restoring.base
    (inBlock restoring.aligned (by decide)) (by decide) (by decide +kernel) (by decide)
  have restoring₁ : Restoring u c mem d₁ := by
    refine ⟨restoring.aligned, (kept v0 (by decide)).trans restoring.base, ?_, ?_, ?_⟩
    · rw [same]
      exact restoring.memory
    · rw [same]
      exact restoring.hi
    · rw [same]
      exact restoring.lo
  have place : (Op.lw 1 (Reg.ofs .epc) v0).effect d₁ = some (d₁.set 1 (h.ctrl0 0)) :=
    restoring₁.lw 1 (by decide) (saved _ (mem_record_epc h type))
  generalize left : ({ d₁.set 1 (h.ctrl0 0) with cop0 := Function.update d₁.cop0 epc (h.ctrl0 0) } : Data) = d₂
  have moves : (Op.mtc0 1 epc).effect (d₁.set 1 (h.ctrl0 0)) = some d₂ := by
    rw [← left, Op.effect, Data.get_set_self _ _ (by decide)]
    rfl
  have restoring₂ : Restoring u c mem d₂ := by
    have placed := restoring₁.set (show v0 ≠ (1 : Gpr) by decide) (h.ctrl0 0)
    rw [← left]
    exact ⟨placed.aligned, placed.base, placed.memory, placed.hi, placed.lo⟩
  have first : (Op.lw 1 (Reg.ofs (.r 1)) v0).effect d₂ = some (d₂.set 1 (threadGpr h 1)) :=
    restoring₂.lw 1 (by decide) (saved _ (mem_record_gpr h type 1))
  have last : (Op.lw v0 (Reg.ofs (.r 2)) v0).effect (d₂.set 1 (threadGpr h 1)) =
      some ((d₂.set 1 (threadGpr h 1)).set v0 (threadGpr h 2)) :=
    (restoring₂.set (by decide) _).lw v0 (by decide) (saved _ (mem_record_gpr h type 2))
  refine ⟨(d₂.set 1 (threadGpr h 1)).set v0 (threadGpr h 2), ?_, fun r some => ?_, ?_, ?_, ?_, ?_, ?_, ?_⟩
  · have first' : effects (lws v0 [(Reg.ofs (.r 1), 1)]) d₂ = some (d₂.set 1 (threadGpr h 1)) :=
      (effects_one _ _).trans first
    rw [ExSymbols.restoreGprs, effects_append, effects_append, effects_append, gprs, Option.bind_some, effects, place,
      Option.bind_some, effects_one, moves, Option.bind_some, first', Option.bind_some, effects, last, Option.bind_some]
    rfl
  · by_cases second : r = v0
    · rw [second]
      exact Data.get_set_self _ _ (by decide)
    · rw [Data.get_set_of_ne _ _ second]
      by_cases one : r = 1
      · rw [one]
        exact Data.get_set_self _ _ (by decide)
      · have other : d₂.get r = d₁.get r := by
          rw [← left]
          exact Data.get_set_of_ne _ _ one
        rw [Data.get_set_of_ne _ _ one, other, loads _ (gpr_slot r some one second), restoring.memory]
        exact saved _ (mem_record_gpr h type r)
  · rw [← left]
    exact Function.update_self epc (h.ctrl0 0) d₁.cop0
  · exact restoring₂.hi
  · exact restoring₂.lo
  all_goals
    rw [← left, same]
    rfl

theorem resume_run (trapped : Trapped m sym h c) (aligned : Aligned c) (breaks : u.cop0 epc = sym.psplinkResumeFromException)
    (context : u.get a0 = c) (saved : Holds (c + 8#32) (record h type) u.mem) :
    ∃ e, m.Reaches (.at sym.psplinkDefaultExHandler u []) (.at (h.ctrl0 0) e []) ∧ e.hi = u.hi ∧ e.lo = u.lo ∧
      (u.hi = h.hi → u.lo = h.lo → Restored h e) := by
  have loaded := ExSymbols.resume_blocks trapped.resume
  obtain ⟨d₁, enters, restoring₁⟩ := resume_enters trapped.default loaded breaks context aligned
  have saved₁ : Holds (c + 8#32) (record h type) (write c [(0, 0)] u.mem) := by
    intro s member
    have inside := recordOffsets_inBlock s.1 ((record_sublist h type).subset (List.mem_map_of_mem member))
    have small : 8 + s.1 < 2 ^ 32 := by
      have words := inside.2
      unfold regWords at words
      omega
    have apart : Slots ([(0, (0 : Word))].map Prod.fst) := (⟨by decide, by decide⟩ : Slots [0])
    rw [← saved s member, BitVec.add_assoc, ← BitVec.ofNat_add]
    exact write_of_not_mem apart small (by simp) _
  obtain ⟨d₂, vfpu, restoring₂, matrices⟩ := restores_vfpu loaded restoring₁ saved₁
  obtain ⟨d₃, fpu, restoring₃, kept, floats⟩ := restores_fpu loaded restoring₂ saved₁
  obtain ⟨e, restored, gprs, place, hi, lo, fpr, ctrl1, vfpu'⟩ := effects_restoreGprs restoring₃ saved₁
  have loads : m.Reaches (.at sym.resumeNoFpu d₃ []) (.at (sym.exceptionResume + 464#32) e []) :=
    Machine.reaches_ops loaded.restoreGprs restored (BitVec.add_assoc ..)
  have erets : m.Reaches (.at (sym.exceptionResume + 464#32) e []) (.at (e.cop0 epc) e []) :=
    Machine.reaches_eret loaded.eret
  rw [place] at erets
  refine ⟨e, enters.trans (vfpu.trans (fpu.trans (loads.trans erets))), hi, lo, fun high low => ?_⟩
  exact
    { gpr := gprs
      hi := hi.trans high
      lo := lo.trans low
      fpr := fun on => fpr.trans (floats on).1
      fsr := fun on => (congrFun ctrl1 fsr).trans (floats on).2
      vfpu := fun on => (vfpu'.trans kept).trans (matrices on) }

theorem Resumes.holds {t : Data} (resumes : Resumes sym c t u) (saved : Holds (c + 8#32) (record h type) t.mem) :
    Holds (c + 8#32) (record h type) u.mem := fun s member => by
  obtain ⟨multiple, inside⟩ := recordOffsets_inBlock s.1 ((record_sublist h type).subset (List.mem_map_of_mem member))
  have word : s.1 = 4 * (s.1 / 4) := by omega
  rw [word, resumes.unedited _ inside, ← word]
  exact saved s member

/-- A transparent resume has left `HI` and `LO` as it found them. -/
theorem kept_of_transparent {t : Data} (trapped : Trapped m sym h c) (aligned : Aligned c)
    (saved : Holds (c + 8#32) (record h type) t.mem) (resumes : Resumes sym c t u)
    (transparent : Transparent m sym h u) : u.hi = h.hi ∧ u.lo = h.lo := by
  obtain ⟨e, run, hi, lo, -⟩ := resume_run trapped aligned resumes.breaks resumes.context (resumes.holds saved)
  obtain ⟨s, final, -, restored⟩ := transparent
  rw [Machine.eval_eq run trapped.thread.1 trapped.thread.2] at final
  have last := Part.mem_some_iff.mp final
  subst last
  exact ⟨hi.symm.trans restored.hi, lo.symm.trans restored.lo⟩

/-- A trap whose context is left unedited is transparent exactly when `HI` and `LO` are as the thread left
them. -/
theorem trap_transparent_iff (trapped : Trapped m sym h c) :
    ∃ t, StateTransition.eval m.step (.at sym.psplinkDefaultExHandler h []) = Part.some (.at sym.psplinkTrap t []) ∧
      t.get a0 = c ∧ ∀ u, Resumes sym c t u → (Transparent m sym h u ↔ u.hi = h.hi ∧ u.lo = h.lo) := by
  obtain ⟨t, type, run, context, aligned, saved⟩ := trap_run trapped
  refine ⟨t, Machine.eval_eq run trapped.trap.1 trapped.trap.2, context, fun u resumes =>
    ⟨kept_of_transparent trapped aligned saved resumes, fun kept => ?_⟩⟩
  obtain ⟨e, resumed, -, -, restored⟩ :=
    resume_run trapped aligned resumes.breaks resumes.context (resumes.holds saved)
  rw [Transparent, Machine.eval_eq resumed trapped.thread.1 trapped.thread.2]
  exact ⟨_, Part.mem_some _, rfl, restored kept.1 kept.2⟩

end

/-! ## A trap -/

def placedSymbols : ExSymbols := ⟨0x1000, 0x2000, 0x3000, 0x4000, 0x5000, 0x8000, 0x7000⟩

def placedHandlers : Machine where
  code := placed [(0x1000, placedSymbols.defaultCode), (0x2000, placedSymbols.handlerCode),
    (0x3000, placedSymbols.resumeCode)]
  external _ := none

/-- A thread at 0x6000, with everything enabled. -/
def trappedThread : Data where
  gpr r := 0x100 + BitVec.ofNat 32 r
  hi := 3
  lo := 4
  mem _ := 0
  cop0 r := if r = epc then 0x6000 else 0
  ctrl0 r := if r = 0 then 0x6000 else if r = 2 then 0x60000000 else 0
  fpr r := 0x200 + BitVec.ofNat 32 r
  ctrl1 _ := 0
  vfpu _ i := 0x300 + BitVec.ofNat 32 i

theorem trapped_thread : Trapped placedHandlers placedSymbols trappedThread 0x8000 where
  default := (by decide +kernel : Loaded placedHandlers.code 0x1000 placedSymbols.defaultCode)
  handler := (by decide +kernel : Loaded placedHandlers.code 0x2000 placedSymbols.handlerCode)
  resume := (by decide +kernel : Loaded placedHandlers.code 0x3000 placedSymbols.resumeCode)
  trap := ⟨(by decide +kernel : placedHandlers.code 0x5000 = none), rfl⟩
  thread := ⟨(by decide +kernel : placedHandlers.code 0x6000 = none), rfl⟩
  aligned := by decide
  normal := by decide
  context := .here (by decide) (by decide) (by decide)

/-- What resumes what has trapped with `t`, with other words in `HI` and `LO`. -/
def resuming (t : Data) (hi lo : Word) : Data :=
  { t with hi := hi, lo := lo, cop0 := fun _ => placedSymbols.psplinkResumeFromException }

theorem resumes_resuming {t : Data} {c : Word} (context : t.get a0 = c) (hi lo : Word) :
    Resumes placedSymbols c t (resuming t hi lo) := ⟨rfl, context, fun _ _ => rfl⟩

theorem trap_transparent_iff_kept :
    ∃ t, t.get a0 = 0x8000 ∧ Resumes placedSymbols 0x8000 t (resuming t 3 4) ∧
      Transparent placedHandlers placedSymbols trappedThread (resuming t 3 4) := by
  obtain ⟨t, -, context, transparent⟩ := trap_transparent_iff trapped_thread
  exact ⟨t, context, resumes_resuming context 3 4, (transparent _ (resumes_resuming context 3 4)).mpr ⟨rfl, rfl⟩⟩

/-- After a multiplication in between, the thread goes on with its product in `LO`. -/
theorem trap_loses_lo :
    ∃ t, StateTransition.eval placedHandlers.step (.at placedSymbols.psplinkDefaultExHandler trappedThread []) =
        Part.some (.at placedSymbols.psplinkTrap t []) ∧ Resumes placedSymbols 0x8000 t (resuming t 3 6) ∧
      ¬ Transparent placedHandlers placedSymbols trappedThread (resuming t 3 6) := by
  obtain ⟨t, type, run, context, aligned, saved⟩ := trap_run trapped_thread
  have resumes := resumes_resuming context 3 6
  refine ⟨t, Machine.eval_eq run trapped_thread.trap.1 trapped_thread.trap.2, resumes, fun transparent => ?_⟩
  have lo : (6 : Word) = 4 := (kept_of_transparent trapped_thread aligned saved resumes transparent).2
  exact absurd lo (by decide)

end Psplink.Exception
