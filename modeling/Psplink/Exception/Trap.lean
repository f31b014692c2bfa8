import Mathlib.Data.List.Sort
import Psplink.Exception.Handlers

/-!
# Traps and resumes

What the handlers save of a thread, and what of it they restore.
-/

namespace Psplink.Exception
open Psplink.Lib.Mips hiding Word

/-! ## Loaded handlers -/

/-- Where the pieces of `psplinkExceptionHandler` are. -/
structure HandlerLoaded (m : Machine) (sym : ExSymbols) : Prop where
  firstContext : Loaded m.code sym.psplinkExceptionHandler (sym.firstContext.map .op)
  ifNone : Loaded m.code sym.scan sym.ifNone
  loadValid : Loaded m.code (sym.psplinkExceptionHandler + 12#32) (ExSymbols.loadValid.map .op)
  ifTaken : Loaded m.code (sym.psplinkExceptionHandler + 16#32) sym.ifTaken
  take : Loaded m.code (sym.psplinkExceptionHandler + 24#32) (ExSymbols.take.map .op)
  saveGprs : Loaded m.code (sym.psplinkExceptionHandler + 36#32) (ExSymbols.saveGprs.map .op)
  saveCop0 : Loaded m.code (sym.psplinkExceptionHandler + 172#32) (ExSymbols.saveCop0.map .op)
  saveType : Loaded m.code (sym.psplinkExceptionHandler + 220#32) (sym.saveType.map .op)
  ifNoFpu : Loaded m.code (sym.psplinkExceptionHandler + 240#32) sym.ifNoFpu
  saveFpu : Loaded m.code (sym.psplinkExceptionHandler + 248#32) (ExSymbols.saveFpu.map .op)
  testVfpu : Loaded m.code sym.noFpu (ExSymbols.testVfpu.map .op)
  ifNoVfpu : Loaded m.code (sym.psplinkExceptionHandler + 408#32) sym.ifNoVfpu
  saveVfpu : Loaded m.code (sym.psplinkExceptionHandler + 416#32) (ExSymbols.saveVfpu.map .op)
  saveFp : Loaded m.code sym.noVfpu (ExSymbols.saveFp.map .op)
  toTrap : Loaded m.code sym.exit (sym.toTrap.map .op)
  eret : m.code (sym.psplinkExceptionHandler + 572#32) = some .eret

/-- Where those of `_psplinkExceptionResume` are. -/
structure ResumeLoaded (m : Machine) (sym : ExSymbols) : Prop where
  release : Loaded m.code sym.exceptionResume (ExSymbols.release.map .op)
  testVfpu : Loaded m.code (sym.exceptionResume + 12#32) ((ExSymbols.testStatus cu2).map .op)
  ifNoVfpu : Loaded m.code (sym.exceptionResume + 24#32) sym.ifResumeNoVfpu
  restoreVfpu : Loaded m.code (sym.exceptionResume + 32#32) (ExSymbols.restoreVfpu.map .op)
  testFpu : Loaded m.code sym.resumeNoVfpu ((ExSymbols.testStatus cu1).map .op)
  ifNoFpu : Loaded m.code (sym.exceptionResume + 172#32) sym.ifResumeNoFpu
  restoreFpu : Loaded m.code (sym.exceptionResume + 180#32) (ExSymbols.restoreFpu.map .op)
  restoreGprs : Loaded m.code sym.resumeNoFpu (ExSymbols.restoreGprs.map .op)
  eret : m.code (sym.exceptionResume + 464#32) = some .eret

namespace ExSymbols

variable {sym : ExSymbols} {m : Machine}

theorem length_saveGprs : saveGprs.length = 34 := by decide +kernel
theorem length_saveCop0 : saveCop0.length = 12 := by decide +kernel
theorem length_saveFpu : saveFpu.length = 37 := by decide +kernel
theorem length_saveVfpu : saveVfpu.length = 32 := by decide +kernel
theorem length_restoreVfpu : restoreVfpu.length = 32 := by decide +kernel
theorem length_restoreFpu : restoreFpu.length = 36 := by decide +kernel
theorem length_restoreGprs : restoreGprs.length = 35 := by decide +kernel

theorem handler_blocks (loaded : Loaded m.code sym.psplinkExceptionHandler sym.handlerCode) : HandlerLoaded m sym := by
  simp only [handlerCode, List.flatten_cons, List.flatten_nil, loaded_append, List.length_map, firstContext, ifNone,
    loadValid, ifTaken, take, length_saveGprs, length_saveCop0, saveType, ifNoFpu, length_saveFpu, testVfpu, ifNoVfpu,
    length_saveVfpu, saveFp, toTrap, List.length_cons, List.length_nil, Nat.reduceAdd, Nat.reduceMul, BitVec.add_assoc,
    BitVec.reduceAdd] at loaded
  obtain ⟨first, none, valid, taken, take, gprs, cop0, type, fpu, fprs, test, vfpu, columns, fp, exit, leave, -⟩ := loaded
  exact ⟨first, none, valid, taken, take, gprs, cop0, type, fpu, fprs, test, vfpu, columns, fp, exit, leave.1⟩

theorem resume_blocks (loaded : Loaded m.code sym.exceptionResume sym.resumeCode) : ResumeLoaded m sym := by
  simp only [resumeCode, List.flatten_cons, List.flatten_nil, loaded_append, List.length_map, release, testStatus,
    ifResumeNoVfpu, length_restoreVfpu, ifResumeNoFpu, length_restoreFpu, length_restoreGprs, List.length_cons,
    List.length_nil, Nat.reduceAdd, Nat.reduceMul, BitVec.add_assoc, BitVec.reduceAdd] at loaded
  obtain ⟨release, vfpu, noVfpu, columns, fpu, noFpu, fprs, gprs, leave, -⟩ := loaded
  exact ⟨release, vfpu, noVfpu, columns, fpu, noFpu, fprs, gprs, leave.1⟩

end ExSymbols

/-! ## The trap -/

/-- The context that the scan from `p` on takes: the first whose `valid` is not set. -/
inductive Finds (mem : Word → Word) : Word → Word → Prop
  | here {p : Word} (some : p ≠ 0) (aligned : Aligned p) (free : mem p = 0) : Finds mem p p
  | next {p c : Word} (some : p ≠ 0) (aligned : Aligned p) (used : mem p ≠ 0) (rest : Finds mem (mem (p + 4)) c) :
      Finds mem p c

section

variable {sym : ExSymbols} {m : Machine} {h d : Data} {c : Word}

theorem default_handles (loaded : Loaded m.code sym.psplinkDefaultExHandler sym.defaultCode)
    (aligned : Aligned sym.exType) (normal : h.cop0 epc ≠ sym.psplinkResumeFromException) :
    ∃ d, m.Reaches (.at sym.psplinkDefaultExHandler h []) (.at sym.psplinkExceptionHandler d []) ∧
      Scratch [v0, v1] h d ∧ d.mem = write sym.exType [(0, 0)] h.mem := by
  simp only [ExSymbols.defaultCode, List.flatten_cons, List.flatten_nil, loaded_append, List.length_map,
    ExSymbols.defaultEntry, ExSymbols.ifResumed, ExSymbols.setNormal, ExSymbols.toHandler, List.length_cons,
    List.length_nil, Nat.reduceAdd, Nat.reduceMul, BitVec.add_assoc, BitVec.reduceAdd] at loaded
  obtain ⟨entry, branch, normal', jump, -⟩ := loaded
  generalize tested : (h.set v1 sym.psplinkResumeFromException).set v0 (h.cop0 epc) = d₁
  have enters : m.Reaches (.at sym.psplinkDefaultExHandler h []) (.at (sym.psplinkDefaultExHandler + 16#32) d₁ []) := by
    rw [← tested]
    exact Machine.reaches_ops entry rfl rfl
  have differ : d₁.get v0 ≠ d₁.get v1 := by
    simp (disch := decide) only [← tested, Data.get_set_of_ne, Data.get_set_self]
    exact normal
  have stays : m.Reaches (.at (sym.psplinkDefaultExHandler + 16#32) d₁ [])
      (.at (sym.psplinkDefaultExHandler + 24#32) d₁ []) :=
    Machine.reaches_beq_not branch differ rfl (BitVec.add_assoc ..)
  have stored : effects sym.setNormal d₁ = some ((d₁.set v1 sym.exType).setMem (write sym.exType [(0, 0)] d₁.mem)) :=
    (effects_one _ _).trans
      (effect_sw zero (d₁.get_set_self _ (by decide)) (by rw [BitVec.add_zero]; exact aligned))
  have marks : m.Reaches (.at (sym.psplinkDefaultExHandler + 24#32) d₁ [])
      (.at (sym.psplinkDefaultExHandler + 32#32) ((d₁.set v1 sym.exType).setMem (write sym.exType [(0, 0)] d₁.mem)) []) :=
    Machine.reaches_ops normal' stored (BitVec.add_assoc ..)
  have jumps : m.Reaches
      (.at (sym.psplinkDefaultExHandler + 32#32) ((d₁.set v1 sym.exType).setMem (write sym.exType [(0, 0)] d₁.mem)) [])
      (.at sym.psplinkExceptionHandler ((d₁.set v1 sym.exType).setMem (write sym.exType [(0, 0)] d₁.mem)) []) :=
    Machine.reaches_delayed jump rfl rfl
  refine ⟨_, ((enters.trans stays).trans marks).trans jumps, ?_, ?_⟩
  · rw [← tested]
    exact (((Scratch.refl _ h).set (by decide) _).set (by decide) _).set (by decide) _ |>.setMem _
  · rw [← tested]
    rfl

/-- One context of the scan: with its `valid` in `v1`. -/
theorem scan_loads (loaded : HandlerLoaded m sym) {p : Word} (some : p ≠ 0) (aligned : Aligned p) (here : d.get v0 = p) :
    m.Reaches (.at sym.scan d []) (.at (sym.psplinkExceptionHandler + 16#32) (d.set v1 (d.mem p)) []) := by
  have differ : d.get v0 ≠ d.get zero := by
    rw [here]
    exact some
  have passes : m.Reaches (.at sym.scan d []) (.at (sym.psplinkExceptionHandler + 12#32) d []) :=
    Machine.reaches_beq_not loaded.ifNone differ rfl (BitVec.add_assoc ..)
  have valid : effects ExSymbols.loadValid d = Option.some (d.set v1 (d.mem p)) := by
    have first : p + BitVec.ofNat 32 0 = p := BitVec.add_zero _
    have loads := effect_lw (k := 0) v1 here (by rwa [first])
    rw [first] at loads
    exact (effects_one _ _).trans loads
  exact passes.trans (Machine.reaches_ops loaded.loadValid valid (BitVec.add_assoc ..))

/-- The scan takes the free context that it finds. -/
theorem scan_finds (loaded : HandlerLoaded m sym) {p : Word} {mem : Word → Word} (finds : Finds mem p c)
    (memory : d.mem = mem) (here : d.get v0 = p) :
    ∃ d', m.Reaches (.at sym.scan d []) (.at (sym.psplinkExceptionHandler + 24#32) d' []) ∧ Scratch [v0, v1] d d' ∧
      d'.get v0 = c ∧ Aligned c := by
  induction finds generalizing d with
  | @here p some aligned free =>
      have valid : (d.set v1 (d.mem p)).get v1 = (d.set v1 (d.mem p)).get zero := by
        rw [Data.get_set_self _ _ (by decide), memory, free]
        rfl
      have takes : m.Reaches (.at (sym.psplinkExceptionHandler + 16#32) (d.set v1 (d.mem p)) [])
          (.at (sym.psplinkExceptionHandler + 24#32) (d.set v1 (d.mem p)) []) :=
        Machine.reaches_bnel_not loaded.ifTaken valid (BitVec.add_assoc ..)
      exact ⟨_, (scan_loads loaded some aligned here).trans takes, (Scratch.refl _ d).set (by decide) _,
        (d.get_set_of_ne _ (by decide)).trans here, aligned⟩
  | @next p c some aligned used rest ih =>
      have valid : (d.set v1 (d.mem p)).get v1 ≠ (d.set v1 (d.mem p)).get zero := by
        rw [Data.get_set_self _ _ (by decide), memory]
        exact used
      have slot : (Op.lw v0 4 v0).effect (d.set v1 (d.mem p)) =
          Option.some ((d.set v1 (d.mem p)).set v0 (d.mem (p + 4#32))) :=
        effect_lw v0 ((d.get_set_of_ne _ (by decide)).trans here) (aligned.add (by decide))
      have skips : m.Reaches (.at (sym.psplinkExceptionHandler + 16#32) (d.set v1 (d.mem p)) [])
          (.at sym.scan ((d.set v1 (d.mem p)).set v0 (d.mem (p + 4#32))) []) :=
        Machine.reaches_bnel loaded.ifTaken valid slot
      obtain ⟨d', run, scratch, found⟩ := ih (d := (d.set v1 (d.mem p)).set v0 (d.mem (p + 4#32))) memory
        (by rw [Data.get_set_self _ _ (by decide), memory]; rfl)
      exact ⟨d', ((scan_loads loaded some aligned here).trans skips).trans run,
        (((Scratch.refl _ d).set (by decide) _).set (by decide) _).trans scratch, found⟩

theorem inBlock (aligned : Aligned c) {offsets : List Nat} (multiples : ∀ k ∈ offsets, k % 4 = 0) :
    InFrame (c + 8#32) offsets := ⟨aligned.add (by decide), multiples⟩

theorem effects_take (aligned : Aligned c) (here : d.get v0 = c) :
    ∃ d', effects ExSymbols.take d = some d' ∧ Scratch [v0, v1] d d' ∧ d'.get v0 = c + 8#32 := by
  generalize marked : (d.set v1 1).setMem (write c [(0, 1)] d.mem) = d₁
  have one : (Op.addiu v1 zero 1).effect d = some (d.set v1 1) := rfl
  have base' : (d.set v1 1).get v0 = c := (d.get_set_of_ne _ (by decide)).trans here
  have stored : (Op.sw v1 0 v0).effect (d.set v1 1) = some d₁ := by
    have saved := effect_sw (k := 0) v1 base' (by rw [BitVec.add_zero]; exact aligned)
    rwa [Data.get_set_self _ _ (by decide), Data.set_mem, marked] at saved
  have base : d₁.get v0 = c := by
    rw [← marked]
    exact base'
  have moved : (Op.addiu v0 v0 8).effect d₁ = some (d₁.set v0 (c + 8#32)) := by
    rw [Op.effect, base]
    rfl
  refine ⟨d₁.set v0 (c + 8#32), ?_, ?_, d₁.get_set_self _ (by decide)⟩
  · rw [ExSymbols.take, effects, one, Option.bind_some, effects, stored, Option.bind_some, effects_one, moved]
  · rw [← marked]
    exact (((Scratch.refl _ d).set (by decide) _).setMem _).set (by decide) _

end

/-! ## Saving -/

/-- The handler has saved `slots` in the context `c` of a thread that entered it with `h`, and has used `rs`. -/
structure Saving (rs : List Gpr) (h : Data) (c : Word) (mem : Word → Word) (slots : List (Nat × Word)) (d : Data) :
    Prop where
  aligned : Aligned c
  scratch : Scratch rs h d
  base : d.get v0 = c + 8#32
  memory : d.mem = write (c + 8#32) slots mem

namespace Saving

variable {rs : List Gpr} {h d : Data} {c : Word} {mem : Word → Word} {slots : List (Nat × Word)}

theorem mono {rs' : List Gpr} (inside : rs ⊆ rs') (saving : Saving rs h c mem slots d) : Saving rs' h c mem slots d :=
  ⟨saving.aligned, saving.scratch.mono inside, saving.base, saving.memory⟩

theorem set (saving : Saving rs h c mem slots d) {r : Gpr} (member : r ∈ rs) (other : v0 ≠ r) (w : Word) :
    Saving rs h c mem slots (d.set r w) :=
  ⟨saving.aligned, saving.scratch.set member w, (d.get_set_of_ne w other).trans saving.base, saving.memory⟩

theorem store (saving : Saving rs h c mem slots d) (slots' : List (Nat × Word)) :
    Saving rs h c mem (slots ++ slots') (d.setMem (write (c + 8#32) slots' d.mem)) :=
  ⟨saving.aligned, saving.scratch.setMem _, saving.base, by rw [Data.setMem_mem, saving.memory, write_append]⟩

theorem sw (saving : Saving rs h c mem slots d) (r : Gpr) {k : Nat} (multiple : k % 4 = 0) :
    ∃ d', (Op.sw r k v0).effect d = some d' ∧ Saving rs h c mem (slots ++ [(k, d.get r)]) d' ∧
      ∀ r, d'.get r = d.get r := by
  have aligned : Aligned (c + 8#32 + BitVec.ofNat 32 k) :=
    (inBlock saving.aligned (show ∀ k' ∈ [k], k' % 4 = 0 by simpa using multiple)).slot List.mem_cons_self
  exact ⟨_, effect_sw r saving.base aligned, saving.store _, fun _ => rfl⟩

theorem sws (saving : Saving rs h c mem slots d) (regs : List (Nat × Gpr)) (multiples : ∀ k ∈ regs.map Prod.fst, k % 4 = 0)
    (unused : ∀ s ∈ regs, s.2 ∉ rs) :
    ∃ d', effects (Lib.Mips.sws v0 regs) d = some d' ∧
      Saving rs h c mem (slots ++ regs.map fun s => (s.1, h.get s.2)) d' := by
  have stored := effects_sws regs saving.base (inBlock saving.aligned multiples)
  have values : (regs.map fun s => (s.1, d.get s.2)) = regs.map fun s => (s.1, h.get s.2) :=
    List.map_congr_left fun s member => by rw [saving.scratch.get _ (unused s member)]
  rw [values] at stored
  exact ⟨_, stored, saving.store _⟩

theorem via (saving : Saving rs h c mem slots d) {rt : Gpr} (member : rt ∈ rs) (other : v0 ≠ rt) (some : rt ≠ zero)
    (specials : List (Nat × Special)) (last : Nat × Special)
    (multiples : ∀ k ∈ (specials ++ [last]).map Prod.fst, k % 4 = 0) :
    ∃ d', effects (saveVia rt v0 (specials ++ [last])) d = Option.some d' ∧
      Saving rs h c mem (slots ++ (specials ++ [last]).map fun s => (s.1, h.special s.2)) d' ∧
      d'.get rt = h.special last.2 := by
  have stored := effects_saveVia specials last other some saving.base (inBlock saving.aligned multiples)
  have values : ((specials ++ [last]).map fun s => (s.1, d.special s.2)) =
      (specials ++ [last]).map fun s => (s.1, h.special s.2) :=
    List.map_congr_left fun s _ => by rw [saving.scratch.special]
  rw [values] at stored
  refine ⟨_, stored, (saving.set member other _).store _, ?_⟩
  rw [Data.setMem_get, Data.get_set_self _ _ some, saving.scratch.special]

end Saving

section

variable {sym : ExSymbols} {m : Machine} {h d : Data} {c : Word} {mem : Word → Word}

/-- The slots of the general registers: `v0` and `v1` are in control registers when the handler is entered. -/
def gprRecord (h : Data) : List (Nat × Word) :=
  [(Reg.ofs (.r 0), h.get 0), (Reg.ofs (.r 1), h.get 1)] ++
    [(Reg.ofs (.r 2), h.ctrl0 4), (Reg.ofs (.r 3), h.ctrl0 5)] ++ (gprSlots 4).map fun s => (s.1, h.get s.2)

def cop0Record (h : Data) : List (Nat × Word) :=
  [(Reg.ofs .lo, h.lo), (Reg.ofs .hi, h.hi), (Reg.ofs .badvaddr, h.cop0 badVAddr), (Reg.ofs .cause, h.ctrl0 3),
    (Reg.ofs .epc, h.ctrl0 0), (Reg.ofs .status, h.ctrl0 2)]

theorem effects_saveGprs (saving : Saving [v0, v1] h c mem [] d) :
    ∃ d', effects ExSymbols.saveGprs d = some d' ∧ Saving [1, v0, v1] h c mem (gprRecord h) d' := by
  obtain ⟨d₁, first, saving₁⟩ := saving.sws [(Reg.ofs (.r 0), 0), (Reg.ofs (.r 1), 1)] (by decide) (by decide)
  obtain ⟨d₂, second, saving₂, -⟩ := (saving₁.mono (show [v0, v1] ⊆ [1, v0, v1] by decide)).via
    (show (1 : Gpr) ∈ [1, v0, v1] by decide) (by decide) (by decide)
    [(Reg.ofs (.r 2), .ctrl0 4)] (Reg.ofs (.r 3), .ctrl0 5) (by decide)
  obtain ⟨d₃, third, saving₃⟩ := saving₂.sws (gprSlots 4) (by decide) (by decide)
  have second' : effects (saveVia 1 v0 [(Reg.ofs (.r 2), .ctrl0 4), (Reg.ofs (.r 3), .ctrl0 5)]) d₁ = some d₂ := second
  refine ⟨d₃, ?_, saving₃⟩
  rw [ExSymbols.saveGprs, effects_append, effects_append, first, Option.bind_some, second', Option.bind_some, third]

theorem effects_saveCop0 {slots : List (Nat × Word)} (saving : Saving [1, v0, v1] h c mem slots d) :
    ∃ d', effects ExSymbols.saveCop0 d = some d' ∧ Saving [1, v0, v1] h c mem (slots ++ cop0Record h) d' ∧
      d'.get v1 = h.ctrl0 2 :=
  saving.via (by decide) (by decide) (by decide)
    [(Reg.ofs .lo, .lo), (Reg.ofs .hi, .hi), (Reg.ofs .badvaddr, .cop0 badVAddr), (Reg.ofs .cause, .ctrl0 3),
      (Reg.ofs .epc, .ctrl0 0)] (Reg.ofs .status, .ctrl0 2) (by decide)

/-- What the test of an enable bit in `status` leaves. -/
def enabled (bit : BitVec 16) (status : Word) : Word := (bit ++ (0 : BitVec 16)) &&& status

/-- The registers that the handler uses for itself. -/
def used : List Gpr := [1, v0, v1, a0, t0]

theorem effects_saveType {slots : List (Nat × Word)} (aligned : Aligned sym.exType)
    (saving : Saving [1, v0, v1] h c mem slots d) (status : d.get v1 = h.ctrl0 2) :
    ∃ d' type, effects sym.saveType d = some d' ∧ Saving used h c mem (slots ++ [(Reg.ofs .type, type)]) d' ∧
      d'.get a0 = enabled cu1 (h.ctrl0 2) := by
  generalize typed : (d.set a0 sym.exType).set a0 (d.mem sym.exType) = d₁
  have saving₁ : Saving used h c mem slots d₁ := by
    rw [← typed]
    exact ((saving.mono (by decide)).set (by decide) (by decide) _).set (by decide) (by decide) _
  have loads : (Op.lw a0 0 a0).effect (d.set a0 sym.exType) = some d₁ := by
    have first : sym.exType + BitVec.ofNat 32 0 = sym.exType := BitVec.add_zero _
    have loads := effect_lw (k := 0) a0 (d.get_set_self sym.exType (show a0 ≠ zero by decide)) (by rwa [first])
    rwa [first, Data.set_mem, typed] at loads
  obtain ⟨d₂, stores, saving₂, same⟩ := saving₁.sw a0 (show Reg.ofs .type % 4 = 0 by decide)
  have status' : (d₂.set a0 (cu1 ++ (0 : BitVec 16))).get v1 = h.ctrl0 2 := by
    rw [Data.get_set_of_ne _ _ (by decide), same, ← typed]
    simp (disch := decide) only [Data.get_set_of_ne, status]
  refine ⟨_, _, ?_, (saving₂.set (show a0 ∈ used by decide) (by decide) (cu1 ++ (0 : BitVec 16))).set
    (show a0 ∈ used by decide) (by decide) (enabled cu1 (h.ctrl0 2)), Data.get_set_self _ _ (by decide)⟩
  have tests : (Op.and a0 a0 v1).effect (d₂.set a0 (cu1 ++ (0 : BitVec 16))) =
      some ((d₂.set a0 (cu1 ++ (0 : BitVec 16))).set a0 (enabled cu1 (h.ctrl0 2))) := by
    rw [Op.effect, status', Data.get_set_self _ _ (by decide), enabled]
  have addressed : (Op.li a0 sym.exType).effect d = some (d.set a0 sym.exType) := rfl
  have lifted : (Op.lui a0 cu1).effect d₂ = some (d₂.set a0 (cu1 ++ (0 : BitVec 16))) := rfl
  rw [ExSymbols.saveType, effects, addressed, Option.bind_some, effects, loads, Option.bind_some, effects, stores,
    Option.bind_some, effects, lifted, Option.bind_some, effects_one, tests]

def fpuRecord (h : Data) : List (Nat × Word) :=
  if enabled cu1 (h.ctrl0 2) = 0 then []
  else (fprSlots.map fun s => (s.1, h.fpr s.2)) ++ [(Reg.ofs .fsr, h.ctrl1 fsr), (Reg.ofs .fir, h.ctrl1 fir)]

def vfpuRecord (h : Data) : List (Nat × Word) :=
  if enabled cu2 (h.ctrl0 2) = 0 then [] else columnSlots h.vfpu vfpuColumns

/-- The floating-point registers are saved if they are enabled; `fsr` is then cleared. -/
theorem saves_fpu (loaded : HandlerLoaded m sym) {slots : List (Nat × Word)} (saving : Saving used h c mem slots d)
    (tested : d.get a0 = enabled cu1 (h.ctrl0 2)) :
    ∃ ctrl1 d', m.Reaches (.at (sym.psplinkExceptionHandler + 240#32) d []) (.at sym.noFpu d' []) ∧
      Saving used { h with ctrl1 := ctrl1 } c mem (slots ++ fpuRecord h) d' := by
  by_cases off : enabled cu1 (h.ctrl0 2) = 0
  · refine ⟨h.ctrl1, d, Machine.reaches_beq loaded.ifNoFpu (by rw [tested, off]; rfl) rfl, ?_⟩
    rw [fpuRecord, if_pos off, List.append_nil]
    exact saving
  · have on : m.Reaches (.at (sym.psplinkExceptionHandler + 240#32) d [])
        (.at (sym.psplinkExceptionHandler + 248#32) d []) :=
      Machine.reaches_beq_not loaded.ifNoFpu (by rw [tested]; exact off) rfl (BitVec.add_assoc ..)
    have first := effects_swc1s saving.base (inBlock saving.aligned (show ∀ k ∈ fprSlots.map Prod.fst, k % 4 = 0 by decide))
    rw [saving.scratch.fpr] at first
    have saving₁ := saving.store (fprSlots.map fun s => (s.1, h.fpr s.2))
    obtain ⟨d₂, second, saving₂, -⟩ := saving₁.via (show t0 ∈ used by decide) (by decide) (by decide)
      [(Reg.ofs .fsr, .ctrl1 fsr)] (Reg.ofs .fir, .ctrl1 fir) (by decide)
    have saved : effects ExSymbols.saveFpu d = some { d₂ with ctrl1 := Function.update d₂.ctrl1 fsr 0 } := by
      have second' : effects (saveVia t0 v0 [(Reg.ofs .fsr, .ctrl1 fsr), (Reg.ofs .fir, .ctrl1 fir)])
          (d.setMem (write (c + 8#32) (fprSlots.map fun s => (s.1, h.fpr s.2)) d.mem)) = some d₂ := second
      rw [ExSymbols.saveFpu, effects_append, effects_append, first, Option.bind_some, second', Option.bind_some,
        effects_one]
      rfl
    refine ⟨Function.update d₂.ctrl1 fsr 0, _, on.trans (Machine.reaches_ops loaded.saveFpu saved (BitVec.add_assoc ..)),
      saving.aligned, ⟨saving₂.scratch.get, fun s => ?_, saving₂.scratch.fpr, saving₂.scratch.vfpu⟩, saving₂.base, ?_⟩
    · cases s with
      | ctrl1 r => rfl
      | lo => exact saving₂.scratch.special .lo
      | hi => exact saving₂.scratch.special .hi
      | cop0 r => exact saving₂.scratch.cop0 r
      | ctrl0 r => exact saving₂.scratch.ctrl0 r
    · rw [fpuRecord, if_neg off, ← List.append_assoc]
      exact saving₂.memory

theorem saves_vfpu (loaded : HandlerLoaded m sym) {slots : List (Nat × Word)} (saving : Saving used h c mem slots d) :
    ∃ d', m.Reaches (.at sym.noFpu d []) (.at sym.noVfpu d' []) ∧ Saving used h c mem (slots ++ vfpuRecord h) d' := by
  generalize tested : ((d.set v1 (h.ctrl0 2)).set a0 (cu2 ++ (0 : BitVec 16))).set a0 (enabled cu2 (h.ctrl0 2)) = d₁
  have saving₁ : Saving used h c mem slots d₁ := by
    rw [← tested]
    exact ((saving.set (by decide) (by decide) _).set (by decide) (by decide) _).set (by decide) (by decide) _
  have bit : d₁.get a0 = enabled cu2 (h.ctrl0 2) := by
    rw [← tested]
    exact Data.get_set_self _ _ (by decide)
  have tests : effects ExSymbols.testVfpu d = some d₁ := by
    have status : (Op.cfc0 v1 2).effect d = some (d.set v1 (h.ctrl0 2)) := by rw [Op.effect, saving.scratch.ctrl0]
    have lifted : (Op.lui a0 cu2).effect (d.set v1 (h.ctrl0 2)) =
        some ((d.set v1 (h.ctrl0 2)).set a0 (cu2 ++ (0 : BitVec 16))) := rfl
    have masked : (Op.and a0 a0 v1).effect ((d.set v1 (h.ctrl0 2)).set a0 (cu2 ++ (0 : BitVec 16))) = some d₁ := by
      rw [← tested, Op.effect]
      simp (disch := decide) only [Data.get_set_of_ne, Data.get_set_self, enabled]
    rw [ExSymbols.testVfpu, effects, status, Option.bind_some, effects, lifted, Option.bind_some, effects_one, masked]
  have test : m.Reaches (.at sym.noFpu d []) (.at (sym.psplinkExceptionHandler + 408#32) d₁ []) :=
    Machine.reaches_ops loaded.testVfpu tests (BitVec.add_assoc ..)
  by_cases off : enabled cu2 (h.ctrl0 2) = 0
  · refine ⟨d₁, test.trans (Machine.reaches_beq loaded.ifNoVfpu (by rw [bit, off]; rfl) rfl), ?_⟩
    rw [vfpuRecord, if_pos off, List.append_nil]
    exact saving₁
  · have on : m.Reaches (.at (sym.psplinkExceptionHandler + 408#32) d₁ [])
        (.at (sym.psplinkExceptionHandler + 416#32) d₁ []) :=
      Machine.reaches_beq_not loaded.ifNoVfpu (by rw [bit]; exact off) rfl (BitVec.add_assoc ..)
    have saved := effects_usvqs saving₁.base
      (inBlock saving.aligned (show ∀ k ∈ vfpuColumns.map Prod.fst, k % 4 = 0 by decide))
    rw [saving₁.scratch.vfpu] at saved
    rw [vfpuRecord, if_neg off]
    exact ⟨_, (test.trans on).trans (Machine.reaches_ops loaded.saveVfpu saved (BitVec.add_assoc ..)), saving₁.store _⟩

theorem exits_to_trap (loaded : HandlerLoaded m sym) {slots : List (Nat × Word)} (saving : Saving used h c mem slots d) :
    ∃ t, m.Reaches (.at sym.noVfpu d []) (.at sym.psplinkTrap t []) ∧ t.get a0 = c ∧
      t.mem = write (c + 8#32) (slots ++ [(Reg.ofs .framePtr, h.get sp)]) mem := by
  obtain ⟨d₁, stored, saving₁, -⟩ := saving.sw sp (show Reg.ofs .framePtr % 4 = 0 by decide)
  rw [saving.scratch.get sp (by decide)] at saving₁
  have moved : (Op.addiu v0 v0 (-8)).effect d₁ = some (d₁.set v0 c) := by
    rw [Op.effect, saving₁.base, BitVec.add_assoc]
    exact congrArg (fun w => some (d₁.set v0 w)) (BitVec.add_zero c)
  have saved : effects ExSymbols.saveFp d = some (d₁.set v0 c) := by
    rw [ExSymbols.saveFp, effects, stored, Option.bind_some, effects_one, moved]
  generalize left : (d₁.set v0 c).set a0 c = d₂
  have passed : (Op.move a0 v0).effect (d₁.set v0 c) = some d₂ := by
    rw [Op.effect, Data.get_set_self _ _ (by decide), left]
  generalize entered : ({ d₂.set v0 sym.psplinkTrap with
    cop0 := Function.update d₂.cop0 epc sym.psplinkTrap } : Data) = t
  have leaves : effects sym.toTrap (d₁.set v0 c) = some t := by
    rw [ExSymbols.toTrap, effects, passed, Option.bind_some, ← entered]
    rfl
  have target : t.cop0 epc = sym.psplinkTrap := by
    rw [← entered]
    exact Function.update_self epc sym.psplinkTrap d₂.cop0
  have erets : m.Reaches (.at (sym.psplinkExceptionHandler + 572#32) t []) (.at sym.psplinkTrap t []) := by
    have run : m.Reaches (.at (sym.psplinkExceptionHandler + 572#32) t []) (.at (t.cop0 epc) t []) :=
      Machine.reaches_eret loaded.eret
    rwa [target] at run
  refine ⟨t, ((Machine.reaches_ops loaded.saveFp saved (BitVec.add_assoc ..)).trans
    (Machine.reaches_ops loaded.toTrap leaves (BitVec.add_assoc ..))).trans erets, ?_, ?_⟩
  · rw [← entered]
    change (d₂.set v0 sym.psplinkTrap).get a0 = c
    rw [Data.get_set_of_ne _ _ (by decide), ← left, Data.get_set_self _ _ (by decide)]
  · rw [← entered, ← left, ← saving₁.memory]
    rfl

end

/-! ## Trapped threads -/

/-- A thread raises a normal exception: `h` is what the handler is entered with, `c` the context that is free for it. -/
structure Trapped (m : Machine) (sym : ExSymbols) (h : Data) (c : Word) : Prop where
  default : Loaded m.code sym.psplinkDefaultExHandler sym.defaultCode
  handler : Loaded m.code sym.psplinkExceptionHandler sym.handlerCode
  resume : Loaded m.code sym.exceptionResume sym.resumeCode
  trap : m.code sym.psplinkTrap = none ∧ m.external sym.psplinkTrap = none
  thread : m.code (h.ctrl0 0) = none ∧ m.external (h.ctrl0 0) = none
  aligned : Aligned sym.exType
  normal : h.cop0 epc ≠ sym.psplinkResumeFromException
  context : Finds (write sym.exType [(0, 0)] h.mem) sym.g_psplinkContext c

/-- All that is saved. -/
def record (h : Data) (type : Word) : List (Nat × Word) :=
  gprRecord h ++ cop0Record h ++ [(Reg.ofs .type, type)] ++ fpuRecord h ++ vfpuRecord h ++ [(Reg.ofs .framePtr, h.get sp)]

section

variable {sym : ExSymbols} {m : Machine} {h : Data} {c : Word}

/-- The offsets of what is saved where everything is enabled. -/
def recordOffsets : List Nat :=
  (gprSlots 0).map Prod.fst ++
    [Reg.ofs .lo, Reg.ofs .hi, Reg.ofs .badvaddr, Reg.ofs .cause, Reg.ofs .epc, Reg.ofs .status] ++ [Reg.ofs .type] ++
    (fprSlots.map Prod.fst ++ [Reg.ofs .fsr, Reg.ofs .fir]) ++
    vfpuColumns.flatMap (fun s => [s.1, s.1 + 4, s.1 + 8, s.1 + 12]) ++ [Reg.ofs .framePtr]

theorem recordOffsets_inBlock : ∀ k ∈ recordOffsets, k % 4 = 0 ∧ k / 4 < regWords := by decide +kernel

theorem sorted_recordOffsets : (recordOffsets.insertionSort (· ≤ ·)).IsChain (· < ·) := by decide +kernel

theorem slots_recordOffsets : Slots recordOffsets where
  small k member := by
    have inside := (recordOffsets_inBlock k member).2
    unfold regWords at inside
    omega
  nodup := (List.perm_insertionSort (· ≤ ·) recordOffsets).nodup_iff.mp
    ((List.isChain_iff_pairwise.mp sorted_recordOffsets).imp Nat.ne_of_lt)

theorem record_sublist (h : Data) (type : Word) : ((record h type).map Prod.fst).Sublist recordOffsets := by
  have gprs : (gprRecord h).map Prod.fst = (gprSlots 0).map Prod.fst := rfl
  have fprs : (fpuRecord h).map Prod.fst |>.Sublist (fprSlots.map Prod.fst ++ [Reg.ofs .fsr, Reg.ofs .fir]) := by
    unfold fpuRecord
    split
    · exact List.nil_sublist _
    · rw [List.map_append, List.map_map]
      exact List.Sublist.refl _
  have columns : (vfpuRecord h).map Prod.fst |>.Sublist (vfpuColumns.flatMap fun s => [s.1, s.1 + 4, s.1 + 8, s.1 + 12]) := by
    unfold vfpuRecord
    split
    · exact List.nil_sublist _
    · rw [columnSlots, List.map_flatMap]
      exact List.Sublist.refl _
  simp only [record, List.map_append, gprs]
  exact ((((List.Sublist.refl _).append fprs)).append columns).append (List.Sublist.refl _)

theorem trap_run (trapped : Trapped m sym h c) :
    ∃ t type, m.Reaches (.at sym.psplinkDefaultExHandler h []) (.at sym.psplinkTrap t []) ∧ t.get a0 = c ∧
      Aligned c ∧ Holds (c + 8#32) (record h type) t.mem := by
  have loaded := ExSymbols.handler_blocks trapped.handler
  obtain ⟨d₀, enters, scratch₀, memory₀⟩ := default_handles trapped.default trapped.aligned trapped.normal
  have starts : m.Reaches (.at sym.psplinkExceptionHandler d₀ []) (.at sym.scan (d₀.set v0 sym.g_psplinkContext) []) :=
    Machine.reaches_ops loaded.firstContext rfl rfl
  obtain ⟨d₁, scans, scratch₁, found, aligned⟩ := scan_finds (d := d₀.set v0 sym.g_psplinkContext) loaded
    trapped.context memory₀ (Data.get_set_self _ _ (by decide))
  obtain ⟨d₂, taken, scratch₂, base⟩ := effects_take aligned found
  have saving : Saving [v0, v1] h c d₂.mem [] d₂ :=
    ⟨aligned, ((scratch₀.set (by decide) _).trans scratch₁).trans scratch₂, base, rfl⟩
  obtain ⟨d₃, gprs, saving₃⟩ := effects_saveGprs saving
  obtain ⟨d₄, cop0, saving₄, status⟩ := effects_saveCop0 saving₃
  obtain ⟨d₅, type, typed, saving₅, tested⟩ := effects_saveType trapped.aligned saving₄ status
  obtain ⟨ctrl1, d₆, fpu, saving₆⟩ := saves_fpu loaded saving₅ tested
  obtain ⟨d₇, vfpu, saving₇⟩ := saves_vfpu loaded saving₆
  obtain ⟨t, exits, context, memory⟩ := exits_to_trap loaded saving₇
  have takes : m.Reaches (.at (sym.psplinkExceptionHandler + 24#32) d₁ []) (.at (sym.psplinkExceptionHandler + 36#32) d₂ []) :=
    Machine.reaches_ops loaded.take taken (BitVec.add_assoc ..)
  have savesGprs : m.Reaches (.at (sym.psplinkExceptionHandler + 36#32) d₂ [])
      (.at (sym.psplinkExceptionHandler + 172#32) d₃ []) :=
    Machine.reaches_ops loaded.saveGprs gprs (BitVec.add_assoc ..)
  have savesCop0 : m.Reaches (.at (sym.psplinkExceptionHandler + 172#32) d₃ [])
      (.at (sym.psplinkExceptionHandler + 220#32) d₄ []) :=
    Machine.reaches_ops loaded.saveCop0 cop0 (BitVec.add_assoc ..)
  have savesType : m.Reaches (.at (sym.psplinkExceptionHandler + 220#32) d₄ [])
      (.at (sym.psplinkExceptionHandler + 240#32) d₅ []) :=
    Machine.reaches_ops loaded.saveType typed (BitVec.add_assoc ..)
  refine ⟨t, type, ?_, context, aligned, ?_⟩
  · exact enters.trans (starts.trans (scans.trans (takes.trans (savesGprs.trans (savesCop0.trans (savesType.trans
      (fpu.trans (vfpu.trans exits))))))))
  · rw [memory]
    exact holds_write _ (slots_recordOffsets.sublist (record_sublist h type)) _

end

end Psplink.Exception
