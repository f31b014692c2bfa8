import Psplink.Exception.Current
import Psplink.Lib.Owners

/-!
# Which trap a context was taken for

The contexts of `g_psplinkContext` over any exceptions: also in a thread that is in a trap already, and in an interrupt,
where `sceKernelGetThreadId` is negative. A thread has the contexts of the traps that it is in, the innermost first.
-/

namespace Psplink.Exception
open Psplink.Lib Psplink.Debug

/-! ## The code -/

structure Traps where
  list : Fin maxContext → Context
  held : Word → List (Fin maxContext)

namespace Traps

/-- All links are set and everything else is zero. -/
def psplinkInitException : Traps := ⟨fun _ _ => 0, fun _ => []⟩

def setContext (s : Traps) (i : Fin maxContext) (c : Context) : Traps := { s with list := Function.update s.list i c }

def setHeld (s : Traps) (thid : Word) (contexts : List (Fin maxContext)) : Traps :=
  { s with held := Function.update s.held thid contexts }

/-- In the order of the links. -/
def findFree (s : Traps) : Option (Fin maxContext) := (List.finRange maxContext).find? fun i => (s.list i).valid == 0

/-- The context that is passed on in `$a0`, if there is one. -/
def psplinkExceptionHandler (regs : Context) (s : Traps) : Traps × Option (Fin maxContext) :=
  match s.findFree with
  | none => (s, none)
  | some i => (s.setContext i ((s.list i).taken regs), some i)

/-- `psplinkTrap` up to its first store: without a context the thread is deleted, and an interrupt goes on. -/
def psplinkTrap (thid : Word) (s : Traps) : Option (Fin maxContext) → Traps
  | none => if 0 ≤ thid.toInt then s.setHeld thid [] else s
  | some i => if thid.toInt < 0 then s else s.setHeld thid (i :: s.held thid)

/-- The stores of `psplinkTrap`. -/
def store (thid : Word) (env : Option Word) (i : Fin maxContext) (s : Traps) : Traps :=
  let ctx := (s.list i).setThid thid
  match env with
  | some drcntl => s.setContext i (if ctx.reg .type = exDebug then ctx.setDrcntl drcntl else ctx)
  | none => s.setContext i ctx

/-- The store of `_psplinkExceptionResume` that frees the context. -/
def psplinkResumeFromException (thid : Word) (i : Fin maxContext) (s : Traps) : Traps :=
  (s.setContext i ((s.list i).setValid 0)).setHeld thid (s.held thid).tail

end Traps

/-! ## Runs -/

/-- `edit`: registers of a context are set. `terminate`: a thread is ended by another one. -/
inductive TrapEvent
  | exception (thid : Word) (regs : Context)
  | store (thid : Word) (env : Option Word)
  | edit (i : Fin maxContext) (c : Context)
  | resume (thid : Word)
  | terminate (thid : Word)

inductive Trapping (s : Traps) : TrapEvent → Traps → Prop
  | exception {thid regs} : Trapping s (.exception thid regs)
      ((s.psplinkExceptionHandler regs).1.psplinkTrap thid (s.psplinkExceptionHandler regs).2)
  | store {thid env i rest} : s.held thid = i :: rest → Trapping s (.store thid env) (s.store thid env i)
  | edit {i c} : (c.valid = 0 ↔ (s.list i).valid = 0) → Trapping s (.edit i c) (s.setContext i c)
  | resume {thid i rest} : s.held thid = i :: rest →
      Trapping s (.resume thid) (s.psplinkResumeFromException thid i)
  | terminate {thid} : Trapping s (.terminate thid) (s.setHeld thid [])

def traps : System Traps TrapEvent where
  init s := (∀ i, (s.list i).valid = 0) ∧ ∀ thid, s.held thid = []
  step := Trapping

/-! ## What should hold -/

def Traps.Used (s : Traps) (i : Fin maxContext) : Prop := (s.list i).valid ≠ 0

/-- Every context in use belongs to one thread in a trap, and there is one left while fewer than eight are in traps. -/
structure Traps.Kept (s : Traps) : Prop where
  owned : Owned s.Used s.held
  available : {thid | s.held thid ≠ []}.ncard < maxContext → ∃ i, s.findFree = some i

/-- No interrupt takes a context, a thread that is deleted or ended is in no trap, and the last context is taken only
while no thread has two. -/
def Ordinary (s : Traps) : TrapEvent → Prop
  | .exception thid _ =>
      match s.findFree with
      | none => 0 ≤ thid.toInt → s.held thid = []
      | some i => 0 ≤ thid.toInt ∧
          ((∀ j ≠ i, s.Used j) → s.held thid = [] ∧ ∀ t, (s.held t).length ≤ 1)
  | .terminate thid => s.held thid = []
  | _ => True

/-! ## The invariant -/

instance : Finite Word := .of_injective BitVec.toFin fun _ _ => BitVec.eq_of_toFin_eq

variable {s s' : Traps} {thid : Word} {i : Fin maxContext}

theorem Traps.findFree_eq_none : s.findFree = none ↔ ∀ i, s.Used i := by
  simp [findFree, Used]

theorem Traps.free_of_findFree (found : s.findFree = some i) : ¬ s.Used i := by
  have free := List.find?_some found
  simpa [Used] using free

theorem Traps.kept_iff (owned : Owned s.Used s.held) :
    s.Kept ↔ ((∀ i, s.Used i) → ∀ t, (s.held t).length ≤ 1) := by
  have some_iff : (∃ i, s.findFree = some i) ↔ ¬ ∀ i, s.Used i := by
    rw [← findFree_eq_none, ← Option.ne_none_iff_exists']
  constructor
  · intro kept full t
    by_contra two
    have fewer := (owned.ncard_lt_iff full).mpr ⟨t, Nat.lt_of_not_le two⟩
    rw [Fintype.card_fin] at fewer
    exact some_iff.mp (kept.available fewer) full
  · intro single
    refine ⟨owned, fun fewer => some_iff.mpr fun full => ?_⟩
    obtain ⟨t, two⟩ := (owned.ncard_lt_iff full).mp (by rwa [Fintype.card_fin])
    exact absurd (single full t) (Nat.not_le.mpr two)

/-- Nothing changes about who has which context. -/
theorem Traps.Kept.congr (kept : s.Kept) (used : ∀ i, s'.Used i ↔ s.Used i) (held : s'.held = s.held) : s'.Kept := by
  have owned : Owned s'.Used s'.held := held ▸ kept.owned.congr used
  rw [kept_iff owned, held]
  exact fun full => (kept_iff kept.owned).mp kept fun i => (used i).mp (full i)

theorem Traps.Kept.dropped_iff (kept : s.Kept) : (s.setHeld thid []).Kept ↔ s.held thid = [] := by
  constructor
  · intro kept'
    by_contra some_
    exact kept.owned.not_dropped some_ kept'.owned
  · intro empty
    have same : s.setHeld thid [] = s := by
      rw [setHeld, ← empty, Function.update_eq_self]
    rwa [same]

theorem Traps.used_setContext (s : Traps) (c : Context) (j : Fin maxContext) :
    (s.setContext i c).Used j ↔ if j = i then c.valid ≠ 0 else s.Used j := by
  change (Function.update s.list i c j).valid ≠ 0 ↔ _
  rw [Function.update_apply]
  split <;> rfl

theorem Traps.Kept.setContext (kept : s.Kept) {c : Context} (same : c.valid = 0 ↔ (s.list i).valid = 0) :
    (s.setContext i c).Kept := by
  refine kept.congr (fun j => ?_) rfl
  rw [used_setContext]
  split
  · next here => rw [here, Used, ne_eq, ne_eq, same]
  · rfl

theorem Traps.Kept.taken_iff (kept : s.Kept) (found : s.findFree = some i) (regs : Context) :
    ((s.setContext i ((s.list i).taken regs)).psplinkTrap thid (some i)).Kept ↔ 0 ≤ thid.toInt ∧
      ((∀ j ≠ i, s.Used j) → s.held thid = [] ∧ ∀ t, (s.held t).length ≤ 1) := by
  have unused := free_of_findFree found
  have used (j : Fin maxContext) : (s.setContext i ((s.list i).taken regs)).Used j ↔ j = i ∨ s.Used j := by
    rw [used_setContext]
    split
    · next here => simp [here]
    · next other => simp [other]
  by_cases interrupt : thid.toInt < 0
  · rw [psplinkTrap, if_pos interrupt]
    refine iff_of_false (fun kept' => ?_) fun ordinary => absurd ordinary.1 (Int.not_le.mpr interrupt)
    obtain ⟨t, mem⟩ := kept'.owned.owner i ((used i).mpr (.inl rfl))
    exact unused (kept.owned.used mem)
  · rw [psplinkTrap, if_neg interrupt]
    have owned := (kept.owned.push unused thid).congr used
    rw [kept_iff owned, and_iff_right (Int.not_lt.mp interrupt)]
    refine imp_congr ?_ ?_
    · refine ⟨fun full j other => ((used j).mp (full j)).resolve_left other, fun full j => (used j).mpr ?_⟩
      exact or_iff_not_imp_left.mpr (full j)
    · change (∀ t, (Function.update s.held thid (i :: s.held thid) t).length ≤ 1) ↔ _
      constructor
      · intro single
        have empty : s.held thid = [] := by
          have := single thid
          rw [Function.update_self, List.length_cons] at this
          exact List.length_eq_zero_iff.mp (by omega)
        refine ⟨empty, fun t => ?_⟩
        by_cases same : t = thid
        · rw [same, empty]
          exact Nat.zero_le 1
        · have := single t
          rwa [Function.update_of_ne same] at this
      · rintro ⟨empty, single⟩ t
        by_cases same : t = thid
        · rw [same, Function.update_self, empty]
          exact le_refl 1
        · rw [Function.update_of_ne same]
          exact single t

theorem Traps.Kept.resumed (kept : s.Kept) {rest : List (Fin maxContext)} (top : s.held thid = i :: rest) :
    (s.psplinkResumeFromException thid i).Kept := by
  have used (j : Fin maxContext) : (s.setContext i ((s.list i).setValid 0)).Used j ↔ j ≠ i ∧ s.Used j := by
    rw [used_setContext]
    split
    · next here => simp [here]
    · next other => simp [other]
  have owned := (kept.owned.pop top).congr used
  have held : (s.psplinkResumeFromException thid i).held = Function.update s.held thid rest := by
    rw [psplinkResumeFromException, top]
    rfl
  refine (kept_iff (s := s.psplinkResumeFromException thid i) (held ▸ owned)).mpr fun full => ?_
  exact absurd rfl ((used i).mp (full i)).1

theorem Traps.Kept.step_iff {e : TrapEvent} (kept : s.Kept) (step : Trapping s e s') : s'.Kept ↔ Ordinary s e := by
  cases step with
  | @exception thid regs =>
      unfold psplinkExceptionHandler Ordinary
      cases found : s.findFree with
      | none =>
          dsimp only
          rw [psplinkTrap]
          split
          · next thread => rw [kept.dropped_iff, imp_iff_right thread]
          · next interrupt => exact iff_of_true kept fun thread => absurd thread interrupt
      | some i => exact kept.taken_iff found regs
  | @store thid env i rest top =>
      refine iff_of_true ?_ trivial
      unfold Traps.store
      cases env with
      | none => exact kept.setContext (by rw [Context.valid_setThid])
      | some drcntl =>
          refine kept.setContext ?_
          split <;> rfl
  | edit same => exact iff_of_true (kept.setContext same) trivial
  | resume top => exact iff_of_true (kept.resumed top) trivial
  | terminate => exact kept.dropped_iff

theorem Traps.kept_init (unused : ∀ i, (s.list i).valid = 0) (empty : ∀ thid, s.held thid = []) : s.Kept := by
  have owned : Owned s.Used s.held := .free (fun i used => used (unused i)) empty
  exact (kept_iff owned).mpr fun full => absurd (unused 0) (full 0)

theorem kept_of_reachable (reachable : (traps.guard Ordinary).Reachable s) : s.Kept := by
  apply reachable.invariant
  · rintro s ⟨unused, empty⟩
    exact Traps.kept_init unused empty
  · rintro s e s' kept ⟨ordinary, step⟩
    exact (kept.step_iff step).mpr ordinary

/-- In a run of ordinary events no context is lost or shared, an exception takes one that no thread has, and a thread
that goes on gives up its own; an event that is not ordinary breaks it. -/
theorem contexts_kept (reachable : (traps.guard Ordinary).Reachable s) :
    s.Kept ∧ (∀ e s', traps.step s e s' → (s'.Kept ↔ Ordinary s e)) ∧
    (∀ regs i, (s.psplinkExceptionHandler regs).2 = some i → (s.list i).valid = 0 ∧ ∀ thid, i ∉ s.held thid) ∧
    ∀ thid i rest s', s.held thid = i :: rest → traps.step s (.resume thid) s' →
      (s'.list i).valid = 0 ∧ s'.held thid = rest := by
  have kept := kept_of_reachable reachable
  refine ⟨kept, fun e s' step => kept.step_iff step, ?_, ?_⟩
  · intro regs i taken
    have found : s.findFree = some i := by
      unfold Traps.psplinkExceptionHandler at taken
      cases found : s.findFree with
      | none =>
          rw [found] at taken
          cases taken
      | some j =>
          rw [found] at taken
          exact taken
    have unused := Traps.free_of_findFree found
    exact ⟨not_not.mp unused, fun thid mem => unused (kept.owned.used mem)⟩
  · intro thid i rest s' top step
    cases step with
    | resume top' =>
        obtain ⟨rfl, rfl⟩ := List.cons.inj (top.symm.trans top')
        refine ⟨?_, ?_⟩
        · simp [Traps.psplinkResumeFromException, Traps.setHeld, Traps.setContext]
        · simp [Traps.psplinkResumeFromException, Traps.setHeld, top]

def trappedOnce : Traps :=
  let s := Traps.psplinkInitException
  (s.psplinkExceptionHandler fun _ => 0).1.psplinkTrap 1 (s.psplinkExceptionHandler fun _ => 0).2

theorem trappedOnce_reachable : (traps.guard Ordinary).Reachable trappedOnce := by
  have start : (traps.guard Ordinary).Reachable .psplinkInitException := .init ⟨fun _ => rfl, fun _ => rfl⟩
  refine start.step (a := .exception 1 fun _ => 0) ⟨?_, .exception⟩
  exact ⟨by decide, fun _ => ⟨rfl, fun _ => Nat.zero_le 1⟩⟩

theorem trapped_context_kept : trappedOnce.held 1 = [0] ∧ trappedOnce.Kept :=
  ⟨rfl, (contexts_kept trappedOnce_reachable).1⟩

/-- An exception in an interrupt keeps its context for good. -/
theorem interrupt_keeps_context : ∃ s, traps.Reachable s ∧ s.Used 0 ∧ (∀ thid, s.held thid = []) ∧ ¬ s.Kept := by
  let s := Traps.psplinkInitException
  let s' := (s.psplinkExceptionHandler fun _ => 0).1.psplinkTrap (-1) (s.psplinkExceptionHandler fun _ => 0).2
  have used : s'.Used 0 := by
    unfold Traps.Used
    decide
  have empty (thid : Word) : s'.held thid = [] := rfl
  have start : traps.Reachable s := .init ⟨fun _ => rfl, fun _ => rfl⟩
  refine ⟨s', start.step (a := .exception (-1) fun _ => 0) .exception, used, empty, fun kept => ?_⟩
  obtain ⟨thid, mem⟩ := kept.owned.owner 0 used
  rw [empty] at mem
  cases mem

/-! ## With the commands -/

/-- The contexts of a run in which threads are stopped and let on by the commands. -/
def Exceptions.toTraps (s : Exceptions) : Traps where
  list := s.list
  held thid := (s.phase thid).context.toList

theorem Exceptions.held_toTraps (s : Exceptions) (t : Word) : s.toTraps.held t = (s.phase t).context.toList := rfl

section Commands

variable {k : Kernel} {bus : Bus} {s s' : Exceptions} {t : Word} {i : Fin maxContext}

theorem Exceptions.toTraps_setPhase (s : Exceptions) (t : Word) (p : Phase) :
    (s.setPhase t p).toTraps = s.toTraps.setHeld t p.context.toList := by
  refine congrArg (Traps.mk s.list) (funext fun u => ?_)
  change (Function.update s.phase t p u).context.toList = Function.update s.toTraps.held t p.context.toList u
  rw [Function.update_apply, Function.update_apply]
  split <;> rfl

/-- A thread that moves on with the context it has. -/
theorem Exceptions.toTraps_moved {p : Phase} (same : p.context = (s.phase t).context) : (s.setPhase t p).toTraps = s.toTraps := by
  rw [toTraps_setPhase, same, Traps.setHeld]
  congr 1
  exact Function.update_eq_self t _

theorem Exceptions.held_of_phase {p : Phase} (phase : s.phase t = p) (context : p.context = some i) :
    s.toTraps.held t = [i] := by
  rw [held_toTraps, phase, context]
  rfl

theorem Exceptions.toTraps_wakeup (s : Exceptions) (t : Word) : (s.sceKernelWakeupThread t).toTraps = s.toTraps := by
  unfold sceKernelWakeupThread
  split
  · next asleep => exact toTraps_moved (by rw [asleep]; rfl)
  · rfl
  · rfl

theorem Exceptions.toTraps_resume (s : Exceptions) : s.exceptionResume.toTraps = s.toTraps := by
  unfold exceptionResume
  split
  · rfl
  · exact s.toTraps_wakeup _

/-- An exception of a thread that is in no trap is an ordinary one. -/
theorem Exceptions.toTraps_exception (reachable : (traps.guard Ordinary).Reachable s.toTraps)
    (running : s.phase t = .running) (thread : 0 ≤ t.toInt) (regs : Context) :
    (traps.guard Ordinary).Reachable (s.psplinkExceptionHandler t regs).toTraps := by
  have empty : s.toTraps.held t = [] := by
    rw [held_toTraps, running]
    rfl
  have same : (s.psplinkExceptionHandler t regs).toTraps =
      (s.toTraps.psplinkExceptionHandler regs).1.psplinkTrap t (s.toTraps.psplinkExceptionHandler regs).2 := by
    unfold psplinkExceptionHandler Traps.psplinkExceptionHandler
    cases found : s.findFree with
    | none =>
        rw [show s.toTraps.findFree = none from found]
        simp only [Traps.psplinkTrap, if_pos thread]
        exact s.toTraps_setPhase t .deleted
    | some i =>
        rw [show s.toTraps.findFree = some i from found]
        simp only [Traps.psplinkTrap, if_neg (Int.not_lt.mpr thread)]
        have held : (s.toTraps.setContext i ((s.list i).taken regs)).held t = [] := empty
        rw [show s.toTraps.list i = s.list i from rfl, held]
        exact toTraps_setPhase (s.setContext i ((s.list i).taken regs)) t (.stored i)
  rw [same]
  refine reachable.step (a := .exception t regs) ⟨?_, .exception⟩
  unfold Ordinary
  cases s.toTraps.findFree with
  | none => exact fun _ => empty
  | some i =>
      refine ⟨thread, fun _ => ⟨empty, fun u => ?_⟩⟩
      rw [held_toTraps]
      cases (s.phase u).context with
      | none => exact Nat.zero_le 1
      | some j => exact le_refl 1

theorem Exceptions.toTraps_edit (reachable : (traps.guard Ordinary).Reachable s.toTraps) {c : Context} {p : Phase}
    (context : p.context = (s.phase t).context) (same : c.valid = 0 ↔ (s.list i).valid = 0) :
    (traps.guard Ordinary).Reachable ((s.setContext i c).setPhase t p).toTraps := by
  rw [toTraps_moved (s := s.setContext i c) context]
  exact reachable.step (a := .edit i c) ⟨trivial, .edit same⟩

/-- As long as threads take no second context and interrupts none, every run is one of ordinary events. -/
theorem Exceptions.toTraps_reachable (parser : 0 ≤ k.parser.toInt) (reachable : (exceptions k bus).Reachable s) :
    (traps.guard Ordinary).Reachable s.toTraps := by
  induction reachable with
  | init starts =>
      refine .init ⟨starts.valid, fun thid => ?_⟩
      rw [held_toTraps, starts.phase]
      rfl
  | @step s a s' _ move ih =>
      cases move with
      | exception running thread => exact toTraps_exception ih running thread _
      | @trap t env i stored =>
          have held := held_of_phase stored rfl
          have same : (s.psplinkTrap t env i).toTraps = s.toTraps.store t env i := by
            unfold psplinkTrap
            rw [toTraps_moved (by rw [show (Exceptions.setContext _ _ _).phase t = s.phase t from rfl, stored]; rfl)]
            cases env <;> rfl
          rw [same]
          exact ih.step (a := .store t env) ⟨trivial, .store held⟩
      | gdb trapped =>
          rw [toTraps_moved (by rw [trapped]; rfl)]
          exact ih
      | @gdbReturn t i ctx gdb =>
          have used := (kept_of_reachable ih).owned.used (List.mem_of_mem_head? (by rw [held_of_phase gdb rfl]; rfl))
          exact toTraps_edit ih (by rw [gdb]; rfl) (iff_of_false (nofun : (1 : Word) ≠ 0) used)
      | handle trapped =>
          refine (congrArg _ (toTraps_moved ?_)).mpr ih
          rcases trapped with trapped | gdb
          · rw [trapped]
            rfl
          · rw [gdb]
            rfl
      | suspend handling =>
          unfold suspend
          split
          · next ctx parse =>
            unfold exceptionCheckParseThread at parse
            split at parse
            · obtain rfl := Option.some.inj parse
              refine toTraps_edit ih (by rw [handling]; rfl) ?_
              rw [Context.valid_setReg, Context.valid_setReg, Context.valid_setReg]
            · cases parse
          · unfold sceKernelSleepThread
            split
            · rw [toTraps_moved (by rw [handling]; rfl)]
              exact ih
            · refine (congrArg _ (toTraps_moved (p := .returning _) ?_)).mpr ih
              rw [handling]
              rfl
      | @free t i returning =>
          have held := held_of_phase returning rfl
          have same : (s.psplinkResumeFromException t i).toTraps = s.toTraps.psplinkResumeFromException t i := by
            rw [psplinkResumeFromException, toTraps_setPhase, Traps.psplinkResumeFromException, held]
            rfl
          rw [same]
          exact ih.step (a := .resume t) ⟨trivial, .resume held⟩
      | resume =>
          rw [toTraps_resume]
          exact ih
      | step running =>
          unfold debugStep
          split
          · exact ih
          · split
            · rw [toTraps_resume]
              exact ih
            · next stepping _ => exact toTraps_exception (s := s.setStepping stepping) ih running parser _
      | setCtx =>
          unfold exceptionSetCtx
          split
          · dsimp only
            split
            · exact ih
            · exact ih
          · exact ih

end Commands

end Psplink.Exception
