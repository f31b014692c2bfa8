import Psplink.Debug.Breakpoints

/-!
# The current exception

`g_currex` of psplink/exception.c over the life of the exception contexts: taken by the handler of
psplink_user/exception_asm.S, passed through `psplinkTrap` and `psplinkHandleException`, and given
back by `_psplinkExceptionResume`. Every stretch between two points at which another thread can run
is a step.
-/

namespace Psplink.Exception
open Psplink.Lib Psplink.Debug

abbrev maxContext : Nat := 8

namespace Context

def setValid (c : Context) (value : Word) : Context := Function.update c 0 value
def setThid (c : Context) (thid : Word) : Context := Function.update c 227 thid
def setDrcntl (c : Context) (drcntl : Word) : Context := Function.update c 228 drcntl

/-- What the handler leaves of a free context: its link and what `psplinkTrap` writes are still old. -/
def taken (c regs : Context) : Context :=
  fun i => if i = 0 then 1 else if 2 ≤ i ∧ i < 227 then regs i else c i

@[simp] theorem valid_taken (c regs : Context) : (c.taken regs).valid = 1 := rfl

@[simp] theorem valid_setValid (c : Context) (value : Word) : (c.setValid value).valid = value := rfl

@[simp] theorem valid_setThid (c : Context) (thid : Word) : (c.setThid thid).valid = c.valid := rfl

@[simp] theorem valid_setDrcntl (c : Context) (drcntl : Word) :
    (c.setDrcntl drcntl).valid = c.valid := rfl

@[simp] theorem thid_setThid (c : Context) (thid : Word) : (c.setThid thid).thid = thid := rfl

@[simp] theorem thid_setDrcntl (c : Context) (drcntl : Word) : (c.setDrcntl drcntl).thid = c.thid := rfl

theorem valid_setReg (c : Context) (r : Reg) (value : Word) : (c.setReg r value).valid = c.valid := by
  rw [valid, valid, setReg, if_neg (by omega)]

end Context

/-- What the kernel answers about threads, and the addresses `exceptionCheckParseThread` puts in a
context. Commands run in the thread `parser`. -/
structure Kernel where
  isParse : Word → Bool
  parser : Word
  parser_isParse : isParse parser = true
  longjmp : Word
  parseenv : Word

/-- Where a thread is: `trapped` from the store of its id, `handling` from the store to `g_currex`,
`asleep` in `sceKernelSleepThread`, `returning` on the way to the store that frees the context. -/
inductive Phase
  | running
  | stored (i : Fin maxContext)
  | trapped (i : Fin maxContext)
  | gdb (i : Fin maxContext)
  | handling (i : Fin maxContext)
  | asleep (i : Fin maxContext)
  | returning (i : Fin maxContext)
  | deleted
  deriving DecidableEq

def Phase.context : Phase → Option (Fin maxContext)
  | .running | .deleted => none
  | .stored i | .trapped i | .gdb i | .handling i | .asleep i | .returning i => some i

/-- `woken` counts the wake-ups `exceptionResume` has given since a context was taken. -/
structure Exceptions where
  list : Fin maxContext → Context
  currex : Option (Fin maxContext)
  debug : Debugger
  phase : Word → Phase
  wakeups : Word → Nat
  woken : Fin maxContext → Nat

namespace Exceptions

def setContext (s : Exceptions) (i : Fin maxContext) (c : Context) : Exceptions :=
  { s with list := Function.update s.list i c }

def setPhase (s : Exceptions) (t : Word) (p : Phase) : Exceptions :=
  { s with phase := Function.update s.phase t p }

def findFree (s : Exceptions) : Option (Fin maxContext) :=
  (List.finRange maxContext).find? fun i => (s.list i).valid == 0

/-- The handler and, where it finds no context, the `psplinkTrap` that deletes the thread. -/
def psplinkExceptionHandler (t : Word) (regs : Context) (s : Exceptions) : Exceptions :=
  match s.findFree with
  | none => s.setPhase t .deleted
  | some i =>
      { (s.setContext i ((s.list i).taken regs)).setPhase t (.stored i) with
        woken := Function.update s.woken i 0 }

/-- `psplinkTrap` up to the handlers; `env` is what `debugGetEnv` finds. -/
def psplinkTrap (t : Word) (env : Option Word) (i : Fin maxContext) (s : Exceptions) : Exceptions :=
  let ctx := (s.list i).setThid t
  let ctx := match env with
    | some drcntl => if ctx.reg .type = exDebug then ctx.setDrcntl drcntl else ctx
    | none => ctx
  (s.setContext i ctx).setPhase t (.trapped i)

/-- `psplinkHandleException` up to the sleep. -/
def psplinkHandleException (t : Word) (i : Fin maxContext) (s : Exceptions) : Exceptions :=
  { s.setPhase t (.handling i) with
    currex := some i
    debug := s.debug.debugHandleException ((s.list i).reg .epc) }

def exceptionCheckParseThread (k : Kernel) (ctx : Context) : Option Context :=
  if k.isParse ctx.thid then
    some (((ctx.setReg .epc k.longjmp).setReg (.r 4) k.parseenv).setReg (.r 5) 1)
  else none

def sceKernelSleepThread (t : Word) (i : Fin maxContext) (s : Exceptions) : Exceptions :=
  if s.wakeups t = 0 then s.setPhase t (.asleep i)
  else { s.setPhase t (.returning i) with
    wakeups := Function.update s.wakeups t (s.wakeups t - 1) }

def sceKernelWakeupThread (t : Word) (s : Exceptions) : Exceptions :=
  match s.phase t with
  | .asleep i => s.setPhase t (.returning i)
  | .deleted => s
  | _ => { s with wakeups := Function.update s.wakeups t (s.wakeups t + 1) }

/-- The end of `psplinkHandleException`. -/
def suspend (k : Kernel) (t : Word) (i : Fin maxContext) (s : Exceptions) : Exceptions :=
  match exceptionCheckParseThread k (s.list i) with
  | some ctx => (s.setContext i ctx).setPhase t (.returning i)
  | none => s.sceKernelSleepThread t i

/-- The store of `_psplinkExceptionResume` that frees the context. -/
def psplinkResumeFromException (t : Word) (i : Fin maxContext) (s : Exceptions) : Exceptions :=
  (s.setContext i ((s.list i).setValid 0)).setPhase t .running

def exceptionResume (s : Exceptions) : Exceptions :=
  match s.currex with
  | none => s
  | some i =>
      { s.sceKernelWakeupThread (s.list i).thid with
        currex := none
        woken := Function.update s.woken i (s.woken i + 1) }

def exceptionSetCtx (ex : Int) (s : Exceptions) : Exceptions :=
  if bound : 0 ≤ ex ∧ ex < maxContext then
    let i : Fin maxContext := ⟨ex.toNat, by omega⟩
    if (s.list i).valid = 0 then s else { s with currex := some i }
  else s

def setStepping (s : Exceptions) (stepping : Stepping) : Exceptions :=
  { s with debug := { s.debug with toStepping := stepping } }

/-- `debugStep`; a fault in `step_generic` is an exception of the parse thread, at `regs`. -/
def debugStep (k : Kernel) (bus : Bus) (skip : Bool) (regs : Context) (s : Exceptions) : Exceptions :=
  match s.currex with
  | none => s
  | some i =>
      match stepGeneric bus false skip (.ofContext (s.list i)) s.debug.toStepping with
      | .ok stepping => (s.setStepping stepping).exceptionResume
      | .error stepping => (s.setStepping stepping).psplinkExceptionHandler k.parser regs

end Exceptions

/-! ## Runs -/

/-- `gdbReturn` is a handler registered by a GDB server that has dealt with the exception. -/
inductive ExceptionEvent
  | exception (t : Word) (regs : Context)
  | trap (t : Word) (env : Option Word)
  | gdb (t : Word)
  | gdbReturn (t : Word) (ctx : Context)
  | handle (t : Word)
  | suspend (t : Word)
  | free (t : Word)
  | resume
  | step (skip : Bool) (regs : Context)
  | setCtx (ex : Int)

def ExceptionEvent.isCommand : ExceptionEvent → Bool
  | .resume | .step .. | .setCtx _ => true
  | _ => false

inductive Move (k : Kernel) (bus : Bus) (s : Exceptions) : ExceptionEvent → Exceptions → Prop
  | exception {t regs} : s.phase t = .running → 0 ≤ t.toInt →
      Move k bus s (.exception t regs) (s.psplinkExceptionHandler t regs)
  | trap {t env i} : s.phase t = .stored i → Move k bus s (.trap t env) (s.psplinkTrap t env i)
  | gdb {t i} : s.phase t = .trapped i → Move k bus s (.gdb t) (s.setPhase t (.gdb i))
  | gdbReturn {t i ctx} : s.phase t = .gdb i →
      Move k bus s (.gdbReturn t ctx) ((s.setContext i (ctx.setValid 1)).setPhase t (.returning i))
  | handle {t i} : s.phase t = .trapped i ∨ s.phase t = .gdb i →
      Move k bus s (.handle t) (s.psplinkHandleException t i)
  | suspend {t i} : s.phase t = .handling i → Move k bus s (.suspend t) (s.suspend k t i)
  | free {t i} : s.phase t = .returning i →
      Move k bus s (.free t) (s.psplinkResumeFromException t i)
  | resume : s.phase k.parser = .running → Move k bus s .resume s.exceptionResume
  | step {skip regs} : s.phase k.parser = .running →
      Move k bus s (.step skip regs) (s.debugStep k bus skip regs)
  | setCtx {ex} : s.phase k.parser = .running → Move k bus s (.setCtx ex) (s.exceptionSetCtx ex)

/-- `psplinkInitException` has run, and no exception has happened yet. -/
structure Exceptions.Starts (s : Exceptions) : Prop where
  currex : s.currex = none
  valid : ∀ i, (s.list i).valid = 0
  phase : ∀ t, s.phase t = .running
  woken : ∀ i, s.woken i = 0

def exceptions (k : Kernel) (bus : Bus) : System Exceptions ExceptionEvent where
  init := Exceptions.Starts
  step := Move k bus

/-- In `psplinkHandleException`, and only a wake-up still to come lets it out. -/
def Exceptions.Waiting (k : Kernel) (s : Exceptions) (t : Word) (i : Fin maxContext) : Prop :=
  k.isParse t = false ∧ (s.phase t = .asleep i ∨ s.phase t = .handling i ∧ s.wakeups t = 0)

/-- No exception of the parse thread is handled, nor one of a thread with a wake-up pending, and a
context is selected only while its thread waits. -/
def Selecting (k : Kernel) (s : Exceptions) : ExceptionEvent → Prop
  | .handle t => k.isParse t = false ∧ s.wakeups t = 0
  | .setCtx ex => ∀ i : Fin maxContext, (i : Int) = ex → (s.list i).valid ≠ 0 → s.Waiting k (s.list i).thid i
  | _ => True

structure Exceptions.Current (k : Kernel) (s : Exceptions) : Prop where
  waiting : ∀ i, s.currex = some i → (s.list i).valid ≠ 0 ∧ s.Waiting k (s.list i).thid i
  once : ∀ i, s.woken i ≤ 1

/-- From `s` to `s'` the thread of `i` is let out and no other thread is touched. -/
structure WakesOne (k : Kernel) (s s' : Exceptions) (i : Fin maxContext) : Prop where
  waiting : s.Waiting k (s.list i).thid i
  out : s'.phase (s.list i).thid = .returning i ∨
    s'.phase (s.list i).thid = .handling i ∧ s'.wakeups (s.list i).thid = 1
  others : ∀ t ≠ (s.list i).thid, s'.phase t = s.phase t ∧ s'.wakeups t = s.wakeups t
  currex : s'.currex = none

/-! ## The invariant -/

def Phase.Sound (s : Exceptions) (t : Word) : Phase → Prop
  | .running | .deleted => True
  | .stored i => (s.list i).valid ≠ 0 ∧ s.woken i = 0
  | .trapped i | .gdb i | .asleep i => (s.list i).valid ≠ 0 ∧ (s.list i).thid = t ∧ s.woken i = 0
  | .handling i => (s.list i).valid ≠ 0 ∧ (s.list i).thid = t ∧ (s.wakeups t = 0 → s.woken i = 0)
  | .returning i => (s.list i).valid ≠ 0

structure Exceptions.Inv (k : Kernel) (s : Exceptions) : Prop extends Exceptions.Current k s where
  sound : ∀ t, (s.phase t).Sound s t
  apart : ∀ t u i, (s.phase t).context = some i → (s.phase u).context = some i → t = u

variable {k : Kernel} {bus : Bus} {s s' : Exceptions} {t u : Word} {i : Fin maxContext}

theorem Phase.Sound.valid {p : Phase} (sound : p.Sound s t) (holds : p.context = some i) :
    (s.list i).valid ≠ 0 := by
  cases p with
  | running | deleted => cases holds
  | stored j | trapped j | gdb j | asleep j | handling j =>
      cases holds
      exact sound.1
  | returning j =>
      cases holds
      exact sound

theorem Phase.Sound.congr {p : Phase} (sound : p.Sound s t) (wakeups : s'.wakeups t = s.wakeups t)
    (kept : ∀ i, p.context = some i → s'.list i = s.list i ∧ s'.woken i = s.woken i) : p.Sound s' t := by
  cases p with
  | running | deleted => trivial
  | stored i | trapped i | gdb i | asleep i | handling i | returning i =>
      obtain ⟨list, woken⟩ := kept i rfl
      simpa only [Phase.Sound, list, woken, wakeups] using sound

theorem Exceptions.Waiting.context (waiting : s.Waiting k t i) : (s.phase t).context = some i := by
  rcases waiting.2 with asleep | ⟨handling, -⟩
  · rw [asleep]
    rfl
  · rw [handling]
    rfl

theorem Exceptions.Waiting.congr (waiting : s.Waiting k t i) (phase : s'.phase t = s.phase t)
    (wakeups : s'.wakeups t = s.wakeups t) : s'.Waiting k t i := by
  simpa only [Exceptions.Waiting, phase, wakeups] using waiting

namespace Exceptions.Inv

theorem woken_of_waiting (inv : s.Inv k) (waiting : s.Waiting k t i) : s.woken i = 0 := by
  have sound := inv.sound t
  rcases waiting.2 with asleep | ⟨handling, none⟩
  · rw [asleep] at sound
    exact sound.2.2
  · rw [handling] at sound
    exact sound.2.2 none

/-- One thread moves on, with the context it holds. -/
theorem move {p : Phase} (inv : s.Inv k) (phase : s'.phase = Function.update s.phase t p)
    (wakeups : ∀ u ≠ t, s'.wakeups u = s.wakeups u) (sound : p.Sound s' t)
    (others : ∀ u ≠ t, ∀ j, (s.phase u).context = some j →
      s'.list j = s.list j ∧ s'.woken j = s.woken j ∧ p.context ≠ some j)
    (once : ∀ j, s'.woken j ≤ 1)
    (current : ∀ j, s'.currex = some j → s.currex = some j ∧ (s.phase t).context ≠ some j ∨
      (s'.list j).valid ≠ 0 ∧ s'.Waiting k (s'.list j).thid j) : s'.Inv k where
  once := once
  waiting j same := by
    rcases current j same with ⟨before, other⟩ | now
    · obtain ⟨valid, waiting⟩ := inv.waiting j before
      have ne : (s.list j).thid ≠ t := by
        rintro rfl
        exact other waiting.context
      rw [(others _ ne j waiting.context).1]
      refine ⟨valid, waiting.congr ?_ (wakeups _ ne)⟩
      rw [phase, Function.update_of_ne ne]
    · exact now
  sound u := by
    by_cases same : u = t
    · subst same
      rwa [phase, Function.update_self]
    · rw [phase, Function.update_of_ne same]
      exact (inv.sound u).congr (wakeups u same) fun j holds => ⟨(others u same j holds).1, (others u same j holds).2.1⟩
  apart u v j first second := by
    rw [phase, Function.update_apply] at first second
    split at first <;> split at second
    · simp_all
    · exact absurd first (others v ‹_› j second).2.2
    · exact absurd second (others u ‹_› j first).2.2
    · exact inv.apart u v j first second

/-- A context that thread `t` holds is no other thread's. -/
theorem ne_context (inv : s.Inv k) (holds : (s.phase t).context = some i) (other : u ≠ t)
    {j : Fin maxContext} (held : (s.phase u).context = some j) : j ≠ i := by
  rintro rfl
  exact other (inv.apart u t _ held holds)

/-- A step of the thread that holds `i`, and of nothing else. -/
theorem own {p : Phase} (inv : s.Inv k) (holds : (s.phase t).context = some i)
    (phase : s'.phase = Function.update s.phase t p) (wakeups : ∀ u ≠ t, s'.wakeups u = s.wakeups u)
    (list : ∀ j ≠ i, s'.list j = s.list j) (woken : ∀ j ≠ i, s'.woken j = s.woken j)
    (context : ∀ j, p.context = some j → j = i) (sound : p.Sound s' t) (once : s'.woken i ≤ 1)
    (current : ∀ j, s'.currex = some j → s.currex = some j ∧ j ≠ i ∨
      (s'.list j).valid ≠ 0 ∧ s'.Waiting k (s'.list j).thid j) : s'.Inv k := by
  apply inv.move phase wakeups sound
  · intro u other j held
    have ne := inv.ne_context holds other held
    exact ⟨list j ne, woken j ne, fun same => ne (context j same)⟩
  · intro j
    by_cases same : j = i
    · rw [same]
      exact once
    · rw [woken j same]
      exact inv.once j
  · intro j now
    rcases current j now with ⟨before, ne⟩ | now
    · refine .inl ⟨before, ?_⟩
      rw [holds]
      rintro ⟨⟩
      exact ne rfl
    · exact .inr now

theorem ne_currex (inv : s.Inv k) (holds : (s.phase t).context = some i) (out : ¬s.Waiting k t i)
    {j : Fin maxContext} (current : s.currex = some j) : j ≠ i := by
  rintro rfl
  have waiting := (inv.waiting j current).2
  rw [inv.apart _ _ _ waiting.context holds] at waiting
  exact out waiting

theorem psplinkExceptionHandler (inv : s.Inv k) (running : s.phase t = .running) (regs : Context) :
    (s.psplinkExceptionHandler t regs).Inv k := by
  have context : ∀ j, (s.phase t).context ≠ some j := by simp [running, Phase.context]
  unfold Exceptions.psplinkExceptionHandler
  split
  · refine inv.move (p := .deleted) rfl (fun _ _ => rfl) trivial ?_ inv.once ?_
    · intro u _ j _
      exact ⟨rfl, rfl, nofun⟩
    · intro j current
      exact .inl ⟨current, context j⟩
  · rename_i i free
    have empty : (s.list i).valid = 0 := by simpa using List.find?_some free
    have ne : ∀ u j, (s.phase u).context = some j → j ≠ i := by
      rintro u j held rfl
      exact (inv.sound u).valid held empty
    refine inv.move (p := .stored i) rfl (fun _ _ => rfl) ?_ ?_ ?_ ?_
    · simp [Phase.Sound, setContext, setPhase]
    · intro u _ j held
      have other := ne u j held
      simp [setContext, setPhase, Phase.context, other, Ne.symm other]
    · intro j
      by_cases same : j = i
      · simp [same]
      · simpa [same] using inv.once j
    · intro j current
      exact .inl ⟨current, context j⟩

theorem psplinkTrap (inv : s.Inv k) (stored : s.phase t = .stored i) (env : Option Word) :
    (s.psplinkTrap t env i).Inv k := by
  have holds : (s.phase t).context = some i := by rw [stored]; rfl
  have sound := inv.sound t
  rw [stored] at sound
  refine inv.own (p := .trapped i) holds rfl (fun _ _ => rfl) ?_ (fun _ _ => rfl) ?_ ?_ (inv.once i) ?_
  · intro j other
    simp [Exceptions.psplinkTrap, setContext, setPhase, other]
  · rintro j ⟨⟩
    rfl
  · obtain ⟨valid, woken⟩ := sound
    simp only [Exceptions.psplinkTrap, setContext, setPhase, Phase.Sound, Function.update_self]
    refine ⟨?_, ?_, woken⟩
    · split
      · split <;> exact valid
      · exact valid
    · split
      · split <;> rfl
      · rfl
  · intro j current
    exact .inl ⟨current, inv.ne_currex holds (by simp [Exceptions.Waiting, stored]) current⟩

theorem gdb (inv : s.Inv k) (trapped : s.phase t = .trapped i) : (s.setPhase t (.gdb i)).Inv k := by
  have holds : (s.phase t).context = some i := by rw [trapped]; rfl
  have sound := inv.sound t
  rw [trapped] at sound
  refine inv.own (p := .gdb i) holds rfl (fun _ _ => rfl) (fun _ _ => rfl) (fun _ _ => rfl) ?_ sound
    (inv.once i) ?_
  · rintro j ⟨⟩
    rfl
  · intro j current
    exact .inl ⟨current, inv.ne_currex holds (by simp [Exceptions.Waiting, trapped]) current⟩

theorem gdbReturn (inv : s.Inv k) (gdb : s.phase t = .gdb i) (ctx : Context) :
    ((s.setContext i (ctx.setValid 1)).setPhase t (.returning i)).Inv k := by
  have holds : (s.phase t).context = some i := by rw [gdb]; rfl
  refine inv.own (p := .returning i) holds rfl (fun _ _ => rfl) ?_ (fun _ _ => rfl) ?_ ?_ (inv.once i) ?_
  · intro j other
    simp [setContext, setPhase, other]
  · rintro j ⟨⟩
    rfl
  · simp [Phase.Sound, setContext, setPhase]
  · intro j current
    exact .inl ⟨current, inv.ne_currex holds (by simp [Exceptions.Waiting, gdb]) current⟩

theorem psplinkHandleException (inv : s.Inv k) (here : s.phase t = .trapped i ∨ s.phase t = .gdb i)
    (other : k.isParse t = false) (none : s.wakeups t = 0) : (s.psplinkHandleException t i).Inv k := by
  have holds : (s.phase t).context = some i := by
    rcases here with here | here
    all_goals rw [here]; rfl
  obtain ⟨valid, thid, woken⟩ : (s.list i).valid ≠ 0 ∧ (s.list i).thid = t ∧ s.woken i = 0 := by
    have sound := inv.sound t
    rcases here with here | here
    all_goals rw [here] at sound; exact sound
  refine inv.own (p := .handling i) holds rfl (fun _ _ => rfl) (fun _ _ => rfl) (fun _ _ => rfl) ?_
    ⟨valid, thid, fun _ => woken⟩ (inv.once i) ?_
  · rintro j ⟨⟩
    rfl
  · rintro j ⟨⟩
    refine .inr ⟨valid, ?_⟩
    show Exceptions.Waiting k _ (s.list i).thid i
    rw [thid]
    exact ⟨other, .inr ⟨Function.update_self .., none⟩⟩

theorem suspend (inv : s.Inv k) (handling : s.phase t = .handling i) : (s.suspend k t i).Inv k := by
  have holds : (s.phase t).context = some i := by rw [handling]; rfl
  have sound := inv.sound t
  rw [handling] at sound
  obtain ⟨valid, thid, woken⟩ := sound
  unfold Exceptions.suspend exceptionCheckParseThread
  rw [thid]
  split
  · rename_i ctx check
    have parse : k.isParse t = true := by
      by_contra other
      simp [other] at check
    rw [if_pos parse, Option.some.injEq] at check
    refine inv.own (p := .returning i) holds rfl (fun _ _ => rfl) ?_ (fun _ _ => rfl) ?_ ?_ (inv.once i) ?_
    · intro j other
      simp [setContext, setPhase, other]
    · rintro j ⟨⟩
      rfl
    · simpa [Phase.Sound, setContext, setPhase, ← check, Context.valid_setReg] using valid
    · intro j current
      exact .inl ⟨current, inv.ne_currex holds (by simp [Exceptions.Waiting, parse]) current⟩
  · rename_i check
    have other : k.isParse t = false := by
      by_contra parse
      simp [parse] at check
    unfold sceKernelSleepThread
    split
    · rename_i none
      refine inv.own (p := .asleep i) holds rfl (fun _ _ => rfl) (fun _ _ => rfl) (fun _ _ => rfl) ?_
        ⟨valid, thid, woken none⟩ (inv.once i) ?_
      · rintro j ⟨⟩
        rfl
      · intro j current
        by_cases same : j = i
        · subst same
          refine .inr ⟨valid, ?_⟩
          show Exceptions.Waiting k _ (s.list j).thid j
          rw [thid]
          exact ⟨other, .inl (Function.update_self ..)⟩
        · exact .inl ⟨current, same⟩
    · rename_i some
      refine inv.own (p := .returning i) holds rfl ?_ (fun _ _ => rfl) (fun _ _ => rfl) ?_ valid
        (inv.once i) ?_
      · intro u other
        exact Function.update_of_ne other _ _
      · rintro j ⟨⟩
        rfl
      · intro j current
        exact .inl ⟨current, inv.ne_currex holds (by simp [Exceptions.Waiting, handling, some]) current⟩

theorem psplinkResumeFromException (inv : s.Inv k) (returning : s.phase t = .returning i) :
    (s.psplinkResumeFromException t i).Inv k := by
  have holds : (s.phase t).context = some i := by rw [returning]; rfl
  refine inv.own (p := .running) holds rfl (fun _ _ => rfl) ?_ (fun _ _ => rfl) nofun trivial (inv.once i) ?_
  · intro j other
    simp [Exceptions.psplinkResumeFromException, setContext, setPhase, other]
  · intro j current
    exact .inl ⟨current, inv.ne_currex holds (by simp [Exceptions.Waiting, returning]) current⟩

theorem exceptionResume (inv : s.Inv k) : s.exceptionResume.Inv k := by
  unfold Exceptions.exceptionResume
  split
  · exact inv
  · rename_i i current
    obtain ⟨valid, waiting⟩ := inv.waiting i current
    have woken := inv.woken_of_waiting waiting
    have others : ∀ j ≠ i, Function.update s.woken i (s.woken i + 1) j = s.woken j :=
      fun j other => Function.update_of_ne other _ _
    have once : Function.update s.woken i (s.woken i + 1) i ≤ 1 := by simp [woken]
    rcases waiting.2 with asleep | ⟨handling, none⟩
    · simp only [sceKernelWakeupThread, asleep, setPhase]
      refine inv.own (p := .returning i) waiting.context rfl (fun _ _ => rfl) (fun _ _ => rfl) others ?_
        valid once nofun
      rintro j ⟨⟩
      rfl
    · simp only [sceKernelWakeupThread, handling]
      refine inv.own (p := .handling i) waiting.context ?_ ?_ (fun _ _ => rfl) others ?_ ?_ once nofun
      · show s.phase = _
        rw [← handling, Function.update_eq_self]
      · intro u other
        exact Function.update_of_ne other _ _
      · rintro j ⟨⟩
        rfl
      · exact ⟨valid, rfl, by simp⟩

theorem wakesOne (inv : s.Inv k) (current : s.currex = some i) : WakesOne k s s.exceptionResume i := by
  have waiting := (inv.waiting i current).2
  rw [Exceptions.exceptionResume, current]
  rcases waiting.2 with asleep | ⟨handling, none⟩
  · simp only [sceKernelWakeupThread, asleep, setPhase]
    refine ⟨waiting, .inl (Function.update_self ..), ?_, rfl⟩
    intro u other
    exact ⟨Function.update_of_ne other _ _, rfl⟩
  · simp only [sceKernelWakeupThread, handling]
    refine ⟨waiting, .inr ⟨handling, by simp [none]⟩, ?_, rfl⟩
    intro u other
    exact ⟨rfl, Function.update_of_ne other _ _⟩

theorem setStepping (inv : s.Inv k) (stepping : Stepping) : (s.setStepping stepping).Inv k :=
  ⟨⟨inv.waiting, inv.once⟩, inv.sound, inv.apart⟩

theorem debugStep (inv : s.Inv k) (running : s.phase k.parser = .running) (skip : Bool) (regs : Context) :
    (s.debugStep k bus skip regs).Inv k := by
  unfold Exceptions.debugStep
  split
  · exact inv
  · split
    · exact (inv.setStepping _).exceptionResume
    · rename_i stepping _
      exact (inv.setStepping stepping).psplinkExceptionHandler running regs

theorem exceptionSetCtx (inv : s.Inv k) {ex : Int} (selecting : Selecting k s (.setCtx ex)) :
    (s.exceptionSetCtx ex).Inv k := by
  unfold Exceptions.exceptionSetCtx
  split
  · dsimp only
    split
    · exact inv
    · rename_i bound valid
      refine ⟨⟨?_, inv.once⟩, inv.sound, inv.apart⟩
      rintro j ⟨⟩
      exact ⟨valid, selecting _ (Int.toNat_of_nonneg bound.1) valid⟩
  · exact inv

theorem start (starts : s.Starts) : s.Inv k where
  waiting := by simp [starts.currex]
  once := by simp [starts.woken]
  sound := by simp [starts.phase, Phase.Sound]
  apart := by simp [starts.phase, Phase.context]

theorem step {e : ExceptionEvent} (inv : s.Inv k) (selecting : Selecting k s e) (move : Move k bus s e s') :
    s'.Inv k := by
  cases move with
  | exception running => exact inv.psplinkExceptionHandler running _
  | trap stored => exact inv.psplinkTrap stored _
  | gdb trapped => exact inv.gdb trapped
  | gdbReturn gdb => exact inv.gdbReturn gdb _
  | handle here => exact inv.psplinkHandleException here selecting.1 selecting.2
  | suspend handling => exact inv.suspend handling
  | free returning => exact inv.psplinkResumeFromException returning
  | resume => exact inv.exceptionResume
  | step running => exact inv.debugStep running _ _
  | setCtx => exact inv.exceptionSetCtx selecting

end Exceptions.Inv

/-! ## Every run -/

/-- An event of the wrong kind leaves `g_currex` on a context nothing waits in. -/
theorem selecting_of_current {e : ExceptionEvent} (inv : s.Inv k) (move : Move k bus s e s')
    (current : s'.Current k) : Selecting k s e := by
  cases move with
  | handle here =>
      rename_i t i
      have thid : (s.list i).thid = t := by
        have sound := inv.sound t
        rcases here with here | here
        all_goals rw [here] at sound; exact sound.2.1
      have waiting := (current.waiting i rfl).2
      change Exceptions.Waiting k _ (s.list i).thid i at waiting
      rw [thid] at waiting
      refine ⟨waiting.1, ?_⟩
      rcases waiting.2 with asleep | ⟨-, none⟩
      · cases (Function.update_self t _ s.phase).symm.trans asleep
      · exact none
  | setCtx =>
      rename_i ex _
      rintro i rfl valid
      have selected : s.exceptionSetCtx i = { s with currex := some i } := by
        have bound : (0 : Int) ≤ i ∧ (i : Int) < maxContext := by omega
        rw [Exceptions.exceptionSetCtx, dif_pos bound]
        exact if_neg valid
      rw [selected] at current
      exact (current.waiting i rfl).2
  | _ => trivial

theorem current_inv (reachable : ((exceptions k bus).guard (Selecting k)).Reachable s) : s.Inv k := by
  apply reachable.invariant
  · intro s starts
    exact .start starts
  · rintro s e s' inv ⟨selecting, move⟩
    exact inv.step selecting move

def shellOnly : Kernel := ⟨(· == 7), 7, rfl, 0x08900000, 0x08900100⟩

def idle : Exceptions where
  list _ _ := 0
  currex := none
  debug := .start fun _ => 0
  phase _ := .running
  wakeups _ := 0
  woken _ := 0

theorem idle_starts : idle.Starts :=
  ⟨rfl, fun _ => rfl, fun _ => rfl, fun _ => rfl⟩

def allMemory : Bus := fun _ => true

def shell : System Exceptions ExceptionEvent := exceptions shellOnly allMemory

def slept : Exceptions :=
  (((idle.psplinkExceptionHandler 1 fun _ => 0).psplinkTrap 1 none 0).psplinkHandleException 1 0).suspend
    shellOnly 1 0

theorem Move.reachable (e : ExceptionEvent) (reachable : shell.Reachable s)
    (move : Move shellOnly allMemory s e s') : shell.Reachable s' :=
  reachable.step move

theorem Move.guarded (e : ExceptionEvent) (reachable : (shell.guard (Selecting shellOnly)).Reachable s)
    (selecting : Selecting shellOnly s e) (move : Move shellOnly allMemory s e s') :
    (shell.guard (Selecting shellOnly)).Reachable s' :=
  reachable.step ⟨selecting, move⟩

theorem slept_reachable : (shell.guard (Selecting shellOnly)).Reachable slept := by
  have exception := Move.guarded (.exception 1 fun _ => 0) (.init idle_starts) trivial
    (.exception rfl (by decide))
  have trap := Move.guarded (.trap 1 none) exception trivial (.trap (i := 0) rfl)
  have handle := Move.guarded (.handle 1) trap ⟨rfl, rfl⟩ (.handle (i := 0) (.inl rfl))
  exact Move.guarded (.suspend 1) handle trivial (.suspend (i := 0) rfl)

end Psplink.Exception
