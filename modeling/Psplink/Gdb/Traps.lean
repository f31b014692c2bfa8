import Psplink.Gdb.Stub
import Psplink.Lib.System

/-!
# Traps of several threads

gdbcommon/gdb-common.c: `GdbTrapEntry`, which every thread of the program enters with its own
exception context, and the loop of `GdbMain`. They share `g_context.ctx` and two event flags. The
copies between the contexts are made a word at a time.
-/

namespace Psplink.Gdb
open Psplink.Lib Psplink.Debug Psplink.Exception

/-- Where a thread is in `GdbTrapEntry`; at the end of `copyOut` it returns 1. -/
inductive TrapPhase
  | running
  | copyIn (k : Nat)
  | waiting
  | copyOut (k : Nat)
  deriving DecidableEq

/-- `stopped` is after `GdbMain`, which a new connection calls again. -/
inductive Server
  | handling (sigval : Byte)
  | returning
  | waiting
  | stopped
  | dead
  deriving DecidableEq

/-- What the module information says of the program. -/
structure ModuleInfo where
  textAddr : Word
  textSize : Word

def ModuleInfo.inText (info : ModuleInfo) (entry : Word) : Bool :=
  info.textAddr ≤ entry && entry < info.textAddr + info.textSize

/-- `saved t` is the context `t` trapped with, and `stub.ctx` is `g_context.ctx`. `flagged` last set
`EVENT_HANDLE_EXP`, `report` is the thread whose exception is handled, and `due t` what `t` trapped
with after the commands that were handled for it. -/
structure Traps (ι : Type) where
  stub : Stub
  saved : ι → Context
  phase : ι → TrapPhase
  handleExp : Bool
  cont : Bool
  server : Server
  firstrun : Bool
  flagged : Option ι
  report : Option ι
  due : ι → Option Context

/-- A context as it is after the words of `c` have been copied over it. -/
def Context.over (c base : Context) : Context := fun j => if j < contextWords then c j else base j

def SameWords (n : Nat) (c c' : Context) : Prop := ∀ j < n, c j = c' j

def Stub.setCtx (s : Stub) (ctx : Context) : Stub := { s with ctx := ctx }

/-- What a packet makes of a context. -/
def Stub.edit (bus : Bus) (query : List Byte) (sigval : Byte) (input : Input) (s : Stub) (c : Context) : Context :=
  ((s.setCtx c).handlePacket bus query sigval input).2.ctx

def Server.after (sigval : Byte) : Outcome → Server
  | .reply => .handling sigval
  | .resume => .returning
  | .fault | .overflow => .dead

namespace Traps

variable {ι : Type} [DecidableEq ι]

def setPhase (s : Traps ι) (t : ι) (p : TrapPhase) : Traps ι :=
  { s with phase := Function.update s.phase t p }

/-- A thread of another program is left to the handlers of psplink. -/
def trap (info : ModuleInfo) (t : ι) (ctx : Context) (entry : Option Word) (s : Traps ι) : Traps ι :=
  if entry.any info.inText then
    { s.setPhase t (.copyIn 0) with
      saved := Function.update s.saved t ctx
      due := Function.update s.due t none }
  else s

def copyIn (t : ι) (k : Nat) (s : Traps ι) : Traps ι :=
  { s.setPhase t (.copyIn (k + 1)) with
    stub := s.stub.setCtx (Function.update s.stub.ctx k (s.saved t k)) }

def setHandleExp (t : ι) (s : Traps ι) : Traps ι :=
  { s.setPhase t .waiting with handleExp := true, flagged := some t }

def waitContinue (t : ι) (s : Traps ι) : Traps ι :=
  { s.setPhase t (.copyOut 0) with cont := false }

def copyOut (t : ι) (k : Nat) (s : Traps ι) : Traps ι :=
  { s.setPhase t (.copyOut (k + 1)) with
    saved := Function.update s.saved t (Function.update (s.saved t) k (s.stub.ctx k)) }

/-- `GdbHandleException` up to the first packet. -/
def gdbHandleException (s : Traps ι) : Traps ι :=
  { s with stub := s.stub.enter, server := .handling (sigval s.stub.ctx) }

def packet (bus : Bus) (query : List Byte) (sigval : Byte) (input : Input) (s : Traps ι) : Traps ι :=
  { s with
    stub := (s.stub.handlePacket bus query sigval input).2
    server := .after sigval (s.stub.handlePacket bus query sigval input).1
    due := match s.report with
      | some t => Function.update s.due t ((s.due t).map (s.stub.edit bus query sigval input))
      | none => s.due }

def lost (s : Traps ι) : Traps ι := { s with server := .stopped, report := none }

def setContinue (s : Traps ι) : Traps ι :=
  { s with
    server := .waiting
    report := none
    firstrun := false
    cont := if s.firstrun then s.cont else true }

def waitHandleExp (s : Traps ι) : Traps ι :=
  { s.gdbHandleException with
    handleExp := false
    report := s.flagged
    due := match s.flagged with
      | some t => Function.update s.due t (some (Context.over (s.saved t) s.stub.ctx))
      | none => s.due }

def gdbMain (s : Traps ι) : Traps ι := { s.gdbHandleException with firstrun := true }

end Traps

inductive TrapEvent (ι : Type)
  | trap (t : ι) (ctx : Context) (entry : Option Word)
  | copyIn (t : ι)
  | setHandleExp (t : ι)
  | waitContinue (t : ι)
  | copyOut (t : ι)
  | resume (t : ι)
  | packet (input : Input) (query : List Byte)
  | lost
  | setContinue
  | waitHandleExp
  | gdbMain

section
variable {ι : Type} [DecidableEq ι]

inductive TrapMove (bus : Bus) (info : ModuleInfo) (s : Traps ι) : TrapEvent ι → Traps ι → Prop
  | trap {t ctx entry} : s.phase t = .running → TrapMove bus info s (.trap t ctx entry) (s.trap info t ctx entry)
  | copyIn {t k} : s.phase t = .copyIn k → k < contextWords → TrapMove bus info s (.copyIn t) (s.copyIn t k)
  | setHandleExp {t} : s.phase t = .copyIn contextWords →
      TrapMove bus info s (.setHandleExp t) (s.setHandleExp t)
  | waitContinue {t} : s.phase t = .waiting → s.cont = true →
      TrapMove bus info s (.waitContinue t) (s.waitContinue t)
  | copyOut {t k} : s.phase t = .copyOut k → k < contextWords →
      TrapMove bus info s (.copyOut t) (s.copyOut t k)
  | resume {t} : s.phase t = .copyOut contextWords →
      TrapMove bus info s (.resume t) (s.setPhase t .running)
  | packet {sigval input query} : s.server = .handling sigval →
      TrapMove bus info s (.packet input query) (s.packet bus query sigval input)
  | lost {sigval} : s.server = .handling sigval → TrapMove bus info s .lost s.lost
  | setContinue : s.server = .returning → TrapMove bus info s .setContinue s.setContinue
  | waitHandleExp : s.server = .waiting → s.handleExp = true →
      TrapMove bus info s .waitHandleExp s.waitHandleExp
  | gdbMain : s.server = .stopped → TrapMove bus info s .gdbMain s.gdbMain

/-- `GdbMain` has been called for the first time, before the program runs. -/
structure Traps.Starts (s : Traps ι) : Prop where
  phase : ∀ t, s.phase t = .running
  handleExp : s.handleExp = false
  cont : s.cont = false
  server : ∃ sigval, s.server = .handling sigval
  firstrun : s.firstrun = true
  report : s.report = none

def gdbTraps (bus : Bus) (info : ModuleInfo) : System (Traps ι) (TrapEvent ι) where
  init := Traps.Starts
  step := TrapMove bus info

/-- Between the copy into `g_context.ctx` and the copy out of it. -/
def TrapPhase.inside : TrapPhase → Bool
  | .running => false
  | .copyIn _ | .waiting => true
  | .copyOut k => k != contextWords

/-- One thread at a time, and no command while a thread is inside whose exception is not the one
being handled. -/
def Alone (info : ModuleInfo) (s : Traps ι) : TrapEvent ι → Prop
  | .trap _ _ entry => entry.any info.inText = true → ∀ u, (s.phase u).inside = false
  | .packet .. => s.report = none → ∀ u, (s.phase u).inside = false
  | _ => True

structure Traps.Faithful (s : Traps ι) : Prop where
  resumed : ∀ t, s.phase t = .copyOut contextWords →
    ∃ c, s.due t = some c ∧ SameWords contextWords (s.saved t) c
  reported : ∀ t, s.phase t = .waiting → s.handleExp = true ∨ s.due t ≠ none

/-! ## The invariant -/

/-- How far the exception of a waiting thread has got; an exception is abandoned when the connection
is lost. -/
inductive Traps.Stage (s : Traps ι) (t : ι) : Prop
  | pending (handleExp : s.handleExp = true) (cont : s.cont = false) (report : s.report = none)
      (flagged : s.flagged = some t) (same : SameWords contextWords s.stub.ctx (s.saved t))
  | handled (handleExp : s.handleExp = false) (cont : s.cont = false) (report : s.report = some t)
      (due : s.due t = some s.stub.ctx)
  | continued (handleExp : s.handleExp = false) (report : s.report = none) (due : s.due t = some s.stub.ctx)
  | abandoned (handleExp : s.handleExp = false) (cont : s.cont = false) (report : s.report = none)
      (due : s.due t ≠ none)

structure Traps.Quiet (s : Traps ι) : Prop where
  handleExp : s.handleExp = false
  cont : s.cont = false
  report : s.report = none

def TrapPhase.Holds (s : Traps ι) (t : ι) : TrapPhase → Prop
  | .running => True
  | .copyIn k => s.Quiet ∧ SameWords k s.stub.ctx (s.saved t)
  | .waiting => s.Stage t
  | .copyOut k => ∃ c, s.due t = some c ∧ SameWords k (s.saved t) c ∧
      (k ≠ contextWords → s.Quiet ∧ c = s.stub.ctx)

def Traps.Serves (s : Traps ι) : Prop :=
  match s.server with
  | .handling _ | .returning => s.firstrun = true ↔ s.report = none
  | .waiting => s.firstrun = false ∧ s.report = none
  | .stopped => s.report = none
  | .dead => True

structure Traps.Inv (s : Traps ι) : Prop where
  holds : ∀ t, (s.phase t).Holds s t
  alone : ∀ t u, (s.phase t).inside = true → (s.phase u).inside = true → t = u
  quiet : (∀ t, (s.phase t).inside = false) → s.Quiet
  report : ∀ t, s.report = some t → s.phase t = .waiting
  serves : s.Serves

variable {bus : Bus} {info : ModuleInfo} {s s' : Traps ι} {t u : ι}

omit [DecidableEq ι] in
theorem Traps.Quiet.congr (quiet : s.Quiet) (handleExp : s'.handleExp = s.handleExp) (cont : s'.cont = s.cont)
    (report : s'.report = s.report) : s'.Quiet :=
  ⟨handleExp.trans quiet.handleExp, cont.trans quiet.cont, report.trans quiet.report⟩

omit [DecidableEq ι] in
theorem Traps.Stage.congr (stage : s.Stage t) (handleExp : s'.handleExp = s.handleExp) (cont : s'.cont = s.cont)
    (report : s'.report = s.report) (flagged : s'.flagged = s.flagged) (ctx : s'.stub.ctx = s.stub.ctx)
    (saved : s'.saved t = s.saved t) (due : s'.due t = s.due t) : s'.Stage t := by
  rcases stage with ⟨h, c, r, f, same⟩ | ⟨h, c, r, d⟩ | ⟨h, r, d⟩ | ⟨h, c, r, d⟩
  · exact .pending (handleExp.trans h) (cont.trans c) (report.trans r) (flagged.trans f) (by rwa [ctx, saved])
  · exact .handled (handleExp.trans h) (cont.trans c) (report.trans r) (by rwa [due, ctx])
  · exact .continued (handleExp.trans h) (report.trans r) (by rwa [due, ctx])
  · exact .abandoned (handleExp.trans h) (cont.trans c) (report.trans r) (by rwa [due])

omit [DecidableEq ι] in
theorem TrapPhase.Holds.congr {p : TrapPhase} (holds : p.Holds s t) (handleExp : s'.handleExp = s.handleExp)
    (cont : s'.cont = s.cont) (report : s'.report = s.report) (flagged : s'.flagged = s.flagged)
    (ctx : s'.stub.ctx = s.stub.ctx) (saved : s'.saved t = s.saved t) (due : s'.due t = s.due t) :
    p.Holds s' t := by
  cases p with
  | running => trivial
  | copyIn k =>
      obtain ⟨quiet, same⟩ := holds
      exact ⟨quiet.congr handleExp cont report, by rwa [ctx, saved]⟩
  | waiting => exact Traps.Stage.congr holds handleExp cont report flagged ctx saved due
  | copyOut k =>
      obtain ⟨c, here, same, shared⟩ := holds
      refine ⟨c, due.trans here, by rwa [saved], ?_⟩
      intro inside
      obtain ⟨quiet, whole⟩ := shared inside
      exact ⟨quiet.congr handleExp cont report, whole.trans ctx.symm⟩

omit [DecidableEq ι] in
theorem TrapPhase.Holds.outside {p : TrapPhase} (holds : p.Holds s t) (outside : p.inside = false)
    (saved : s'.saved t = s.saved t) (due : s'.due t = s.due t) : p.Holds s' t := by
  cases p with
  | running => trivial
  | copyIn k | waiting => cases outside
  | copyOut k =>
      obtain ⟨c, here, same, -⟩ := holds
      refine ⟨c, due.trans here, ?_, ?_⟩
      · rw [saved]
        exact same
      · intro inside
        simp [TrapPhase.inside, inside] at outside

namespace Traps.Inv

omit [DecidableEq ι] in
theorem faithful (inv : s.Inv) : s.Faithful where
  resumed t done := by
    have holds := inv.holds t
    rw [done] at holds
    obtain ⟨c, due, same, -⟩ := holds
    exact ⟨c, due, same⟩
  reported t waiting := by
    have holds := inv.holds t
    rw [waiting] at holds
    rcases holds with ⟨handleExp, -, -, -, -⟩ | ⟨-, -, -, due⟩ | ⟨-, -, due⟩ | ⟨-, -, -, due⟩
    · exact .inl handleExp
    · exact .inr (by simp [due])
    · exact .inr (by simp [due])
    · exact .inr due

omit [DecidableEq ι] in
theorem others (inv : s.Inv) (inside : (s.phase t).inside = true) (ne : u ≠ t) : (s.phase u).inside = false := by
  by_contra both
  exact ne (inv.alone u t (by simpa using both) inside)

/-- A step of one thread while no other is inside. -/
theorem move {p : TrapPhase} (inv : s.Inv) (outside : ∀ u ≠ t, (s.phase u).inside = false)
    (phase : s'.phase = Function.update s.phase t p) (saved : ∀ u ≠ t, s'.saved u = s.saved u)
    (due : ∀ u ≠ t, s'.due u = s.due u) (server : s'.server = s.server) (firstrun : s'.firstrun = s.firstrun)
    (before : s.report = none) (report : s'.report = none) (holds : p.Holds s' t)
    (quiet : p.inside = false → s'.Quiet) : s'.Inv where
  holds u := by
    rw [phase, Function.update_apply]
    split
    · rename_i same
      rw [same]
      exact holds
    · rename_i ne
      exact (inv.holds u).outside (outside u ne) (saved u ne) (due u ne)
  alone u v first second := by
    rw [phase, Function.update_apply] at first second
    split at first <;> split at second
    · simp_all
    · rename_i ne
      exact absurd second (by simp [outside v ne])
    · rename_i ne _
      exact absurd first (by simp [outside u ne])
    · rename_i ne _
      exact absurd first (by simp [outside u ne])
  quiet all := by
    apply quiet
    have here := all t
    rwa [phase, Function.update_self] at here
  report u flagged := by
    rw [report] at flagged
    cases flagged
  serves := by
    have serves := inv.serves
    simp only [Serves, server, firstrun, report, before] at serves ⊢
    exact serves

theorem trap (inv : s.Inv) {ctx : Context} {entry : Option Word}
    (alone : Alone info s (.trap t ctx entry)) : (s.trap info t ctx entry).Inv := by
  unfold Traps.trap
  split
  · rename_i inText
    have quiet := inv.quiet (alone inText)
    refine inv.move (p := .copyIn 0) (fun u _ => alone inText u) rfl ?_ ?_ rfl rfl quiet.report quiet.report
      ⟨⟨quiet.handleExp, quiet.cont, quiet.report⟩, nofun⟩ nofun
    · intro u ne
      exact Function.update_of_ne ne _ _
    · intro u ne
      exact Function.update_of_ne ne _ _
  · exact inv

theorem copyIn {k : Nat} (inv : s.Inv) (copying : s.phase t = .copyIn k) : (s.copyIn t k).Inv := by
  have inside : (s.phase t).inside = true := by rw [copying]; rfl
  have holds := inv.holds t
  rw [copying] at holds
  obtain ⟨quiet, same⟩ := holds
  refine inv.move (p := .copyIn (k + 1)) (fun u ne => inv.others inside ne) rfl (fun _ _ => rfl)
    (fun _ _ => rfl) rfl rfl quiet.report quiet.report ?_ nofun
  refine ⟨⟨quiet.handleExp, quiet.cont, quiet.report⟩, ?_⟩
  intro j bound
  show Function.update s.stub.ctx k (s.saved t k) j = s.saved t j
  by_cases last : j = k
  · rw [last, Function.update_self]
  · rw [Function.update_of_ne last]
    exact same j (by omega)

theorem setHandleExp (inv : s.Inv) (copied : s.phase t = .copyIn contextWords) : (s.setHandleExp t).Inv := by
  have inside : (s.phase t).inside = true := by rw [copied]; rfl
  have holds := inv.holds t
  rw [copied] at holds
  obtain ⟨quiet, same⟩ := holds
  exact inv.move (p := .waiting) (fun u ne => inv.others inside ne) rfl (fun _ _ => rfl) (fun _ _ => rfl) rfl
    rfl quiet.report quiet.report (.pending rfl quiet.cont quiet.report rfl same) nofun

theorem waitContinue (inv : s.Inv) (waiting : s.phase t = .waiting) (cont : s.cont = true) :
    (s.waitContinue t).Inv := by
  have inside : (s.phase t).inside = true := by rw [waiting]; rfl
  have holds := inv.holds t
  rw [waiting] at holds
  obtain ⟨handleExp, report, due⟩ : s.handleExp = false ∧ s.report = none ∧ s.due t = some s.stub.ctx := by
    rcases holds with ⟨-, clear, -, -, -⟩ | ⟨-, clear, -, -⟩ | ⟨handleExp, report, due⟩ | ⟨-, clear, -, -⟩
    · cases cont.symm.trans clear
    · cases cont.symm.trans clear
    · exact ⟨handleExp, report, due⟩
    · cases cont.symm.trans clear
  refine inv.move (p := .copyOut 0) (fun u ne => inv.others inside ne) rfl (fun _ _ => rfl) (fun _ _ => rfl) rfl
    rfl report report ⟨s.stub.ctx, due, nofun, ?_⟩ nofun
  exact fun _ => ⟨⟨handleExp, rfl, report⟩, rfl⟩

theorem copyOut {k : Nat} (inv : s.Inv) (copying : s.phase t = .copyOut k) (bound : k < contextWords) :
    (s.copyOut t k).Inv := by
  have ne : k ≠ contextWords := Nat.ne_of_lt bound
  have inside : (s.phase t).inside = true := by simp [copying, TrapPhase.inside, ne]
  have holds := inv.holds t
  rw [copying] at holds
  obtain ⟨c, due, same, shared⟩ := holds
  obtain ⟨quiet, rfl⟩ := shared ne
  refine inv.move (p := .copyOut (k + 1)) (fun u ne => inv.others inside ne) rfl ?_ (fun _ _ => rfl) rfl
    rfl quiet.report quiet.report ⟨s.stub.ctx, due, ?_, ?_⟩ ?_
  · intro u other
    exact Function.update_of_ne other _ _
  · intro j bound
    show Function.update s.saved t _ t j = s.stub.ctx j
    rw [Function.update_self]
    by_cases last : j = k
    · rw [last, Function.update_self]
    · rw [Function.update_of_ne last]
      exact same j (by omega)
  · exact fun _ => ⟨⟨quiet.handleExp, quiet.cont, quiet.report⟩, rfl⟩
  · exact fun _ => ⟨quiet.handleExp, quiet.cont, quiet.report⟩

theorem resume (inv : s.Inv) (done : s.phase t = .copyOut contextWords) : (s.setPhase t .running).Inv := by
  have shrinks : ∀ u, (Function.update s.phase t .running u).inside = true → (s.phase u).inside = true := by
    intro u
    rw [Function.update_apply]
    split
    · nofun
    · exact id
  refine ⟨?_, ?_, ?_, ?_, inv.serves⟩
  · intro u
    show (Function.update s.phase t .running u).Holds _ u
    rw [Function.update_apply]
    split
    · trivial
    · exact (inv.holds u).congr rfl rfl rfl rfl rfl rfl rfl
  · intro u v first second
    exact inv.alone u v (shrinks u first) (shrinks v second)
  · intro all
    refine (inv.quiet ?_).congr rfl rfl rfl
    intro u
    by_cases same : u = t
    · rw [same, done]
      rfl
    · have here := all u
      simpa [setPhase, same] using here
  · intro u report
    have waiting := inv.report u report
    show Function.update s.phase t .running u = _
    rw [Function.update_of_ne _, waiting]
    rintro rfl
    cases waiting.symm.trans done

omit [DecidableEq ι] in
/-- A step of the server, which keeps what threads outside rely on. -/
theorem serve (inv : s.Inv) (phase : s'.phase = s.phase) (saved : s'.saved = s.saved)
    (due : ∀ t, s.phase t ≠ .waiting → s'.due t = s.due t)
    (inside : ∀ t, (s.phase t).inside = true → (s.phase t).Holds s' t)
    (quiet : (∀ t, (s.phase t).inside = false) → s'.Quiet)
    (report : ∀ t, s'.report = some t → s.phase t = .waiting) (serves : s'.Serves) : s'.Inv where
  holds t := by
    rw [phase]
    by_cases here : (s.phase t).inside = true
    · exact inside t here
    · refine (inv.holds t).outside (by simpa using here) (congrFun saved t) (due t ?_)
      intro waiting
      rw [waiting] at here
      exact here rfl
  alone := by
    rw [phase]
    exact inv.alone
  quiet := by
    rw [phase]
    exact quiet
  report := by
    rw [phase]
    exact report
  serves := serves

theorem ctx_enter (stub : Stub) : stub.enter.ctx = stub.ctx := by
  unfold Stub.enter
  dsimp only
  split <;> rfl

omit [DecidableEq ι] in
theorem lost (inv : s.Inv) : s.lost.Inv := by
  refine inv.serve rfl rfl (fun _ _ => rfl) ?_ ?_ nofun rfl
  · intro t inside
    have holds := inv.holds t
    cases place : s.phase t with
    | running => trivial
    | copyIn k =>
        rw [place] at holds
        obtain ⟨quiet, same⟩ := holds
        exact ⟨⟨quiet.handleExp, quiet.cont, rfl⟩, same⟩
    | waiting =>
        rw [place] at holds
        rcases holds with ⟨h, c, r, f, same⟩ | ⟨h, c, r, d⟩ | ⟨h, r, d⟩ | ⟨h, c, r, d⟩
        · exact .pending h c rfl f same
        · exact .abandoned h c rfl (by simp [Traps.lost, d])
        · exact .continued h rfl d
        · exact .abandoned h c rfl d
    | copyOut k =>
        rw [place] at holds
        obtain ⟨c, due, same, shared⟩ := holds
        refine ⟨c, due, same, ?_⟩
        intro inside
        obtain ⟨quiet, whole⟩ := shared inside
        exact ⟨⟨quiet.handleExp, quiet.cont, rfl⟩, whole⟩
  · intro none
    have quiet := inv.quiet none
    exact ⟨quiet.handleExp, quiet.cont, rfl⟩

omit [DecidableEq ι] in
theorem setContinue (inv : s.Inv) (returning : s.server = .returning) : s.setContinue.Inv := by
  have serves := inv.serves
  simp only [Serves, returning] at serves
  cases report : s.report with
  | none =>
      have first : s.firstrun = true := serves.mpr report
      have cont : s.setContinue.cont = s.cont := if_pos first
      refine inv.serve rfl rfl (fun _ _ => rfl) ?_ ?_ nofun ⟨rfl, rfl⟩
      · intro t _
        exact (inv.holds t).congr rfl cont report.symm rfl rfl rfl rfl
      · intro none
        exact (inv.quiet none).congr rfl cont report.symm
  | some t =>
      have waiting := inv.report t report
      have inside : (s.phase t).inside = true := by rw [waiting]; rfl
      refine inv.serve rfl rfl (fun _ _ => rfl) ?_ ?_ nofun ⟨rfl, rfl⟩
      · intro u here
        obtain rfl := inv.alone u t here inside
        have holds := inv.holds u
        rw [waiting] at holds ⊢
        rcases holds with ⟨-, -, r, -, -⟩ | ⟨h, -, -, d⟩ | ⟨-, r, -⟩ | ⟨-, -, r, -⟩
        · cases report.symm.trans r
        · exact .continued h rfl d
        · cases report.symm.trans r
        · cases report.symm.trans r
      · intro none
        cases inside.symm.trans (none t)

omit [DecidableEq ι] in
theorem gdbMain (inv : s.Inv) (stopped : s.server = .stopped) : s.gdbMain.Inv := by
  have serves := inv.serves
  simp only [Serves, stopped] at serves
  refine inv.serve rfl rfl (fun _ _ => rfl) ?_ ?_ inv.report ?_
  · intro t _
    exact (inv.holds t).congr rfl rfl rfl rfl (ctx_enter s.stub) rfl rfl
  · intro none
    exact (inv.quiet none).congr rfl rfl rfl
  · show true = true ↔ s.report = none
    simp [serves]

theorem waitHandleExp (inv : s.Inv) (waiting : s.server = .waiting) (flag : s.handleExp = true) :
    s.waitHandleExp.Inv := by
  have serves := inv.serves
  simp only [Serves, waiting] at serves
  obtain ⟨t, inside⟩ : ∃ t, (s.phase t).inside = true := by
    by_contra none
    simp only [not_exists, Bool.not_eq_true] at none
    cases flag.symm.trans (inv.quiet none).handleExp
  have holds := inv.holds t
  obtain ⟨place, cont, flagged, same⟩ : s.phase t = .waiting ∧ s.cont = false ∧ s.flagged = some t ∧
      SameWords contextWords s.stub.ctx (s.saved t) := by
    cases place : s.phase t with
    | running =>
        rw [place] at inside
        cases inside
    | copyIn k =>
        rw [place] at holds
        cases flag.symm.trans holds.1.handleExp
    | waiting =>
        rw [place] at holds
        rcases holds with ⟨-, c, -, f, same⟩ | ⟨h, -, -, -⟩ | ⟨h, -, -⟩ | ⟨h, -, -, -⟩
        · exact ⟨rfl, c, f, same⟩
        · cases flag.symm.trans h
        · cases flag.symm.trans h
        · cases flag.symm.trans h
    | copyOut k =>
        rw [place] at holds inside
        obtain ⟨c, -, -, shared⟩ := holds
        cases flag.symm.trans (shared (by simpa [TrapPhase.inside] using inside)).1.handleExp
  have own : Context.over (s.saved t) s.stub.ctx = s.stub.ctx := by
    funext j
    unfold Context.over
    split
    · exact (same j ‹_›).symm
    · rfl
  have due : s.waitHandleExp.due = Function.update s.due t (some s.stub.ctx) := by
    simp only [Traps.waitHandleExp, flagged, own]
  refine inv.serve rfl rfl ?_ ?_ ?_ ?_ ?_
  · intro u other
    rw [due, Function.update_of_ne _]
    rintro rfl
    exact other place
  · intro u here
    obtain rfl := inv.alone u t here inside
    rw [place]
    refine .handled rfl cont flagged ?_
    rw [due, Function.update_self]
    exact congrArg some (ctx_enter s.stub).symm
  · intro none
    cases inside.symm.trans (none t)
  · intro u report
    cases flagged.symm.trans report
    exact place
  · show s.firstrun = true ↔ s.flagged = none
    simp [serves.1, flagged]

theorem packet {sigval : Byte} {input : Input} {query : List Byte} (inv : s.Inv)
    (handling : s.server = .handling sigval) (alone : Alone info s (.packet input query)) :
    (s.packet bus query sigval input).Inv := by
  have serves : (s.packet bus query sigval input).Serves := by
    have before := inv.serves
    simp only [Serves, handling] at before
    simp only [Serves, Traps.packet]
    cases (s.stub.handlePacket bus query sigval input).1 with
    | reply | resume => exact before
    | fault | overflow => trivial
  cases report : s.report with
  | none =>
      have none := alone report
      refine inv.serve rfl rfl ?_ ?_ ?_ inv.report serves
      · intro t _
        simp only [Traps.packet, report]
      · intro t inside
        cases inside.symm.trans (none t)
      · intro _
        exact (inv.quiet none).congr rfl rfl rfl
  | some t =>
      have waiting := inv.report t report
      have inside : (s.phase t).inside = true := by rw [waiting]; rfl
      have due : (s.packet bus query sigval input).due =
          Function.update s.due t ((s.due t).map (s.stub.edit bus query sigval input)) := by
        simp only [Traps.packet, report]
      refine inv.serve rfl rfl ?_ ?_ ?_ inv.report serves
      · intro u other
        rw [due, Function.update_of_ne _]
        rintro rfl
        exact other waiting
      · intro u here
        obtain rfl := inv.alone u t here inside
        have holds := inv.holds u
        rw [waiting] at holds ⊢
        rcases holds with ⟨-, -, r, -, -⟩ | ⟨h, c, r, d⟩ | ⟨-, r, -⟩ | ⟨-, -, r, -⟩
        · cases report.symm.trans r
        · refine .handled h c r ?_
          rw [due, Function.update_self, d]
          rfl
        · cases report.symm.trans r
        · cases report.symm.trans r
      · intro none
        cases inside.symm.trans (none t)

omit [DecidableEq ι] in
theorem start (starts : s.Starts) : s.Inv where
  holds t := by
    rw [starts.phase]
    trivial
  alone t _ inside := by
    rw [starts.phase] at inside
    cases inside
  quiet _ := ⟨starts.handleExp, starts.cont, starts.report⟩
  report t report := by
    cases starts.report.symm.trans report
  serves := by
    obtain ⟨sigval, handling⟩ := starts.server
    simp [Serves, handling, starts.firstrun, starts.report]

theorem step {e : TrapEvent ι} (inv : s.Inv) (alone : Alone info s e) (move : TrapMove bus info s e s') :
    s'.Inv := by
  cases move with
  | trap => exact inv.trap alone
  | copyIn copying => exact inv.copyIn copying
  | setHandleExp copied => exact inv.setHandleExp copied
  | waitContinue waiting cont => exact inv.waitContinue waiting cont
  | copyOut copying bound => exact inv.copyOut copying bound
  | resume done => exact inv.resume done
  | packet handling => exact inv.packet handling alone
  | lost => exact inv.lost
  | setContinue returning => exact inv.setContinue returning
  | waitHandleExp waiting flag => exact inv.waitHandleExp waiting flag
  | gdbMain stopped => exact inv.gdbMain stopped

end Traps.Inv

/-! ## Every run -/

theorem traps_faithful (reachable : ((gdbTraps bus info).guard (Alone info)).Reachable s) : s.Faithful := by
  have inv : s.Inv := by
    apply reachable.invariant
    · intro s starts
      exact .start starts
    · rintro s e s' inv ⟨alone, move⟩
      exact inv.step alone move
  exact inv.faithful

/-! ## Two runs -/

namespace Traps

/-- `n` words of the first copy. -/
def copiedIn (t : ι) (n : Nat) (s : Traps ι) : Traps ι :=
  { s.setPhase t (.copyIn n) with
    stub := s.stub.setCtx fun j => if j < n then s.saved t j else s.stub.ctx j }

def copiedOut (t : ι) (n : Nat) (s : Traps ι) : Traps ι :=
  { s.setPhase t (.copyOut n) with
    saved := Function.update s.saved t fun j => if j < n then s.stub.ctx j else s.saved t j }

theorem copyIn_copiedIn (t : ι) (n : Nat) (s : Traps ι) : (s.copiedIn t n).copyIn t n = s.copiedIn t (n + 1) := by
  have words : Function.update (fun j => if j < n then s.saved t j else s.stub.ctx j) n (s.saved t n) =
      fun j => if j < n + 1 then s.saved t j else s.stub.ctx j := by
    funext j
    by_cases last : j = n
    · simp [last]
    · rw [Function.update_of_ne last]
      simp [show j < n + 1 ↔ j < n by omega]
  simp only [copiedIn, Traps.copyIn, setPhase, Function.update_idem, Stub.setCtx, words]

theorem copyOut_copiedOut (t : ι) (n : Nat) (s : Traps ι) :
    (s.copiedOut t n).copyOut t n = s.copiedOut t (n + 1) := by
  have words : Function.update (fun j => if j < n then s.stub.ctx j else s.saved t j) n (s.stub.ctx n) =
      fun j => if j < n + 1 then s.stub.ctx j else s.saved t j := by
    funext j
    by_cases last : j = n
    · simp [last]
    · rw [Function.update_of_ne last]
      simp [show j < n + 1 ↔ j < n by omega]
  simp only [copiedOut, Traps.copyOut, setPhase, Function.update_idem, Function.update_self, words]

theorem reachable_copiedIn {S : System (Traps ι) (TrapEvent ι)} (reachable : S.Reachable s)
    (taken : ∀ s s', TrapMove bus info s (.copyIn t) s' → S.step s (.copyIn t) s')
    (copying : s.phase t = .copyIn 0) {n : Nat} (bound : n ≤ contextWords) : S.Reachable (s.copiedIn t n) := by
  induction n with
  | zero =>
      have same : s.copiedIn t 0 = s := by
        simp [copiedIn, setPhase, ← copying, Stub.setCtx]
      rwa [same]
  | succ n ih =>
      rw [← copyIn_copiedIn]
      exact (ih (by omega)).step (taken _ _ (.copyIn (Function.update_self ..) (by omega)))

theorem reachable_copiedOut {S : System (Traps ι) (TrapEvent ι)} (reachable : S.Reachable s)
    (taken : ∀ s s', TrapMove bus info s (.copyOut t) s' → S.step s (.copyOut t) s')
    (copying : s.phase t = .copyOut 0) {n : Nat} (bound : n ≤ contextWords) : S.Reachable (s.copiedOut t n) := by
  induction n with
  | zero =>
      have same : s.copiedOut t 0 = s := by
        simp [copiedOut, setPhase, ← copying]
      rwa [same]
  | succ n ih =>
      rw [← copyOut_copiedOut]
      exact (ih (by omega)).step (taken _ _ (.copyOut (Function.update_self ..) (by omega)))

end Traps

end

def program : ModuleInfo := ⟨0x08900000, 0x10000⟩

def connected : Traps Bool where
  stub := {
    mem := fun _ => 0
    stepbp := fun _ => .zero
    output := []
    ctx := fun _ => 0
    started := false
    hw := false
    iaddr := 0
    daddr := 0
    datatype := 0
    env := ⟨0, 0, 0, 0, 0, 0⟩ }
  saved _ _ := 0
  phase _ := .running
  handleExp := false
  cont := false
  server := .handling sighup
  firstrun := true
  flagged := none
  report := none
  due _ := none

def everyAddress : Bus := fun _ => true

def traps : System (Traps Bool) (TrapEvent Bool) := gdbTraps everyAddress program

theorem connected_starts : connected.Starts :=
  ⟨fun _ => rfl, rfl, rfl, ⟨_, rfl⟩, rfl, rfl⟩

def continueInput : Input := ⟨[char 'c'], fun _ => 0⟩

/-- The server waits for the first exception. -/
def served : Traps Bool := (connected.packet everyAddress [] sighup continueInput).setContinue

/-- The first thread has trapped, with 1 in every word. -/
def first : Traps Bool :=
  ((served.trap program true (fun _ => 1) (some 0x08900000)).copiedIn true contextWords).setHandleExp true

theorem TrapMove.reachable {s s' : Traps Bool} (e : TrapEvent Bool) (reachable : traps.Reachable s)
    (move : TrapMove everyAddress program s e s') : traps.Reachable s' :=
  reachable.step move

theorem TrapMove.guarded {s s' : Traps Bool} (e : TrapEvent Bool)
    (reachable : (traps.guard (Alone program)).Reachable s) (alone : Alone program s e)
    (move : TrapMove everyAddress program s e s') : (traps.guard (Alone program)).Reachable s' :=
  reachable.step ⟨alone, move⟩

theorem first_reachable : (traps.guard (Alone program)).Reachable first := by
  have answered := TrapMove.guarded (.packet continueInput []) (.init connected_starts) (fun _ _ => rfl)
    (.packet rfl)
  have waiting := TrapMove.guarded .setContinue answered trivial (.setContinue rfl)
  have trapped := TrapMove.guarded (.trap true (fun _ => 1) (some 0x08900000)) waiting (fun _ _ => rfl) (.trap rfl)
  have copied := Traps.reachable_copiedIn (t := true) (n := contextWords) trapped
    (fun _ _ move => ⟨trivial, move⟩) rfl le_rfl
  exact TrapMove.guarded (.setHandleExp true) copied trivial (.setHandleExp rfl)

/-- The exception of `first` is handled with the command `c8`, and the thread goes on. -/
def followed : Traps Bool :=
  (((first.waitHandleExp.packet everyAddress [] sigtrap ⟨[char 'c', char '8'], fun _ => 0⟩).setContinue).waitContinue
    true).copiedOut true contextWords

theorem followed_reachable : (traps.guard (Alone program)).Reachable followed := by
  have taken := TrapMove.guarded .waitHandleExp first_reachable trivial (.waitHandleExp rfl rfl)
  have answered := TrapMove.guarded (.packet ⟨[char 'c', char '8'], fun _ => 0⟩ []) taken nofun
    (.packet rfl)
  have continued := TrapMove.guarded .setContinue answered trivial (.setContinue rfl)
  have woken := TrapMove.guarded (.waitContinue true) continued trivial (.waitContinue rfl rfl)
  exact Traps.reachable_copiedOut (t := true) woken (fun _ _ move => ⟨trivial, move⟩) rfl le_rfl

theorem traps_faithful_followed : followed.phase true = .copyOut contextWords ∧
    (followed.saved true).reg .epc = 8 ∧ (followed.saved true).reg .cause = 1 ∧ followed.Faithful :=
  ⟨rfl, rfl, rfl, traps_faithful followed_reachable⟩

/-- The second thread traps, with 2 in every word, before the server has taken the first exception. -/
def second : Traps Bool := (first.trap program false (fun _ => 2) (some 0x08900000)).copiedIn false contextWords

def mixed : Traps Bool :=
  (((second.waitHandleExp.packet everyAddress [] sighup continueInput).setContinue).waitContinue true).copiedOut
    true contextWords

theorem mixed_reachable : traps.Reachable mixed := by
  have trapped := TrapMove.reachable (.trap false (fun _ => 2) (some 0x08900000)) first_reachable.of_guard (.trap rfl)
  have copied := Traps.reachable_copiedIn (t := false) (n := contextWords) trapped (fun _ _ move => move) rfl le_rfl
  have taken := TrapMove.reachable .waitHandleExp copied (.waitHandleExp rfl rfl)
  have answered := TrapMove.reachable (.packet continueInput []) taken (.packet rfl)
  have continued := TrapMove.reachable .setContinue answered (.setContinue rfl)
  have woken := TrapMove.reachable (.waitContinue true) continued (.waitContinue rfl rfl)
  exact Traps.reachable_copiedOut (t := true) woken (fun _ _ move => move) rfl le_rfl

theorem traps_mixed : ∃ s, traps.Reachable s ∧ s.phase true = .copyOut contextWords ∧
    (s.saved true).reg .epc = 2 ∧ ¬s.Faithful := by
  refine ⟨mixed, mixed_reachable, rfl, rfl, ?_⟩
  intro faithful
  obtain ⟨c, due, same⟩ := faithful.resumed true rfl
  have own : mixed.due true = some fun j => if j < contextWords then 1 else mixed.stub.ctx j := rfl
  rw [own, Option.some.injEq] at due
  have word := same 0 (by decide)
  rw [← due] at word
  cases word

end Psplink.Gdb
