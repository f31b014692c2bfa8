import Psplink.HostFs.Capability

/-!
# The target of bulk writes

`g_bulkfd` names a descriptor without opening it. As long as no session ends while it names one, it
names a file of the session that was opened for bulk, and bulk data goes nowhere else.
-/

namespace Psplink.HostFs
open Psplink.Lib

def BulkFile (w : Os) (fd : Nat) : Prop :=
  fd < maxFiles ∧ (w.globals.openFiles fd).opened = true ∧
    (w.globals.openFiles fd).mode &&& hostfsBulkOpen ≠ 0 ∧ Held w.history fd

def Aimed (w : Os) : Prop := w.globals.bulkfd = -1 ∨ ∃ fd : Nat, w.globals.bulkfd = fd ∧ BulkFile w fd

def Fresh (w : Os) : (c : Call) → c.Answer → Prop
  | .openFd .., .ok fd => ¬ Held w.history fd
  | _, _ => True

def posix : Prog.Contract Call Call.Answer Os where
  pre := Allowed
  post w c a w' := Answers w c a w' ∧ Fresh w c a

def bulkDaemon : System (Pc Loop × Os) Unit :=
  Prog.server posix startHostfs .session fun w =>
    w.globals.openFiles = (fun _ => .cleared) ∧ w.globals.bulkfd = -1 ∧ w.history = []

def bulkOnly : Prog.Contract Call Call.Answer Os where
  pre w c := Allowed w c ∧ ∀ fd data, c = .write fd data → BulkFile w fd
  post := posix.post

/-! ## The target and the table -/

def Aims (g : Globals) : Prop :=
  g.bulkfd = -1 ∨ ∃ fd : Nat, g.bulkfd = fd ∧ fd < maxFiles ∧ (g.openFiles fd).opened = true ∧
    (g.openFiles fd).mode &&& hostfsBulkOpen ≠ 0

def Targets (w : Os) : Prop := Kept w ∧ Aims w.globals

theorem Targets.aimed {w : Os} (targets : Targets w) : Aimed w := by
  rcases targets.2 with unset | ⟨fd, names, bound, opened, bulk⟩
  · exact .inl unset
  · exact .inr ⟨fd, names, bound, opened, bulk, targets.1 fd bound opened⟩

theorem Aims.congr {g g' : Globals} (aims : Aims g) (files : g'.openFiles = g.openFiles)
    (bulkfd : g'.bulkfd = g.bulkfd) : Aims g' := by
  rw [Aims, files, bulkfd]
  exact aims

def Call.LeavesAim : Call → Prop
  | .modify f => ∀ g, (f g).openFiles = g.openFiles ∧ (f g).bulkfd = g.bulkfd
  | _ => True

theorem leavesAim_of_leavesFiles {c : Call} (h : c.LeavesFiles) : c.LeavesAim := by
  cases c with
  | modify f => exact h
  | _ => trivial

theorem Aims.answer {w w' : Os} {c : Call} {a : c.Answer} (leaves : c.LeavesAim)
    (aims : Aims w.globals) (answered : Answers w c a w') : Aims w'.globals := by
  cases c with
  | modify f =>
      rw [Undisturbed.globals answered]
      exact aims.congr (leaves w.globals).1 (leaves w.globals).2
  | load =>
      rw [answered.2.globals]
      exact aims
  | close fd =>
      obtain ⟨entry, answered⟩ := answered
      rw [answered.globals]
      exact aims
  | openFd path flags mask =>
      cases a with
      | error e =>
          rw [Undisturbed.globals answered]
          exact aims
      | ok fd =>
          rw [Undisturbed.globals answered]
          exact aims
  | read | write | lseek | waitForDevice | usbBulkWrite | usbBulkRead | pathEnv | lockDrives | stat
  | fs | scandir | malloc | localtime | mktime | statvfs | clientSock | sockWrite | closeDevice =>
      rw [Undisturbed.globals answered]
      exact aims

theorem posix_of_process {α : Type} {p : Pc α} {R : α → Os → Prop} {w : Os}
    (h : p.wp process R w) : p.wp posix R w := by
  apply Prog.wp_contract _ _ h
  · intro w c allowed
    exact allowed
  · intro w c a w' answered
    exact answered.1

theorem targets_of_only {α : Type} {p : Pc α} (keeps : Keeps p) (only : p.Only Call.LeavesAim) :
    Preserves posix Targets p := by
  intro w targets
  have known := posix_of_process (keeps w targets.1)
  apply Prog.wp_carry only _ known targets.2
  intro w c a w' leaves aims answered
  exact aims.answer leaves answered.1

theorem targets_writeFid (fid : Int) (data : Bytes) : Preserves posix Targets (writeFid fid data) := by
  apply targets_of_only (keeps_writeFid fid data)
  apply (calls_writeFid fid data).mono
  rintro c (rfl | rfl) <;> trivial

theorem targets_readFid (fid : Int) (len : Nat) : Preserves posix Targets (readFid fid len) := by
  apply targets_of_only (keeps_readFid fid len)
  apply (calls_readFid fid len).mono
  rintro c (rfl | rfl) <;> trivial

theorem targets_lseekFid (fid : Int) (ofs : BitVec 64) (whence : Word) :
    Preserves posix Targets (lseekFid fid ofs whence) := by
  apply targets_of_only (keeps_lseekFid fid ofs whence)
  apply (calls_lseekFid fid ofs whence).mono
  rintro c (rfl | rfl) <;> trivial

/-! ## Opening and closing -/

theorem Aims.setFile {g : Globals} (aims : Aims g) {fd : Nat} {h : FileHandle}
    (unused : fd < maxFiles → (g.openFiles fd).opened ≠ true) : Aims (g.setFile fd h) := by
  rcases aims with unset | ⟨n, names, bound, opened, bulk⟩
  · exact .inl unset
  · have other : n ≠ fd := by
      rintro rfl
      exact unused bound opened
    apply Or.inr
    refine ⟨n, names, bound, ?_⟩
    simpa [Globals.setFile, other] using And.intro opened bulk

theorem aims_enterFile {w : Os} (aims : Aims w.globals) {fd : Nat} (bound : fd < maxFiles)
    (unused : fd < maxFiles → (w.globals.openFiles fd).opened ≠ true) (mode : Word) (fullpath : Bytes) :
    (enterFile fd mode fullpath).wp posix (fun _ w => Aims w.globals) w := by
  simp only [enterFile, change_seq]
  refine ⟨trivial, ?_⟩
  rintro _ w₁ ⟨entered, _⟩
  have globals : w₁.globals = w.globals.setFile fd ⟨true, mode, some fullpath⟩ :=
    Undisturbed.globals entered
  dsimp only
  split
  · rename_i bulk
    refine ⟨trivial, ?_⟩
    rintro _ w₂ ⟨aimed, _⟩
    have globals' : w₂.globals = { w₁.globals with bulkfd := fd } := Undisturbed.globals aimed
    apply Or.inr
    refine ⟨fd, ?_, bound, ?_⟩
    · rw [globals']
    · rw [globals', globals]
      simpa [Globals.setFile] using bulk
  · show Aims w₁.globals
    rw [globals]
    exact aims.setFile unused

theorem targets_openPath (fullpath : Bytes) (flags : OpenFlags) (mode mask : Word) :
    Preserves posix Targets (openPath fullpath flags mode mask) := by
  rintro w ⟨kept, aims⟩
  have known := posix_of_process (keeps_openPath fullpath flags mode mask w kept)
  apply Prog.wp_and known
  simp only [openPath, ask_seq]
  refine ⟨trivial, ?_⟩
  rintro result w₁ ⟨answered, fresh⟩
  cases result with
  | error e => exact aims.answer (c := .openFd fullpath flags _) trivial answered
  | ok fd =>
      have aims₁ : Aims w₁.globals := aims.answer (c := .openFd fullpath flags _) trivial answered
      have unused : fd < maxFiles → (w₁.globals.openFiles fd).opened ≠ true := by
        intro bound opened
        rw [answered.globals] at opened
        exact fresh (kept fd bound opened)
      dsimp only
      split
      · rename_i bound
        apply (Prog.wp_bind _ _ _ _).2
        exact aims_enterFile aims₁ bound unused mode fullpath
      · refine ⟨⟨?_, .inr ?_⟩, ?_⟩
        · rw [answered.history]
          exact .inl rfl
        · rw [answered.history]
          rfl
        · intro _ w₂ answered₂
          exact aims₁.answer (c := .close fd) trivial answered₂.1

theorem Aims.closed {g : Globals} (aims : Aims g) {fid : Int} (positive : 2 < fid) (h : FileHandle) :
    Aims { g.setFile fid.toNat h with bulkfd := if fid = g.bulkfd then -1 else g.bulkfd } := by
  rcases aims with unset | ⟨n, names, bound, opened, bulk⟩
  · apply Or.inl
    simp [unset]
  · by_cases same : fid = g.bulkfd
    · exact .inl (if_pos same)
    · have other : n ≠ fid.toNat := by omega
      apply Or.inr
      refine ⟨n, ?_, bound, ?_⟩
      · exact (if_neg same).trans names
      · simpa [Globals.setFile, other] using And.intro opened bulk

theorem targets_closeFid (fid : Int) : Preserves posix Targets (closeFid fid) := by
  rintro w ⟨kept, aims⟩
  have known := posix_of_process (keeps_closeFid fid w kept)
  apply Prog.wp_and known
  simp only [closeFid, ask_seq, change_seq]
  refine ⟨trivial, ?_⟩
  rintro g w₁ ⟨⟨current, answered⟩, _⟩
  have kept := kept.undisturbed answered
  have aims : Aims w₁.globals := answered.globals ▸ aims
  dsimp only
  split
  · rename_i valid
    have bound : fid.toNat < maxFiles := by omega
    have opened := valid.2.2
    rw [current, ← answered.globals] at opened
    refine ⟨⟨kept _ bound opened, .inl bound⟩, ?_⟩
    rintro _ w₂ ⟨⟨entry, closed⟩, _⟩
    have aims : Aims w₂.globals := by
      rw [closed.globals]
      exact aims
    refine ⟨trivial, ?_⟩
    rintro _ w₃ ⟨changed, _⟩
    show Aims w₃.globals
    rw [Undisturbed.globals changed]
    exact aims.closed valid.1 _
  · exact aims

theorem targetRules : FileRules posix Targets where
  allowed _ _ leaves _ := allowed_of_leavesFiles leaves
  kept _ _ _ _ leaves targets answered :=
    ⟨targets.1.answer leaves answered.1, targets.2.answer (leavesAim_of_leavesFiles leaves) answered.1⟩
  openPath := targets_openPath
  writeFid := targets_writeFid
  readFid := targets_readFid
  closeFid := targets_closeFid
  lseekFid := targets_lseekFid

/-! ## Bulk writes -/

theorem bulkOnly_readBlocks (len turns read : Nat) (block : Bytes) :
    Preserves bulkOnly Targets (readBlocks len turns read block) := by
  intro w targets
  apply Prog.wp_of_only (C := bulkOnly) (leavesFiles_readBlocks len turns read block) _
    targetRules.kept targets
  intro w c leaves _
  refine ⟨allowed_of_leavesFiles leaves, ?_⟩
  rintro fd data rfl
  exact leaves.elim

theorem bulkOnly_doBulk (t : Bytes) : Preserves bulkOnly Targets (doBulk t) := by
  apply (bulkOnly_readBlocks _ _ _ _).bind
  intro block
  cases block with
  | none => exact .ret _
  | some block =>
      rintro w ⟨kept, aims⟩
      simp only [ask_seq]
      refine ⟨⟨trivial, nofun⟩, ?_⟩
      rintro g w₁ ⟨⟨current, answered⟩, _⟩
      have targets : Targets w₁ := ⟨kept.undisturbed answered, answered.globals ▸ aims⟩
      rw [current, ← answered.globals]
      dsimp only
      split
      · split
        · rename_i range opened
          have bound : w₁.globals.bulkfd.toNat < maxFiles := by omega
          have bulk : BulkFile w₁ w₁.globals.bulkfd.toNat := by
            rcases targets.aimed with unset | ⟨fd, names, file⟩
            · omega
            · rw [names, Int.toNat_natCast]
              exact file
          refine ⟨⟨targets.1.permitted_use bound opened, ?_⟩, ?_⟩
          · intro fd data same
            cases same
            exact bulk
          · rintro _ w₂ ⟨written, _⟩
            exact ⟨targets.1.used written, targets.2.answer (c := .write _ block) trivial written⟩
        · exact targets
      · exact targets

theorem targets_doBulk (t : Bytes) : Preserves posix Targets (doBulk t) := by
  intro w targets
  apply Prog.wp_contract _ _ (bulkOnly_doBulk t w targets)
  · intro w c allowed
    exact allowed.1
  · intro w c a w' answered
    exact answered

/-! ## Runs -/

def Between : Loop → Os → Prop
  | .session, w => Kept w
  | .commands, w => Targets w

theorem between_startHostfs (loop : Loop) (w : Os) (between : Between loop w)
    (unset : loop = .session → w.globals.bulkfd = -1) :
    (startHostfs loop).wp posix Between w := by
  have leave (w : Os) (kept : Kept w) : leaveSession.wp posix Between w := by
    have left := keptRules.leaveSession (keeps_closeFiles fun _ => inTable) kept
    apply Prog.wp_mono _ (posix_of_process left)
    rintro loop w' ⟨rfl, kept⟩
    exact kept
  cases loop with
  | session =>
      simp only [startHostfs, initHostfs, change_seq]
      refine ⟨trivial, ?_⟩
      rintro _ w₁ ⟨cleared, _⟩
      have globals := Undisturbed.globals cleared
      refine ⟨trivial, ?_⟩
      rintro _ w₂ ⟨connected, _⟩
      have same : Undisturbed { w₁ with history := .connected :: w₁.history } w₂ := connected
      have globals' : w₂.globals = w₁.globals := same.globals
      have targets : Targets w₂ := by
        constructor
        · intro fd _ opened
          rw [globals', globals] at opened
          cases opened
        · rw [globals', globals]
          exact .inl (unset rfl)
      show (usbBulkWrite (encode hostfsMagic) >>= _ : Pc Loop).wp posix Between w₂
      apply (Prog.wp_bind _ _ _ _).2
      apply Prog.wp_mono _ (targetRules.usbBulkWrite _ w₂ targets)
      intro ret w₃ targets
      split
      · exact targets
      · exact leave w₃ targets.1
  | commands =>
      apply (Prog.wp_bind _ _ _ _).2
      apply Prog.wp_mono _ (targetRules.usbBulkRead 512 512 w between)
      intro got w₁ targets
      apply (Prog.wp_bind _ _ _ _).2
      apply Prog.wp_mono _ (targetRules.serve targets_doBulk got w₁ targets)
      intro again w₂ targets
      split
      · exact targets
      · exact leave w₂ targets.1

/-- A session ends with no target left. -/
def Untargeted (c : Pc Loop × Os) (_ : Unit) : Prop :=
  ∀ loop, c.1 = .ret loop → loop = .session → c.2.globals.bulkfd = -1

/-- At the top of the command loop the target is a bulk file of the session, and whatever comes
then, bulk data is only written to such a file. -/
theorem bulk_target {c : Pc Loop × Os} (reachable : (bulkDaemon.guard Untargeted).Reachable c)
    (top : c.1 = .ret .commands) :
    Aimed c.2 ∧ ∀ t, (doBulk t).wp bulkOnly (fun _ _ => True) c.2 := by
  have targets : c.1.wp posix Between c.2 := by
    apply Prog.guarded_invariant _ between_startHostfs reachable
    rintro w ⟨cleared, _, _⟩ fd _ opened
    rw [cleared] at opened
    cases opened
  rw [top] at targets
  have targets : Targets c.2 := targets
  constructor
  · exact targets.aimed
  · intro t
    exact Prog.wp_mono (fun _ _ _ => trivial) (bulkOnly_doBulk t c.2 targets)

/-! ### A file left open for bulk -/

theorem bulk_target_connected :
    (doBulk (encode (⟨bulkMagic, 4⟩ : BulkCommand))).wp bulkOnly (fun _ _ => True) connectedOs := by
  let w₀ : Os := ⟨zeroGlobals, fun _ => none, []⟩
  let w₁ : Os := { w₀ with history := [.connected] }
  have s₀ : (bulkDaemon.guard Untargeted).Reachable (.ret .session, w₀) := .init ⟨rfl, rfl, rfl, rfl⟩
  have s₁ : (bulkDaemon.guard Untargeted).Reachable (startHostfs .session, w₀) :=
    .step (a := ()) s₀ ⟨fun _ _ _ => rfl, rfl⟩
  have s₂ : (bulkDaemon.guard Untargeted).Reachable (_, w₀) :=
    .step (a := ()) s₁ ⟨nofun, (), ⟨undisturbed_refl w₀, trivial⟩, rfl⟩
  have s₃ : (bulkDaemon.guard Untargeted).Reachable (_, w₁) :=
    .step (a := ()) s₂ ⟨nofun, (), ⟨undisturbed_refl w₁, trivial⟩, rfl⟩
  have s₄ : (bulkDaemon.guard Untargeted).Reachable (.ret .commands, connectedOs) :=
    .step (a := ()) s₃ ⟨nofun, (4 : Int), ⟨undisturbed_refl connectedOs, trivial⟩, rfl⟩
  exact (bulk_target s₄ rfl).2 _

instance decidableHeld : (history : History) → (fd : Nat) → Decidable (Held history fd)
  | [], _ => .isFalse id
  | .connected :: _, _ => .isFalse id
  | .opened fd :: past, n =>
      have := decidableHeld past n
      inferInstanceAs (Decidable (n = fd ∨ Held past n))
  | .closed fd :: past, n =>
      have := decidableHeld past n
      inferInstanceAs (Decidable (n ≠ fd ∧ Held past n))
  | .used _ :: past, n => decidableHeld past n
  | .sent _ :: past, n => decidableHeld past n

/-- A system whose only free descriptor is 5, and a device that delivers a list of transfers. -/
def scripted : (c : Call) → Os × List UsbRead → c.Answer × Os × List UsbRead
  | .usbBulkRead .., (w, got :: rest) => (got, w, rest)
  | .usbBulkRead .., (w, []) => (silence, w, [])
  | .usbBulkWrite data, (w, reads) =>
      ((data.length : Int), { w with history := .sent data :: w.history }, reads)
  | .load, (w, reads) => (w.globals, w, reads)
  | .modify f, (w, reads) => ((), { w with globals := f w.globals }, reads)
  | .openFd .., (w, reads) =>
      if Held w.history 5 then (.error emfile, w, reads)
      else (.ok 5, ⟨w.globals, Function.update w.table 5 (some .file), .opened 5 :: w.history⟩, reads)
  | .close fd, (w, reads) =>
      (none, ⟨w.globals, Function.update w.table fd none, .closed fd :: w.history⟩, reads)
  | .read fd .., (w, reads) => (([] : List ReadResult), { w with history := .used fd :: w.history }, reads)
  | .write fd _, (w, reads) =>
      (([] : List WriteResult), { w with history := .used fd :: w.history }, reads)
  | .lseek fd .., (w, reads) => ((0 : BitVec 64), { w with history := .used fd :: w.history }, reads)
  | .pathEnv, v => ((⟨true, fun _ => none⟩ : PathEnv), v)
  | .lockDrives, v => (true, v)
  | .stat _, v => ((.error enoent : Except Errno Stat), v)
  | .fs _, v => ((none : Option Errno), v)
  | .scandir _, v => ((⟨enoent, []⟩ : Scan), v)
  | .malloc, v => (true, v)
  | .localtime _, v => ((⟨0, 0, 0, 0, 0, 0⟩ : Tm), v)
  | .mktime _, v => ((none : Option (BitVec 64)), v)
  | .statvfs _, v => ((.error enoent : Except Errno Statvfs), v)
  | .clientSock _, v => (false, v)
  | .sockWrite .., v => ((), v)
  | .waitForDevice, (w, reads) => ((), { w with history := .connected :: w.history }, reads)
  | .closeDevice, v => ((), v)

theorem posix_scripted (c : Call) (v : Os × List UsbRead) :
    posix.post v.1 c (scripted c v).1 (scripted c v).2.1 := by
  obtain ⟨w, reads⟩ := v
  cases c with
  | usbBulkRead cap size => cases reads <;> exact ⟨undisturbed_refl _, trivial⟩
  | load => exact ⟨⟨rfl, undisturbed_refl _⟩, trivial⟩
  | close fd => exact ⟨⟨none, undisturbed_refl _⟩, trivial⟩
  | openFd path flags mask =>
      unfold scripted
      dsimp only
      split
      · exact ⟨undisturbed_refl _, trivial⟩
      · rename_i free
        exact ⟨undisturbed_refl _, free⟩
  | _ => exact ⟨undisturbed_refl _, trivial⟩

def arriving (data : Bytes) : UsbRead := delivered data []

def openCommand (mode : Word) : UsbRead :=
  arriving (encode (⟨⟨hostfsMagic, HostFsCommand.openFile.code, 2⟩, mode, 0o644, 0⟩ : HostFsOpenCmd))

def reconnect : List UsbRead :=
  [openCommand (hostfsBulkOpen ||| 1), arriving [97, 0], arriving [], openCommand 1, arriving [98, 0]]

theorem bulk_target_stale : ∃ c, bulkDaemon.Reachable c ∧ c.1 = .ret .commands ∧ ¬ Aimed c.2 := by
  let w₀ : Os := ⟨zeroGlobals, fun _ => none, []⟩
  have start : bulkDaemon.Reachable (.ret .session, w₀) := .init ⟨rfl, rfl, rfl, rfl⟩
  have run := Prog.reachable_turns posix_scripted 5 (v := (w₀, reconnect)) start
  generalize ends : Prog.turns scripted startHostfs 5 (.session, w₀, reconnect) = last at run
  have stale : (last.1 = .commands ∧ last.2.1.globals.bulkfd = 5 ∧
      (last.2.1.globals.openFiles 5).mode &&& hostfsBulkOpen = 0) := by
    rw [← ends]
    decide +kernel
  obtain ⟨commands, names, ordinary⟩ := stale
  refine ⟨_, run, congrArg _ commands, ?_⟩
  rintro (unset | ⟨fd, names', -, -, bulk, -⟩)
  · rw [names] at unset
    cases unset
  · rw [names] at names'
    have same : fd = 5 := by omega
    subst same
    exact bulk ordinary

end Psplink.HostFs
