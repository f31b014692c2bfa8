import Psplink.HostFs.Preservation

/-!
# File descriptors as handles

The wire names files by the descriptors of the daemon's process. The world here is the process as
the operating system keeps it: its descriptor table, in which sockets and the USB device come and
go at any moment, and the history of what was opened, used and closed. In every run the daemon only
uses and closes descriptors that `open_file` opened in the session, and refuses every other `fid`.
-/

namespace Psplink.HostFs
open Psplink.Lib

/-! ## The descriptors of the process -/

inductive FdEvent
  | connected
  | opened (fd : Nat)
  | closed (fd : Nat)
  | used (fd : Nat)
  | sent (data : Bytes)

abbrev History := List FdEvent

/-- Opened in the current session and not closed since. -/
def Held : History → Nat → Prop
  | [], _ => False
  | .connected :: _, _ => False
  | .opened fd :: past, n => n = fd ∨ Held past n
  | .closed fd :: past, n => n ≠ fd ∧ Held past n
  | .used _ :: past, n => Held past n
  | .sent _ :: past, n => Held past n

/-- A descriptor beyond the table is closed where it was opened, and nowhere else. -/
def Permitted (past : History) : FdEvent → Prop
  | .used fd => Held past fd ∧ fd < maxFiles
  | .closed fd => Held past fd ∧ (fd < maxFiles ∨ past.head? = some (.opened fd))
  | .connected | .opened _ | .sent _ => True

def Safe (history : History) : Prop :=
  ∀ future e past, history = future ++ e :: past → Permitted past e

theorem safe_nil : Safe [] := by
  intro future e past h
  cases future <;> cases h

theorem Safe.cons {history : History} (safe : Safe history) {e : FdEvent}
    (permitted : Permitted history e) : Safe (e :: history) := by
  intro future e' past h
  cases future with
  | nil =>
      cases h
      exact permitted
  | cons _ future =>
      cases h
      exact safe future e' past rfl

/-- What a descriptor of the process stands for: a file that `open_file` opened, or a socket, the
USB device and anything else. -/
inductive Owner
  | file | other
  deriving DecidableEq

structure Os where
  globals : Globals
  table : Nat → Option Owner
  history : History

def SameFiles (table table' : Nat → Option Owner) : Prop :=
  ∀ fd, table' fd = some .file ↔ table fd = some .file

structure Undisturbed (w w' : Os) : Prop where
  globals : w'.globals = w.globals
  history : w'.history = w.history
  table : SameFiles w.table w'.table

/-- What each call may answer. Nothing is assumed of the number that `open` returns, and a `close`
that fails may have closed the descriptor or not. -/
def Answers (w : Os) : (c : Call) → c.Answer → Os → Prop
  | .load, g, w' => g = w.globals ∧ Undisturbed w w'
  | .modify f, _, w' => Undisturbed { w with globals := f w.globals } w'
  | .openFd .., .ok fd, w' =>
      Undisturbed ⟨w.globals, Function.update w.table fd (some .file), .opened fd :: w.history⟩ w'
  | .close fd, _, w' => ∃ entry,
      Undisturbed ⟨w.globals, Function.update w.table fd entry, .closed fd :: w.history⟩ w'
  | .read fd .., _, w' | .write fd _, _, w' | .lseek fd .., _, w' =>
      Undisturbed { w with history := .used fd :: w.history } w'
  | .usbBulkWrite data, _, w' => Undisturbed { w with history := .sent data :: w.history } w'
  | .waitForDevice, _, w' => Undisturbed { w with history := .connected :: w.history } w'
  | .openFd .., .error _, w' | .usbBulkRead .., _, w' | .pathEnv, _, w' | .lockDrives, _, w'
  | .stat _, _, w' | .fs _, _, w' | .scandir _, _, w' | .malloc, _, w' | .localtime _, _, w'
  | .mktime _, _, w' | .statvfs _, _, w' | .clientSock _, _, w' | .sockWrite .., _, w'
  | .closeDevice, _, w' => Undisturbed w w'

def Allowed (w : Os) : Call → Prop
  | .read fd .. | .write fd _ | .lseek fd .. => Permitted w.history (.used fd)
  | .close fd => Permitted w.history (.closed fd)
  | _ => True

def process : Prog.Contract Call Call.Answer Os where
  pre := Allowed
  post := Answers

def daemon : System (Pc Loop × Os) Unit :=
  Prog.server process startHostfs .session fun w =>
    w.globals.openFiles = (fun _ => .cleared) ∧ w.history = []

/-! ## The table and the process agree -/

def Kept (w : Os) : Prop :=
  ∀ fd < maxFiles, (w.globals.openFiles fd).opened = true → Held w.history fd

theorem Kept.undisturbed {w w' : Os} (kept : Kept w) (same : Undisturbed w w') : Kept w' := by
  rw [Kept, same.globals, same.history]
  exact kept

abbrev Keeps {α : Type} (p : Pc α) : Prop := Preserves process Kept p

theorem Kept.answer {w w' : Os} {c : Call} {a : c.Answer} (leaves : c.LeavesFiles) (kept : Kept w)
    (answered : Answers w c a w') : Kept w' := by
  cases c with
  | modify f =>
      have changed : Kept { w with globals := f w.globals } := by
        rw [Kept, show (f w.globals).openFiles = w.globals.openFiles from (leaves w.globals).1]
        exact kept
      exact changed.undisturbed answered
  | load => exact kept.undisturbed answered.2
  | usbBulkWrite data =>
      have noted : Kept { w with history := .sent data :: w.history } := kept
      exact noted.undisturbed answered
  | openFd | close | read | write | lseek | waitForDevice => exact leaves.elim
  | usbBulkRead | pathEnv | lockDrives | stat | fs | scandir | malloc | localtime | mktime
  | statvfs | clientSock | sockWrite | closeDevice => exact kept.undisturbed answered

theorem allowed_of_leavesFiles {w : Os} {c : Call} (leaves : c.LeavesFiles) : Allowed w c := by
  cases c <;> trivial

/-! ## Opening, using and closing -/

theorem Kept.permitted_use {w : Os} (kept : Kept w) {fd : Nat} (bound : fd < maxFiles)
    (opened : (w.globals.openFiles fd).opened = true) : Permitted w.history (.used fd) :=
  ⟨kept fd bound opened, bound⟩

theorem Kept.used {w w' : Os} (kept : Kept w) {fd : Nat}
    (same : Undisturbed { w with history := .used fd :: w.history } w') : Kept w' := by
  have noted : Kept { w with history := .used fd :: w.history } := kept
  exact noted.undisturbed same

theorem Kept.opened {w w' : Os} (kept : Kept w) {fd : Nat}
    (same : Undisturbed
      ⟨w.globals, Function.update w.table fd (some .file), .opened fd :: w.history⟩ w') :
    Kept w' := by
  have noted : Kept ⟨w.globals, Function.update w.table fd (some .file), .opened fd :: w.history⟩ :=
    fun n bound h => .inr (kept n bound h)
  exact noted.undisturbed same

theorem Kept.closed {w w' : Os} (kept : Kept w) {fd : Nat} {entry : Option Owner} {g : Globals}
    (forgotten : ∀ n < maxFiles, (g.openFiles n).opened = true →
      n ≠ fd ∧ (w.globals.openFiles n).opened = true)
    (same : Undisturbed ⟨g, Function.update w.table fd entry, .closed fd :: w.history⟩ w') :
    Kept w' := by
  have noted : Kept ⟨g, Function.update w.table fd entry, .closed fd :: w.history⟩ := by
    intro n bound h
    obtain ⟨other, opened⟩ := forgotten n bound h
    exact ⟨other, kept n bound opened⟩
  exact noted.undisturbed same

theorem Undisturbed.change {w w' w'' : Os} {f : Globals → Globals} {u : (Call.modify f).Answer}
    (same : Undisturbed w w') (changed : process.post w' (.modify f) u w'') :
    Undisturbed { w with globals := f w.globals } w'' where
  globals := by rw [Undisturbed.globals changed, same.globals]
  history := (Undisturbed.history changed).trans same.history
  table fd := (Undisturbed.table changed fd).trans (same.table fd)

theorem Kept.setFile {w w' : Os} (kept : Kept w) {fd : Nat} {h : FileHandle}
    (held : Held w.history fd)
    (same : Undisturbed { w with globals := w.globals.setFile fd h } w') : Kept w' := by
  have noted : Kept { w with globals := w.globals.setFile fd h } := by
    intro n bound opened
    by_cases same : n = fd
    · exact same ▸ held
    · exact kept n bound (by simpa [Globals.setFile, same] using opened)
  exact noted.undisturbed same

theorem keeps_enterFile {w : Os} (kept : Kept w) {fd : Nat} (held : Held w.history fd)
    (mode : Word) (fullpath : Bytes) :
    (enterFile fd mode fullpath).wp process (fun _ => Kept) w := by
  simp only [enterFile, change_seq]
  refine ⟨trivial, fun _ w₁ answered => ?_⟩
  have kept := kept.setFile held answered
  dsimp only
  split
  · refine ⟨trivial, fun _ w₂ aimed => ?_⟩
    have noted : Kept { w₁ with globals := { w₁.globals with bulkfd := fd } } := kept
    exact noted.undisturbed aimed
  · exact kept

theorem keeps_openPath (fullpath : Bytes) (flags : OpenFlags) (mode mask : Word) :
    Keeps (openPath fullpath flags mode mask) := by
  intro w kept
  simp only [openPath, ask_seq]
  refine ⟨trivial, fun result w₁ answered => ?_⟩
  cases result with
  | error e => exact kept.undisturbed answered
  | ok fd =>
      have held : Held w₁.history fd := answered.history ▸ .inl rfl
      have latest : w₁.history.head? = some (.opened fd) := by rw [answered.history]; rfl
      have kept := kept.opened answered
      dsimp only
      split
      · exact (Prog.wp_bind _ _ _ _).2 (keeps_enterFile kept held mode fullpath)
      · rename_i beyond
        refine ⟨⟨held, .inr latest⟩, ?_⟩
        rintro _ w₂ ⟨entry, answered⟩
        exact kept.closed (fun n bound opened => ⟨by rintro rfl; exact beyond bound, opened⟩) answered

theorem keeps_writeFid (fid : Int) (data : Bytes) : Keeps (writeFid fid data) := by
  intro w kept
  simp only [writeFid, ask_seq]
  split
  · refine ⟨trivial, ?_⟩
    rintro g w₁ ⟨current, answered⟩
    have kept := kept.undisturbed answered
    dsimp only
    split
    · rename_i range opened
      have bound : fid.toNat < maxFiles := by omega
      rw [current, ← answered.globals] at opened
      exact ⟨kept.permitted_use bound opened, fun _ w₂ answered => kept.used answered⟩
    · exact kept
  · exact kept

theorem keeps_readFid (fid : Int) (len : Nat) : Keeps (readFid fid len) := by
  intro w kept
  simp only [readFid, ask_seq]
  split
  · refine ⟨trivial, ?_⟩
    rintro g w₁ ⟨current, answered⟩
    have kept := kept.undisturbed answered
    dsimp only
    split
    · rename_i range opened
      have bound : fid.toNat < maxFiles := by omega
      rw [current, ← answered.globals] at opened
      refine ⟨kept.permitted_use bound opened, fun rets w₂ answered => ?_⟩
      dsimp only
      split <;> exact kept.used answered
    · exact kept
  · exact kept

theorem keeps_lseekFid (fid : Int) (ofs : BitVec 64) (whence : Word) :
    Keeps (lseekFid fid ofs whence) := by
  intro w kept
  simp only [lseekFid, ask_seq]
  refine ⟨trivial, ?_⟩
  rintro g w₁ ⟨current, answered⟩
  have kept := kept.undisturbed answered
  dsimp only
  split
  · rename_i valid
    have bound : fid.toNat < maxFiles := by omega
    have opened := valid.2.2
    rw [current, ← answered.globals] at opened
    exact ⟨kept.permitted_use bound opened, fun _ w₂ answered => kept.used answered⟩
  · exact kept

theorem keeps_closeFid (fid : Int) : Keeps (closeFid fid) := by
  intro w kept
  simp only [closeFid, ask_seq, change_seq]
  refine ⟨trivial, ?_⟩
  rintro g w₁ ⟨current, answered⟩
  have kept := kept.undisturbed answered
  dsimp only
  split
  · rename_i valid
    have bound : fid.toNat < maxFiles := by omega
    have opened := valid.2.2
    rw [current, ← answered.globals] at opened
    refine ⟨⟨kept _ bound opened, .inl bound⟩, ?_⟩
    rintro _ w₂ ⟨entry, answered⟩
    refine ⟨trivial, fun _ w₃ changed => ?_⟩
    refine kept.closed ?_ (answered.change changed)
    intro n _ opened
    by_cases same : n = fid.toNat
    · simp [Globals.setFile, same] at opened
    · exact ⟨same, by simpa [Globals.setFile, same] using opened⟩
  · exact kept

theorem keeps_closeFiles {fds : List Nat} (inTable : ∀ fd ∈ fds, fd < maxFiles) :
    Keeps (closeFiles fds) := by
  induction fds with
  | nil => exact .ret _
  | cons fd rest ih =>
      have ih := ih fun n mem => inTable n (.tail _ mem)
      have bound := inTable fd (.head _)
      intro w kept
      simp only [closeFiles, ask_seq, change_seq]
      refine ⟨trivial, ?_⟩
      rintro g w₁ ⟨current, answered⟩
      have kept := kept.undisturbed answered
      dsimp only
      split
      · rename_i opened
        rw [current, ← answered.globals] at opened
        refine ⟨⟨kept _ bound opened, .inl bound⟩, ?_⟩
        rintro _ w₂ ⟨entry, answered⟩
        refine ⟨trivial, fun _ w₃ changed => ih w₃ ?_⟩
        refine kept.closed ?_ (answered.change changed)
        intro n _ opened
        by_cases same : n = fd
        · simp [Globals.setFile, same] at opened
        · exact ⟨same, by simpa [Globals.setFile, same] using opened⟩
      · exact ih w₁ kept

/-! ## Sessions -/

theorem keptRules : FileRules process Kept where
  allowed _ _ leaves _ := allowed_of_leavesFiles leaves
  kept _ _ _ _ leaves kept answered := kept.answer leaves answered
  openPath := keeps_openPath
  writeFid := keeps_writeFid
  readFid := keeps_readFid
  closeFid := keeps_closeFid
  lseekFid := keeps_lseekFid

theorem keeps_doBulk (t : Bytes) : Keeps (doBulk t) := by
  refine .bind (keptRules.readBlocks _ _ _ _) fun block => ?_
  cases block with
  | none => exact .ret _
  | some block =>
      intro w kept
      simp only [ask_seq]
      refine ⟨trivial, ?_⟩
      rintro g w₁ ⟨current, answered⟩
      have kept := kept.undisturbed answered
      dsimp only
      split
      · split
        · rename_i range opened
          have bound : g.bulkfd.toNat < maxFiles := by omega
          rw [current, ← answered.globals] at opened bound ⊢
          exact ⟨kept.permitted_use bound opened, fun _ w₂ answered => kept.used answered⟩
        · exact kept
      · exact kept

theorem inTable {fd : Nat} (mem : fd ∈ List.range' 3 (maxFiles - 3)) : fd < maxFiles := by
  simp only [List.mem_range'_1, maxFiles] at mem ⊢
  omega

theorem keeps_leaveSession : Keeps leaveSession := by
  intro w kept
  apply Prog.wp_mono _ (keptRules.leaveSession (keeps_closeFiles fun _ => inTable) kept)
  intro loop w' left
  exact left.2

theorem keeps_startHostfs (loop : Loop) : Keeps (startHostfs loop) := by
  cases loop with
  | session =>
      intro w kept
      simp only [startHostfs, initHostfs, change_seq]
      refine ⟨trivial, fun _ w₁ cleared => ⟨trivial, fun _ w₂ connected => ?_⟩⟩
      have fresh : Kept { w₁ with history := .connected :: w₁.history } := by
        intro fd _ opened
        rw [Undisturbed.globals cleared] at opened
        cases opened
      refine Preserves.bind (keptRules.usbBulkWrite _) (fun ret => ?_) w₂ (fresh.undisturbed connected)
      split
      · exact .ret _
      · exact keeps_leaveSession
  | commands =>
      refine .bind (keptRules.usbBulkRead _ _) fun got =>
        .bind (keptRules.serve keeps_doBulk got) fun again => ?_
      split
      · exact .ret _
      · exact keeps_leaveSession

theorem kept_of_reachable {c : Pc Loop × Os} (reachable : daemon.Reachable c) :
    c.1.wp process (fun _ => Kept) c.2 := by
  refine Prog.server_invariant (I := fun _ => Kept) ?_ keeps_startHostfs reachable
  rintro w ⟨cleared, _⟩ fd _ opened
  rw [cleared] at opened
  cases opened

/-- At every moment, and not only between two commands. -/
structure Sound (w : Os) : Prop where
  safe : Safe w.history
  files : ∀ fd, Held w.history fd → w.table fd = some .file

theorem Sound.undisturbed {w w' : Os} (sound : Sound w) (same : Undisturbed w w') : Sound w' where
  safe := same.history ▸ sound.safe
  files fd held := (same.table fd).2 (sound.files fd (same.history ▸ held))

theorem Sound.opened {w : Os} (sound : Sound w) (fd : Nat) :
    Sound ⟨w.globals, Function.update w.table fd (some .file), .opened fd :: w.history⟩ where
  safe := sound.safe.cons trivial
  files n held := by
    by_cases same : n = fd
    · rw [same]
      exact Function.update_self ..
    · exact (Function.update_of_ne same ..).trans (sound.files n (held.resolve_left same))

theorem Sound.closed {w : Os} (sound : Sound w) {fd : Nat} (entry : Option Owner)
    (permitted : Permitted w.history (.closed fd)) :
    Sound ⟨w.globals, Function.update w.table fd entry, .closed fd :: w.history⟩ where
  safe := sound.safe.cons permitted
  files n held := (Function.update_of_ne held.1 ..).trans (sound.files n held.2)

theorem Sound.answer {w w' : Os} {c : Call} {a : c.Answer} (sound : Sound w) (allowed : Allowed w c)
    (answered : Answers w c a w') : Sound w' := by
  cases c with
  | load => exact sound.undisturbed answered.2
  | modify f =>
      have same : Sound { w with globals := f w.globals } := ⟨sound.safe, sound.files⟩
      exact same.undisturbed answered
  | openFd path flags mask =>
      cases a with
      | error e => exact sound.undisturbed answered
      | ok fd => exact (sound.opened fd).undisturbed answered
  | close fd =>
      obtain ⟨entry, answered⟩ := answered
      exact (sound.closed entry allowed).undisturbed answered
  | read fd | write fd | lseek fd =>
      have noted : Sound { w with history := .used fd :: w.history } :=
        ⟨sound.safe.cons allowed, sound.files⟩
      exact noted.undisturbed answered
  | usbBulkWrite data =>
      have noted : Sound { w with history := .sent data :: w.history } :=
        ⟨sound.safe.cons trivial, sound.files⟩
      exact noted.undisturbed answered
  | waitForDevice =>
      have noted : Sound { w with history := .connected :: w.history } :=
        ⟨sound.safe.cons trivial, fun _ held => False.elim held⟩
      exact noted.undisturbed answered
  | usbBulkRead | pathEnv | lockDrives | stat | fs | scandir | malloc | localtime | mktime
  | statvfs | clientSock | sockWrite | closeDevice => exact sound.undisturbed answered

theorem sound_of_reachable {c : Pc Loop × Os} (reachable : daemon.Reachable c) : Sound c.2 := by
  induction reachable with
  | @init c start =>
      obtain ⟨-, -, start⟩ := start
      refine ⟨?_, fun fd held => ?_⟩
      · rw [start]
        exact safe_nil
      · rw [start] at held
        exact False.elim held
  | @step c c' _ before taken sound =>
      have next := kept_of_reachable before
      obtain ⟨p, w⟩ := c
      cases p with
      | ret loop =>
          rw [show c' = (startHostfs loop, w) from taken]
          exact sound
      | ask call k =>
          obtain ⟨a, answered, -⟩ := taken
          exact sound.answer next.1 answered

/-! ## Refusals -/

def fidOf (t : Bytes) : Option Int :=
  match HostFsCommand.ofCode (headerOf t).command with
  | some .close | some .write => some (decode t : HostFsFidCmd).fid.toInt
  | some .read => some (decode t : HostFsReadCmd).fid.toInt
  | some .lseek => some (decode t : HostFsLseekCmd).fid.toInt
  | _ => none

def refusal : HostFsCommand → Bytes
  | .lseek => encode (⟨respHeader .lseek, -1, 0⟩ : HostFsLseekResp)
  | c => encode (⟨respHeader c, -1⟩ : HostFsResp)

/-- `fid` names no descriptor that `open_file` opened in the session and that is still open. -/
def Foreign (history : History) (fid : Int) : Prop := ∀ fd : Nat, fid = fd → ¬ Held history fd

/-- Nothing happens but that the handle is reported as invalid, at most. -/
def Refused (c : HostFsCommand) (w w' : Os) : Prop :=
  ∃ events, w'.history = events ++ w.history ∧ ∀ e ∈ events, e = .sent (refusal c)

theorem refused_of_silent {w w' : Os} (silent : w'.history = w.history) (c : HostFsCommand) :
    Refused c w w' := ⟨[], silent, fun _ mem => nomatch mem⟩

theorem refused_send {w w₁ : Os} (silent : w₁.history = w.history) (c : HostFsCommand) :
    (usbBulkWrite (refusal c)).wp process (fun _ w' => Refused c w w') w₁ := by
  refine ⟨trivial, fun ret w₂ answered => ⟨[.sent (refusal c)], ?_, fun e mem => ?_⟩⟩
  · rw [Undisturbed.history answered]
    exact congrArg _ silent
  · exact List.mem_singleton.1 mem

theorem Kept.not_opened {w : Os} (kept : Kept w) {fid : Int} (foreign : Foreign w.history fid)
    (range : 0 ≤ fid ∧ fid < maxFiles) : (w.globals.openFiles fid.toNat).opened ≠ true := fun opened =>
  foreign fid.toNat (by omega) (kept fid.toNat (by omega) opened)

section
variable {w : Os} {fid : Int} (kept : Kept w) (foreign : Foreign w.history fid)
include kept foreign

theorem closeFid_foreign :
    (closeFid fid).wp process (fun res w' => res = -1 ∧ w'.history = w.history) w := by
  simp only [closeFid, ask_seq, change_seq]
  refine ⟨trivial, ?_⟩
  rintro g w₁ ⟨current, same⟩
  have closed := kept.not_opened foreign
  dsimp only
  rw [if_neg fun h => closed ⟨by omega, h.2.1⟩ (current ▸ h.2.2)]
  exact ⟨rfl, same.history⟩

theorem lseekFid_foreign (ofs : BitVec 64) (whence : Word) :
    (lseekFid fid ofs whence).wp process (fun r w' => r = (-1, 0) ∧ w'.history = w.history) w := by
  simp only [lseekFid, ask_seq]
  refine ⟨trivial, ?_⟩
  rintro g w₁ ⟨current, same⟩
  have closed := kept.not_opened foreign
  dsimp only
  rw [if_neg fun h => closed ⟨by omega, h.2.1⟩ (current ▸ h.2.2)]
  exact ⟨rfl, same.history⟩

theorem writeFid_foreign (data : Bytes) :
    (writeFid fid data).wp process (fun res w' => res = -1 ∧ w'.history = w.history) w := by
  simp only [writeFid, ask_seq]
  split
  · rename_i range
    refine ⟨trivial, ?_⟩
    rintro g w₁ ⟨current, same⟩
    dsimp only
    rw [current, if_neg (kept.not_opened foreign range)]
    exact ⟨rfl, same.history⟩
  · exact ⟨rfl, rfl⟩

theorem readFid_foreign (len : Nat) :
    (readFid fid len).wp process (fun r w' => r = (-1, []) ∧ w'.history = w.history) w := by
  simp only [readFid, ask_seq]
  split
  · rename_i range
    refine ⟨trivial, ?_⟩
    rintro g w₁ ⟨current, same⟩
    dsimp only
    rw [current, if_neg (kept.not_opened foreign range)]
    exact ⟨rfl, same.history⟩
  · exact ⟨rfl, rfl⟩

end

theorem wp_ofSize {p : Pc Int} {size cmdlen : Nat} {c : HostFsCommand} {w : Os}
    (refused : p.wp process (fun _ w' => Refused c w w') w) :
    (if cmdlen ≠ size then return -1 else p : Pc Int).wp process (fun _ w' => Refused c w w') w := by
  split
  · exact refused_of_silent rfl c
  · exact refused

theorem handleClose_foreign {w : Os} (kept : Kept w) {cmd : HostFsFidCmd} {cmdlen : Nat}
    (foreign : Foreign w.history cmd.fid.toInt) :
    (handleClose cmd cmdlen).wp process (fun _ w' => Refused .close w w') w := by
  refine wp_ofSize ((Prog.wp_bind _ _ _ _).2 (Prog.wp_mono ?_ (closeFid_foreign kept foreign)))
  rintro res w₁ ⟨rfl, silent⟩
  exact refused_send silent .close

theorem handleLseek_foreign {w : Os} (kept : Kept w) {cmd : HostFsLseekCmd} {cmdlen : Nat}
    (foreign : Foreign w.history cmd.fid.toInt) :
    (handleLseek cmd cmdlen).wp process (fun _ w' => Refused .lseek w w') w := by
  refine wp_ofSize ((Prog.wp_bind _ _ _ _).2
    (Prog.wp_mono ?_ (lseekFid_foreign kept foreign cmd.ofs cmd.whence)))
  rintro r w₁ ⟨rfl, silent⟩
  exact refused_send silent .lseek

theorem handleRead_foreign {w : Os} (kept : Kept w) {cmd : HostFsReadCmd} {cmdlen : Nat}
    (foreign : Foreign w.history cmd.fid.toInt) :
    (handleRead cmd cmdlen).wp process (fun _ w' => Refused .read w w') w := by
  refine wp_ofSize ?_
  split
  · exact refused_of_silent rfl _
  refine (Prog.wp_bind _ _ _ _).2 (Prog.wp_mono ?_ (readFid_foreign kept foreign _))
  rintro r w₁ ⟨rfl, silent⟩
  refine (Prog.wp_bind _ _ _ _).2 (Prog.wp_mono ?_ (refused_send silent .read))
  intro ret w₂ refused
  split
  · exact refused
  · exact refused

theorem handleWrite_foreign {w : Os} (kept : Kept w) {cmd : HostFsFidCmd} {cmdlen : Nat}
    (foreign : Foreign w.history cmd.fid.toInt) :
    (handleWrite cmd cmdlen).wp process (fun _ w' => Refused .write w w') w := by
  refine wp_ofSize ?_
  split
  · exact refused_of_silent rfl _
  simp only [usbBulkRead_seq]
  refine ⟨trivial, fun got w₁ same => ?_⟩
  have silent : w₁.history = w.history := Undisturbed.history same
  dsimp only
  split
  · exact refused_of_silent silent _
  have foreign : Foreign w₁.history cmd.fid.toInt := silent ▸ foreign
  refine (Prog.wp_bind _ _ _ _).2
    (Prog.wp_mono ?_ (writeFid_foreign (kept.undisturbed same) foreign _))
  rintro res w₂ ⟨rfl, silent'⟩
  exact refused_send (silent'.trans silent) .write

theorem dispatch_foreign {w : Os} (kept : Kept w) {t : Bytes} {fid : Int}
    (names : fidOf t = some fid) (foreign : Foreign w.history fid) :
    ∃ c, HostFsCommand.ofCode (headerOf t).command = some c ∧
      (dispatch t).wp process (fun _ w' => Refused c w w') w := by
  unfold fidOf at names
  unfold dispatch
  split at names
  case h_1 selected =>
    cases names
    exact ⟨_, selected, by simpa only [selected] using handleClose_foreign kept foreign⟩
  case h_2 selected =>
    cases names
    exact ⟨_, selected, by simpa only [selected] using handleWrite_foreign kept foreign⟩
  case h_3 selected =>
    cases names
    exact ⟨_, selected, by simpa only [selected] using handleRead_foreign kept foreign⟩
  case h_4 selected =>
    cases names
    exact ⟨_, selected, by simpa only [selected] using handleLseek_foreign kept foreign⟩
  case h_5 => cases names

/-- In every run: whatever is used or closed was opened by `open_file` in the session and is open,
what is open so is a file of the process and nothing else, and at the top of the command loop a
handle that names anything else is refused. -/
theorem descriptors_are_capabilities {c : Pc Loop × Os} (reachable : daemon.Reachable c) :
    Safe c.2.history ∧
    (∀ fd, Held c.2.history fd → c.2.table fd = some .file) ∧
    (c.1 = .ret .commands → ∀ t fid, fidOf t = some fid → Foreign c.2.history fid →
      ∃ cmd, HostFsCommand.ofCode (headerOf t).command = some cmd ∧
        (dispatch t).wp process (fun _ w' => Refused cmd c.2 w') c.2) := by
  have sound := sound_of_reachable reachable
  refine ⟨sound.safe, sound.files, fun top t fid names foreign => ?_⟩
  have kept := kept_of_reachable reachable
  rw [top] at kept
  exact dispatch_foreign kept names foreign

/-! ### The daemon just after the first connection -/

def connectedOs : Os := ⟨zeroGlobals, fun _ => none, [.sent (encode hostfsMagic), .connected]⟩

theorem undisturbed_refl (w : Os) : Undisturbed w w := ⟨rfl, rfl, fun _ => Iff.rfl⟩

theorem daemon_connected : daemon.Reachable (.ret .commands, connectedOs) := by
  let w₀ : Os := ⟨zeroGlobals, fun _ => none, []⟩
  have s₀ : daemon.Reachable (.ret .session, w₀) := .init ⟨rfl, rfl, rfl⟩
  have s₁ : daemon.Reachable (startHostfs .session, w₀) := .step (a := ()) s₀ rfl
  have s₂ : daemon.Reachable (_, w₀) := .step (a := ()) s₁ ⟨(), undisturbed_refl w₀, rfl⟩
  let w₁ : Os := { w₀ with history := [.connected] }
  have s₃ : daemon.Reachable (_, w₁) := .step (a := ()) s₂ ⟨(), undisturbed_refl w₁, rfl⟩
  exact .step (a := ()) s₃ ⟨(4 : Int), undisturbed_refl connectedOs, rfl⟩

theorem descriptors_are_capabilities_connected :
    (dispatch (encode (⟨⟨hostfsMagic, HostFsCommand.close.code, 0⟩, 5⟩ : HostFsFidCmd))).wp process
      (fun _ w' => Refused .close connectedOs w') connectedOs := by
  obtain ⟨cmd, selected, refused⟩ := (descriptors_are_capabilities daemon_connected).2.2 rfl
    (encode (⟨⟨hostfsMagic, HostFsCommand.close.code, 0⟩, 5⟩ : HostFsFidCmd)) 5 (by decide)
    (fun _ _ held => held)
  rw [headerOf_encode] at selected
  cases selected.symm.trans (HostFsCommand.ofCode_code .close)
  exact refused

end Psplink.HostFs
