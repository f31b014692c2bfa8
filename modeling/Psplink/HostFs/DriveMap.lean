import Mathlib.Data.List.DropRight
import Psplink.HostFs.PathBounds
import Psplink.Lib.Strtoul
import Psplink.Lib.System

/-!
# Drives and their map file

The shell of usbhostfs_pc/main.c from `add_drive` to `parse_shell`, without what it prints. A line is
shorter than `PATH_MAX`, as the one that `fgets` reads from the terminal; `long` is the number of bits
of the PC's long integers.
-/

namespace Psplink.HostFs
open Psplink.Lib

/-! ## Text -/

def isSpace (c : UInt8) : Bool := c = 32 ∨ 9 ≤ c ∧ c ≤ 13

def isDigit (c : UInt8) : Bool := 48 ≤ c ∧ c ≤ 57

/-- A string without its white space at both ends. -/
def trim (text : Bytes) : Bytes := (text.rdropWhile isSpace).dropWhile isSpace

/-- The token that `strtok` finds and what it goes on with. -/
def strtok (delim : UInt8 → Bool) (text : Bytes) : Option (Bytes × Bytes) :=
  let text := text.dropWhile delim
  if text = [] then none
  else some (text.takeWhile fun c => !delim c, (text.dropWhile fun c => !delim c).tail)

def blank (c : UInt8) : Bool := c = 32 ∨ c = 9

/-- `strtok(NULL, "")`. -/
def restOf (text : Bytes) : Option Bytes := if text = [] then none else some text

/-- How much of a file `fgets` takes. -/
def fgetsLen (size : Nat) (content : Bytes) : Nat :=
  min (size - 1) ((content.takeWhile (· ≠ 10)).length + 1)

def fgetsLoop (size : Nat) : (fuel : Nat) → Bytes → List Bytes
  | 0, _ => []
  | fuel + 1, content =>
      if content = [] then []
      else content.take (fgetsLen size content) :: fgetsLoop size fuel (content.drop (fgetsLen size content))

/-- What `fgets` reads until the end of a file. -/
def fgetsAll (size : Nat) (content : Bytes) : List Bytes := fgetsLoop size content.length content

/-! ## The shell -/

/-- The drives, `g_rootdir`, the options and the files of the PC. -/
structure PcShell where
  drives : Nat → HostDrive
  rootdir : Bytes
  opts : PathOptions
  files : Bytes → Option Bytes

/-- What the system answers a command: whether a directory opens, the mutex locks and a file is
created, and where a change of directory leads. -/
structure PcEnv where
  opendir : Bytes → Bool
  locked : Bool
  creates : Bytes → Bool
  chdir : Bytes → Option Bytes

variable (long : Nat) (env : PcEnv)

def mountPath (rootdir dir : Bytes) : Bytes :=
  genPath (if dir.head? = some slash then dir else snprintf (rootdir ++ slash :: dir)) false

def addDrive (s : PcShell) (num : Int) (dir : Bytes) : PcShell :=
  if num < 0 ∨ num ≥ maxHostdrives then s
  else if env.opendir (mountPath s.rootdir dir) ∧ env.locked then
    { s with drives := Function.update s.drives num.toNat ⟨mountPath s.rootdir dir, [slash]⟩ }
  else s

/-- The value of a number in an `int`. -/
def toInt32 (num : BitVec long) : Int := (num.setWidth 32).toInt

/-- A line of the map file. -/
def mapEntry (line : Bytes) : Option (Int × Bytes) :=
  let buf := trim (CStr.ofBytes line).text
  if buf.head?.any isDigit then
    let num := Strtoul.strtoulTo long 10 buf
    if num.2.head? = some 61 ∧ num.2.tail ≠ [] ∧ ¬ num.2.tail.head?.any isSpace then
      some (toInt32 long num.1, num.2.tail)
    else none
  else none

def loadLine (s : PcShell) (line : Bytes) : PcShell :=
  match mapEntry long line with
  | some entry => addDrive env s entry.1 entry.2
  | none => s

def loadMapfile (s : PcShell) (mapfile : Bytes) : PcShell :=
  match s.files mapfile with
  | some content => (fgetsAll pathMax content).foldl (loadLine long env) s
  | none => s

def mapLine (drives : Nat → HostDrive) (i : Nat) : Bytes :=
  ascii (toString i) ++ 61 :: (drives i).rootdir ++ [10]

def mapText (drives : Nat → HostDrive) : Bytes := (List.range maxHostdrives).flatMap (mapLine drives)

def saveDrives (s : PcShell) (rest : Bytes) : PcShell :=
  match restOf rest with
  | some mapfile =>
      if env.creates mapfile then { s with files := Function.update s.files mapfile (some (mapText s.drives)) } else s
  | none => s

def loadDrives (s : PcShell) (rest : Bytes) : PcShell :=
  match restOf rest with
  | some mapfile => loadMapfile long env s mapfile
  | none => s

def mountDrive (s : PcShell) (rest : Bytes) : PcShell :=
  match strtok blank rest with
  | some num =>
      match restOf num.2 with
      | some dir =>
          let val := Strtoul.strtoulTo long 10 num.1
          if val.2 = [] then addDrive env s (toInt32 long val.1) dir else s
      | none => s
  | none => s

/-- `nocase_set` and `msslash_set`: the option as the argument leaves it. -/
def onOff (rest : Bytes) (set : Bool) : Bool :=
  match strtok blank rest with
  | some arg => if arg.1 = ascii "on" then true else if arg.1 = ascii "off" then false else set
  | none => set

def chDir (s : PcShell) (rest : Bytes) : PcShell :=
  match (restOf rest).bind env.chdir with
  | some rootdir => { s with rootdir := rootdir }
  | none => s

/-- A command that changes nothing here is one that prints, or one that there is not. None is left
after `exit`. -/
def runCommand (s : PcShell) (cmd rest : Bytes) : Option PcShell :=
  if cmd = ascii "mount" then some (mountDrive long env s rest)
  else if cmd = ascii "save" then some (saveDrives env s rest)
  else if cmd = ascii "load" then some (loadDrives long env s rest)
  else if cmd = ascii "nocase" then some { s with opts := { s.opts with nocase := onOff rest s.opts.nocase } }
  else if cmd = ascii "msslash" then some { s with opts := { s.opts with msslash := onOff rest s.opts.msslash } }
  else if cmd = ascii "cd" then some (chDir env s rest)
  else if cmd = ascii "exit" then none
  else some s

def parseShell (s : PcShell) (buf : Bytes) : Option PcShell :=
  let buf := trim buf
  if buf = [] ∨ buf.head? = some 33 then some s
  else match strtok blank buf with
    | some cmd => runCommand long env s cmd.1 cmd.2
    | none => some s

/-- The drives that `parse_args` sets up. -/
def startDrives (rootdir : Bytes) (args : List Bytes) (i : Nat) : HostDrive :=
  match args[i]? with
  | some arg => ⟨mountPath rootdir arg, []⟩
  | none => ⟨rootdir, []⟩

/-! ## Runs -/

/-- A directory as `getcwd` returns it. -/
structure Cwd (path : Bytes) : Prop where
  normal : genPath path false = path
  short : path.length < pathMax

/-- A line of the shell and what `handle_chdir` and `init_hostfs` do to a drive. -/
inductive DriveEvent
  | line (env : PcEnv) (buf : Bytes)
  | currdir (drive : Nat) (path : Bytes)

def DriveEvent.step (s : PcShell) : DriveEvent → PcShell → Prop
  | .line env buf, s' => buf.length < pathMax ∧ (∀ dir path, env.chdir dir = some path → Cwd path) ∧
      parseShell long env s buf = some s'
  | .currdir drive path, s' =>
      s' = { s with drives := Function.update s.drives drive { s.drives drive with currdir := path } }

structure PcShell.Starts (s : PcShell) : Prop where
  cwd : Cwd s.rootdir
  drives : ∃ args : List Bytes, (∀ arg ∈ args, arg.length < pathMax) ∧ s.drives = startDrives s.rootdir args

def pcShell : System PcShell DriveEvent where
  init := PcShell.Starts
  step := DriveEvent.step long

/-! ## Roots -/

theorem length_genPath_le {path : Bytes} (absolute : path.head? = some slash) :
    (genPath path false).length ≤ path.length := by
  obtain ⟨rest, rfl⟩ : ∃ rest, path = slash :: rest := by
    cases path with
    | nil => cases absolute
    | cons c rest => exact ⟨rest, by rw [Option.some.inj absolute]⟩
  have kept := weight_resolve_le (slash :: rest)
  have spare := weight_components rest
  rw [components_cons_sep] at kept
  rw [length_genPath, List.length_cons]
  simp only [Bool.toNat_false]
  omega

theorem Cwd.absolute {path : Bytes} (cwd : Cwd path) : path.head? = some slash := by
  rw [← cwd.normal]
  rfl

theorem mountPath_cwd {rootdir dir : Bytes} (cwd : Cwd rootdir) (short : dir.length < pathMax) :
    Cwd (mountPath rootdir dir) := by
  refine ⟨genPath_genPath _ _, ?_⟩
  unfold mountPath
  split
  · rename_i absolute
    exact (length_genPath_le absolute).trans_lt short
  · have absolute : (snprintf (rootdir ++ slash :: dir)).head? = some slash := by
      have head := cwd.absolute
      cases rootdir with
      | nil => cases head
      | cons c rest => exact head
    exact (length_genPath_le absolute).trans_lt (length_snprintf _)

theorem length_trim_le (text : Bytes) : (trim text).length ≤ text.length :=
  (List.dropWhile_suffix _).length_le.trans (List.rdropWhile_prefix _ _).length_le

theorem length_fgets_lt {size : Nat} {content line : Bytes} (positive : 0 < size) {fuel : Nat}
    (mem : line ∈ fgetsLoop size fuel content) : line.length < size := by
  induction fuel generalizing content with
  | zero => cases mem
  | succ fuel ih =>
      rw [fgetsLoop] at mem
      split at mem
      · cases mem
      · rcases List.mem_cons.mp mem with rfl | mem
        · have taken := List.length_take_le (fgetsLen size content) content
          have room : fgetsLen size content ≤ size - 1 := Nat.min_le_left _ _
          omega
        · exact ih mem

/-! ## What a command leaves -/

structure Rooted (s : PcShell) : Prop where
  cwd : Cwd s.rootdir
  drive : ∀ i < maxHostdrives, Cwd (s.drives i).rootdir

variable {long env}
variable {s : PcShell}

theorem Rooted.addDrive (rooted : Rooted s) (num : Int) {dir : Bytes} (short : dir.length < pathMax) :
    Rooted (addDrive env s num dir) := by
  unfold HostFs.addDrive
  split
  · exact rooted
  · split
    · refine ⟨rooted.cwd, ?_⟩
      intro i bound
      show Cwd (Function.update s.drives num.toNat _ i).rootdir
      rw [Function.update_apply]
      split
      · exact mountPath_cwd rooted.cwd short
      · exact rooted.drive i bound
    · exact rooted

theorem mapEntry_length {line : Bytes} {entry : Int × Bytes} (found : mapEntry long line = some entry) :
    entry.2.length ≤ line.length := by
  have text : (CStr.ofBytes line).text.length ≤ line.length := (List.takeWhile_prefix _).length_le
  have trimmed := length_trim_le (CStr.ofBytes line).text
  have rest := (Strtoul.strtoulTo_suffix long 10 (trim (CStr.ofBytes line).text)).length_le
  simp only [mapEntry] at found
  split at found
  · split at found
    · obtain rfl := Option.some.inj found
      rw [List.length_tail]
      omega
    · cases found
  · cases found

theorem Rooted.loadLine (rooted : Rooted s) {line : Bytes} (short : line.length < pathMax) :
    Rooted (loadLine long env s line) := by
  unfold HostFs.loadLine
  split
  · rename_i entry found
    exact rooted.addDrive _ ((mapEntry_length found).trans_lt short)
  · exact rooted

theorem Rooted.loadLines (rooted : Rooted s) {lines : List Bytes} (short : ∀ line ∈ lines, line.length < pathMax) :
    Rooted (lines.foldl (HostFs.loadLine long env) s) := by
  induction lines generalizing s with
  | nil => exact rooted
  | cons line lines ih =>
      exact ih (rooted.loadLine (short line List.mem_cons_self)) fun _ mem => short _ (List.mem_cons_of_mem _ mem)

theorem Rooted.loadMapfile (rooted : Rooted s) (mapfile : Bytes) : Rooted (loadMapfile long env s mapfile) := by
  unfold HostFs.loadMapfile
  split
  · exact rooted.loadLines fun _ => length_fgets_lt (by decide)
  · exact rooted

theorem strtok_length {delim : UInt8 → Bool} {text : Bytes} {token : Bytes × Bytes}
    (found : strtok delim text = some token) : token.2.length ≤ text.length := by
  have first := (List.dropWhile_suffix (l := text) delim).length_le
  have second := (List.dropWhile_suffix (l := text.dropWhile delim) fun c => !delim c).length_le
  simp only [strtok] at found
  split at found
  · cases found
  · obtain rfl := Option.some.inj found
    rw [List.length_tail]
    omega

theorem restOf_eq {text rest : Bytes} (found : restOf text = some rest) : rest = text := by
  unfold restOf at found
  split at found
  · cases found
  · exact (Option.some.inj found).symm

theorem Rooted.mountDrive (rooted : Rooted s) {rest : Bytes} (short : rest.length < pathMax) :
    Rooted (mountDrive long env s rest) := by
  unfold HostFs.mountDrive
  split
  · rename_i num found
    split
    · rename_i dir given
      have length := strtok_length found
      rw [← restOf_eq given] at length
      dsimp only
      split
      · exact rooted.addDrive _ (length.trans_lt short)
      · exact rooted
    · exact rooted
  · exact rooted

theorem Rooted.chDir (rooted : Rooted s) (canonical : ∀ dir path, env.chdir dir = some path → Cwd path) (rest : Bytes) :
    Rooted (chDir env s rest) := by
  unfold HostFs.chDir
  split
  · rename_i path changed
    obtain ⟨dir, _, changed⟩ := Option.bind_eq_some_iff.mp changed
    exact ⟨canonical dir path changed, rooted.drive⟩
  · exact rooted

theorem Rooted.saveDrives (rooted : Rooted s) (rest : Bytes) : Rooted (saveDrives env s rest) := by
  unfold HostFs.saveDrives
  split
  · split
    · exact ⟨rooted.cwd, rooted.drive⟩
    · exact rooted
  · exact rooted

theorem Rooted.loadDrives (rooted : Rooted s) (rest : Bytes) : Rooted (loadDrives long env s rest) := by
  unfold HostFs.loadDrives
  split
  · exact rooted.loadMapfile _
  · exact rooted

theorem of_command {c : Prop} [Decidable c] {P : PcShell → Prop} {a s' : PcShell} {others : Option PcShell} (this : P a)
    (other : others = some s' → P s') (ran : (if c then some a else others) = some s') : P s' := by
  split at ran
  · exact Option.some.inj ran ▸ this
  · exact other ran

theorem Rooted.runCommand (rooted : Rooted s) (canonical : ∀ dir path, env.chdir dir = some path → Cwd path)
    {cmd rest : Bytes} (short : rest.length < pathMax) {s' : PcShell} (ran : runCommand long env s cmd rest = some s') :
    Rooted s' := by
  refine of_command (rooted.mountDrive short) ?_ ran
  refine of_command (rooted.saveDrives rest) ?_
  refine of_command (rooted.loadDrives rest) ?_
  refine of_command ⟨rooted.cwd, rooted.drive⟩ ?_
  refine of_command ⟨rooted.cwd, rooted.drive⟩ ?_
  refine of_command (rooted.chDir canonical rest) ?_
  intro ran
  split at ran
  · cases ran
  · exact Option.some.inj ran ▸ rooted

theorem Rooted.parseShell (rooted : Rooted s) (canonical : ∀ dir path, env.chdir dir = some path → Cwd path)
    {buf : Bytes} (short : buf.length < pathMax) {s' : PcShell} (ran : parseShell long env s buf = some s') :
    Rooted s' := by
  unfold HostFs.parseShell at ran
  dsimp only at ran
  split at ran
  · exact Option.some.inj ran ▸ rooted
  · split at ran
    · rename_i cmd found
      have length := strtok_length found
      have trimmed := length_trim_le buf
      exact rooted.runCommand canonical (by omega) ran
    · exact Option.some.inj ran ▸ rooted

theorem PcShell.Starts.rooted (starts : s.Starts) : Rooted s := by
  refine ⟨starts.cwd, ?_⟩
  obtain ⟨args, short, drives⟩ := starts.drives
  intro i _
  rw [drives, startDrives]
  split
  · rename_i arg found
    exact mountPath_cwd starts.cwd (short arg (List.mem_of_getElem? found))
  · exact starts.cwd

theorem rooted_of_reachable (reachable : (pcShell long).Reachable s) : Rooted s := by
  refine reachable.invariant (I := Rooted) (fun _ starts => PcShell.Starts.rooted starts) ?_
  intro s e s' rooted step
  cases e with
  | line env buf =>
      obtain ⟨short, canonical, ran⟩ := step
      exact rooted.parseShell canonical short ran
  | currdir drive path =>
      obtain rfl := step
      refine ⟨rooted.cwd, ?_⟩
      intro i bound
      show Cwd (Function.update s.drives drive _ i).rootdir
      rw [Function.update_apply]
      split
      · rename_i same
        exact same ▸ rooted.drive i bound
      · exact rooted.drive i bound

/-! ## The map file -/

/-- A name that a line of the map file can hold. -/
structure Saveable (root : Bytes) : Prop where
  nulFree : 0 ∉ root
  oneLine : 10 ∉ root
  ends : ∀ c ∈ root.getLast?, isSpace c = false
  short : root.length + 4 ≤ pathMax

theorem fgetsLoop_line {size fuel : Nat} {text : Bytes} (oneLine : 10 ∉ text) (short : text.length + 1 < size)
    (rest : Bytes) : fgetsLoop size (fuel + 1) (text ++ [10] ++ rest) = (text ++ [10]) :: fgetsLoop size fuel rest := by
  have whole : fgetsLen size (text ++ [10] ++ rest) = (text ++ [10]).length := by
    rw [fgetsLen, List.append_assoc, List.singleton_append, takeWhile_upto oneLine, List.length_append,
      List.length_singleton]
    omega
  rw [fgetsLoop, if_neg (by simp), whole, List.take_left, List.drop_left]

theorem fgetsLoop_lines {size : Nat} {lines : List Bytes} {fuel : Nat} (enough : lines.length ≤ fuel)
    (each : ∀ line ∈ lines, ∃ text, line = text ++ [10] ∧ 10 ∉ text ∧ text.length + 1 < size) :
    fgetsLoop size fuel lines.flatten = lines := by
  induction lines generalizing fuel with
  | nil => cases fuel <;> rfl
  | cons line lines ih =>
      obtain ⟨text, rfl, oneLine, short⟩ := each line List.mem_cons_self
      obtain ⟨fuel, rfl⟩ : ∃ n, fuel = n + 1 := ⟨fuel - 1, by simp at enough; omega⟩
      rw [List.flatten_cons, fgetsLoop_line oneLine short, ih (by simpa using enough)]
      intro other mem
      exact each other (List.mem_cons_of_mem _ mem)

theorem length_flatten_le {lines : List Bytes} (each : ∀ line ∈ lines, line ≠ []) :
    lines.length ≤ lines.flatten.length := by
  induction lines with
  | nil => rfl
  | cons line lines ih =>
      have positive := List.length_pos_iff.mpr (each line List.mem_cons_self)
      have rest := ih fun other mem => each other (List.mem_cons_of_mem _ mem)
      rw [List.flatten_cons, List.length_append, List.length_cons]
      omega

theorem fgetsAll_lines {size : Nat} {lines : List Bytes}
    (each : ∀ line ∈ lines, ∃ text, line = text ++ [10] ∧ 10 ∉ text ∧ text.length + 1 < size) :
    fgetsAll size lines.flatten = lines := by
  apply fgetsLoop_lines _ each
  apply length_flatten_le
  intro line mem
  obtain ⟨text, rfl, _⟩ := each line mem
  simp

def driveDigit (i : Nat) : UInt8 := UInt8.ofNat (48 + i)

theorem ascii_digit {i : Nat} (bound : i < maxHostdrives) : ascii (toString i) = [driveDigit i] := by
  have all : ∀ i : Fin maxHostdrives, ascii (toString i.val) = [driveDigit i.val] := by decide
  exact all ⟨i, bound⟩

/-- A digit is no white space, no sign and a number of its own. -/
structure Digit (d : UInt8) (n : Nat) : Prop where
  space : isSpace d = false
  digit : isDigit d = true
  start : Strtoul.isSpace d = false
  minus : d ≠ 45
  plus : d ≠ 43
  decimal : Strtoul.isDigit 10 d = true
  value : (Strtoul.digit d).getD 0 = n

theorem digit_drive {i : Nat} (bound : i < maxHostdrives) : Digit (driveDigit i) i := by
  have all : ∀ i : Fin maxHostdrives, isSpace (driveDigit i.val) = false ∧ isDigit (driveDigit i.val) = true ∧
      Strtoul.isSpace (driveDigit i.val) = false ∧ driveDigit i.val ≠ 45 ∧ driveDigit i.val ≠ 43 ∧
      Strtoul.isDigit 10 (driveDigit i.val) = true ∧ (Strtoul.digit (driveDigit i.val)).getD 0 = i.val := by decide
  obtain ⟨space, digit, start, minus, plus, decimal, value⟩ := all ⟨i, bound⟩
  exact ⟨space, digit, start, minus, plus, decimal, value⟩

theorem trim_line {d : UInt8} {root : Bytes} (digit : isSpace d = false) (some : root ≠ [])
    (ends : ∀ c ∈ root.getLast?, isSpace c = false) : trim (d :: 61 :: root ++ [10]) = d :: 61 :: root := by
  have right : (d :: 61 :: root ++ [10]).rdropWhile isSpace = d :: 61 :: root := by
    rw [List.rdropWhile_concat_pos _ _ _ (by decide), List.rdropWhile_eq_self_iff]
    intro nonempty
    rw [List.getLast_cons (by simp), List.getLast_cons some, ends _ (List.getLast?_eq_some_getLast some)]
    decide
  rw [trim, right, List.dropWhile_cons_of_neg (by simp [digit])]

theorem strtoulTo_digit {d : UInt8} {n : Nat} (digit : Digit d n) (small : n < 2 ^ long) (root : Bytes) :
    Strtoul.strtoulTo long 10 (d :: 61 :: root) = (BitVec.ofNat long n, 61 :: root) := by
  have start : (d :: 61 :: root).dropWhile Strtoul.isSpace = d :: 61 :: root :=
    List.dropWhile_cons_of_neg (by simp [digit.start])
  have unsigned : Strtoul.sign (d :: 61 :: root) = (false, d :: 61 :: root) := by
    unfold Strtoul.sign
    split
    · rename_i same
      exact absurd (List.cons.inj same).1 digit.minus
    · rename_i same
      exact absurd (List.cons.inj same).1 digit.plus
    · rfl
  have base : Strtoul.radix 10 (d :: 61 :: root) = (10, d :: 61 :: root) := by
    rw [Strtoul.radix, if_neg (by simp), if_neg (by decide)]
  have digits : (d :: 61 :: root).takeWhile (Strtoul.isDigit 10) = [d] := by
    rw [List.takeWhile_cons_of_pos digit.decimal, List.takeWhile_cons_of_neg (by decide)]
  have rest : (d :: 61 :: root).dropWhile (Strtoul.isDigit 10) = 61 :: root := by
    rw [List.dropWhile_cons_of_pos digit.decimal, List.dropWhile_cons_of_neg (by decide)]
  have value : Strtoul.value 10 [d] = n := by
    rw [Strtoul.value, List.foldl_cons, List.foldl_nil, digit.value]
    omega
  simp only [Strtoul.strtoulTo, start, unsigned, base, digits, rest, value]
  rw [if_neg (by simp), Strtoul.signedTo, if_neg (by omega), if_neg (by decide)]

theorem toInt32_small (wide : 32 ≤ long) {n : Nat} (small : n < maxHostdrives) : toInt32 long (BitVec.ofNat long n) = n := by
  rw [maxHostdrives] at small
  have power : 2 ^ 32 ≤ 2 ^ long := Nat.pow_le_pow_right (by decide) wide
  have value : ((BitVec.ofNat long n).setWidth 32).toNat = n := by
    rw [BitVec.toNat_setWidth, BitVec.toNat_ofNat, Nat.mod_eq_of_lt (a := n) (by omega), Nat.mod_eq_of_lt (by omega)]
  rw [toInt32, BitVec.toInt_eq_toNat_of_lt (by omega), value]

theorem mapLine_eq (drives : Nat → HostDrive) {i : Nat} (bound : i < maxHostdrives) :
    mapLine drives i = driveDigit i :: 61 :: (drives i).rootdir ++ [10] := by
  rw [mapLine, ascii_digit bound]
  rfl

theorem mapEntry_mapLine (wide : 32 ≤ long) {drives : Nat → HostDrive} {i : Nat} (bound : i < maxHostdrives)
    (absolute : (drives i).rootdir.head? = some slash) (saveable : Saveable (drives i).rootdir) :
    mapEntry long (mapLine drives i) = some ((i : Int), (drives i).rootdir) := by
  have digit := digit_drive bound
  have power : 2 ^ 32 ≤ 2 ^ long := Nat.pow_le_pow_right (by decide) wide
  rw [mapLine_eq drives bound]
  generalize driveDigit i = d at digit
  generalize (drives i).rootdir = root at absolute saveable
  have some : root ≠ [] := by
    rintro rfl
    cases absolute
  have notNul : d ≠ 0 := by
    rintro rfl
    exact absurd digit.digit (by decide)
  have text : (CStr.ofBytes (d :: 61 :: root ++ [10])).text = d :: 61 :: root ++ [10] := by
    apply takeWhile_whole
    simp [saveable.nulFree, notNul.symm]
  have head : root.head?.any isSpace = false := by
    rw [absolute]
    decide
  simp only [mapEntry, text, trim_line digit.space some saveable.ends]
  rw [if_pos (by simp [digit.digit]), strtoulTo_digit digit (by rw [maxHostdrives] at bound; omega),
    if_pos ⟨rfl, some, by simp [head]⟩, toInt32_small wide bound]
  rfl

theorem loadLine_mapLine (wide : 32 ≤ long) {drives : Nat → HostDrive} {i : Nat} (bound : i < maxHostdrives)
    (cwd : Cwd (drives i).rootdir) (saveable : Saveable (drives i).rootdir) (t : PcShell) :
    loadLine long env t (mapLine drives i) =
      if env.opendir (drives i).rootdir ∧ env.locked then
        { t with drives := Function.update t.drives i ⟨(drives i).rootdir, [slash]⟩ }
      else t := by
  have same : mountPath t.rootdir (drives i).rootdir = (drives i).rootdir := by
    rw [mountPath, if_pos cwd.absolute, cwd.normal]
  rw [loadLine, mapEntry_mapLine wide bound cwd.absolute saveable]
  dsimp only
  rw [addDrive, if_neg (by omega), same, Int.toNat_natCast]

/-- What loading the drives in `is` leaves of those of `t`. -/
def restored (env : PcEnv) (saved current : Nat → HostDrive) (is : List Nat) (i : Nat) : HostDrive :=
  if i ∈ is ∧ env.opendir (saved i).rootdir ∧ env.locked then ⟨(saved i).rootdir, [slash]⟩ else current i

theorem loadLines_mapLines (wide : 32 ≤ long) {drives : Nat → HostDrive} {is : List Nat}
    (each : ∀ i ∈ is, i < maxHostdrives ∧ Cwd (drives i).rootdir ∧ Saveable (drives i).rootdir) (t : PcShell) :
    (is.map (mapLine drives)).foldl (loadLine long env) t = { t with drives := restored env drives t.drives is } := by
  induction is generalizing t with
  | nil =>
      have same : restored env drives t.drives [] = t.drives := funext fun i => if_neg (by simp)
      rw [same]
      rfl
  | cons i is ih =>
      obtain ⟨bound, cwd, saveable⟩ := each i List.mem_cons_self
      rw [List.map_cons, List.foldl_cons, loadLine_mapLine wide bound cwd saveable,
        ih fun j mem => each j (List.mem_cons_of_mem _ mem)]
      by_cases opens : env.opendir (drives i).rootdir ∧ env.locked
      · have same : restored env drives (Function.update t.drives i ⟨(drives i).rootdir, [slash]⟩) is =
            restored env drives t.drives (i :: is) := by
          funext j
          rw [restored, restored, Function.update_apply]
          by_cases here : j = i
          · subst here
            simp [opens]
          · simp [here]
        rw [if_pos opens, same]
      · have same : restored env drives t.drives is = restored env drives t.drives (i :: is) := by
          funext j
          rw [restored, restored]
          by_cases here : j = i
          · subst here
            rw [if_neg fun bad => opens bad.2, if_neg fun bad => opens bad.2]
          · simp [here]
        rw [if_neg opens, same]

theorem mapText_eq (drives : Nat → HostDrive) : mapText drives = ((List.range maxHostdrives).map (mapLine drives)).flatten :=
  List.flatMap_def

theorem saveDrives_loadDrives {mapfile : Bytes} (named : mapfile ≠ []) (created : env.creates mapfile = true) (wide : 32 ≤ long)
    (reachable : (pcShell long).Reachable s) (saveable : ∀ i < maxHostdrives, Saveable (s.drives i).rootdir)
    {t : PcShell} (kept : t.files mapfile = (saveDrives env s mapfile).files mapfile) (env' : PcEnv) :
    loadDrives long env' t mapfile =
      { t with drives := restored env' s.drives t.drives (List.range maxHostdrives) } := by
  have rooted := rooted_of_reachable reachable
  have content : t.files mapfile = some (mapText s.drives) := by
    rw [kept, saveDrives, restOf, if_neg named]
    dsimp only
    rw [if_pos created]
    exact Function.update_self _ _ _
  have lines : fgetsAll pathMax (mapText s.drives) = (List.range maxHostdrives).map (mapLine s.drives) := by
    rw [mapText_eq]
    apply fgetsAll_lines
    intro line mem
    obtain ⟨i, drive, rfl⟩ := List.mem_map.mp mem
    have bound := List.mem_range.mp drive
    obtain ⟨_, oneLine, _, short⟩ := saveable i bound
    refine ⟨_, mapLine_eq s.drives bound, ?_, ?_⟩
    · have digit := (digit_drive bound).space
      intro mem
      rcases List.mem_cons.mp mem with same | mem
      · rw [← same] at digit
        exact absurd digit (by decide)
      · exact oneLine (by simpa using mem)
    · simp only [List.length_cons]
      omega
  rw [loadDrives, restOf, if_neg named]
  dsimp only
  rw [loadMapfile, content]
  dsimp only
  rw [lines]
  apply loadLines_mapLines wide
  intro i mem
  have bound := List.mem_range.mp mem
  exact ⟨bound, rooted.drive i bound, saveable i bound⟩

/-- Every directory opens and every file is created. -/
def openEnv : PcEnv := ⟨fun _ => true, true, fun _ => true, fun _ => none⟩

def homeShell : PcShell := ⟨startDrives (ascii "/home") [ascii "games"], ascii "/home", ⟨false, false⟩, fun _ => none⟩

def mountedShell : PcShell := mountDrive 64 openEnv homeShell (ascii "3 psp/../demos")

theorem mountedShell_reachable : (pcShell 64).Reachable mountedShell := by
  have start : (pcShell 64).Reachable homeShell :=
    .init ⟨⟨by decide +kernel, by decide⟩, [ascii "games"], by decide, rfl⟩
  have trimmed : trim (ascii " mount 3 psp/../demos") = ascii "mount 3 psp/../demos" := by decide
  have token : strtok blank (ascii "mount 3 psp/../demos") = some (ascii "mount", ascii "3 psp/../demos") := by decide
  have line : parseShell 64 openEnv homeShell (ascii " mount 3 psp/../demos") = some mountedShell := by
    simp only [parseShell, trimmed, token]
    rw [if_neg (by decide), runCommand, if_pos rfl, mountedShell]
  refine start.step (a := .line openEnv (ascii " mount 3 psp/../demos")) ⟨by decide, ?_, line⟩
  intro dir path changed
  cases changed

theorem mountedShell_saveable : ∀ i < maxHostdrives, Saveable (mountedShell.drives i).rootdir := by
  have all : ∀ i : Fin maxHostdrives, 0 ∉ (mountedShell.drives i).rootdir ∧ 10 ∉ (mountedShell.drives i).rootdir ∧
      (mountedShell.drives i).rootdir.getLast?.all (fun c => !isSpace c) ∧
      (mountedShell.drives i).rootdir.length + 4 ≤ pathMax := by decide +kernel
  intro i bound
  obtain ⟨nulFree, oneLine, ends, short⟩ := all ⟨i, bound⟩
  refine ⟨nulFree, oneLine, ?_, short⟩
  intro c last
  rw [Option.mem_def.mp last] at ends
  simpa using ends

theorem saveDrives_loadDrives_mounted : (mountedShell.drives 3).rootdir = ascii "/home/demos" ∧
    loadDrives 64 openEnv (saveDrives openEnv mountedShell (ascii "map")) (ascii "map") =
      { saveDrives openEnv mountedShell (ascii "map") with
        drives := restored openEnv mountedShell.drives (saveDrives openEnv mountedShell (ascii "map")).drives
          (List.range maxHostdrives) } :=
  ⟨by decide +kernel, saveDrives_loadDrives (by decide : ascii "map" ≠ []) (rfl : openEnv.creates (ascii "map") = true) (by decide)
    mountedShell_reachable mountedShell_saveable rfl openEnv⟩

end Psplink.HostFs
