import Psplink.Lib.Interference
import Psplink.Shell.ParseArgs
import Psplink.Shell.Script

/-!
# Lines and scripts

`shellParse` of psplink/shell.c with `scriptRun` of psplink/script.c, which it calls for the lines of a script that may run
scripts themselves, and the thread that gets the lines. The other commands are calls here, and so is what a command reads
of the shell.
-/

namespace Psplink.Shell.Interpreter
open Psplink.Lib Psplink.Lib.CStr Psplink.Util

/-! ## The commands -/

abbrev cmdOk : Int := 0
abbrev cmdError : Int := -1

/-- What an entry of the table has as its function. A heading has none. -/
inductive Func
  | heading
  | run
  | custom
  | tty
  | other
deriving DecidableEq

structure ShCommand where
  name : Bytes
  syn : Option Bytes
  func : Func
  minArgs : Nat
deriving DecidableEq

def entry (name : String) (syn : Option String) (func : Func) (minArgs : Nat) : ShCommand :=
  ⟨ascii name, syn.map ascii, func, minArgs⟩

def commands : List ShCommand :=
  [ entry "thread" none .heading 0,
    entry "thlist" (some "tl") .other 0,
    entry "thsllist" none .other 0,
    entry "thdelist" none .other 0,
    entry "thsulist" none .other 0,
    entry "thdolist" none .other 0,
    entry "thinfo" (some "ti") .other 1,
    entry "thsusp" (some "ts") .other 1,
    entry "thspuser" none .other 0,
    entry "thresm" (some "tr") .other 1,
    entry "thwake" (some "tw") .other 1,
    entry "thterm" (some "tt") .other 1,
    entry "thdel" (some "td") .other 1,
    entry "thtdel" (some "tx") .other 1,
    entry "thctx" (some "tt") .other 1,
    entry "thpri" (some "tp") .other 2,
    entry "evlist" (some "el") .other 0,
    entry "evinfo" (some "ei") .other 1,
    entry "smlist" (some "sl") .other 0,
    entry "sminfo" (some "si") .other 1,
    entry "mxlist" (some "xl") .other 0,
    entry "mxinfo" (some "xi") .other 1,
    entry "cblist" (some "cl") .other 0,
    entry "cbinfo" (some "ci") .other 1,
    entry "vtlist" (some "zl") .other 0,
    entry "vtinfo" (some "zi") .other 1,
    entry "vpllist" (some "vl") .other 0,
    entry "vplinfo" (some "vi") .other 1,
    entry "fpllist" (some "fl") .other 0,
    entry "fplinfo" (some "fi") .other 1,
    entry "mpplist" (some "pl") .other 0,
    entry "mppinfo" (some "pi") .other 1,
    entry "thevlist" (some "tel") .other 0,
    entry "thevinfo" (some "tei") .other 1,
    entry "thmon" (some "tm") .other 1,
    entry "thmonoff" none .other 0,
    entry "sysstat" none .other 0,
    entry "module" none .heading 0,
    entry "modlist" (some "ml") .other 0,
    entry "modinfo" (some "mi") .other 1,
    entry "modstop" (some "ms") .other 1,
    entry "modunld" (some "mu") .other 1,
    entry "modstun" (some "mn") .other 1,
    entry "modload" (some "md") .other 1,
    entry "modstart" (some "mt") .other 1,
    entry "modexec" (some "me") .other 1,
    entry "modaddr" (some "ma") .other 1,
    entry "exec" (some "e") .other 0,
    entry "ldstart" (some "ld") .other 1,
    entry "kill" (some "k") .other 1,
    entry "debug" (some "d") .other 1,
    entry "modexp" (some "mp") .other 1,
    entry "modimp" none .other 1,
    entry "modfindx" (some "mfx") .other 3,
    entry "apihook" none .other 4,
    entry "apihooks" none .other 4,
    entry "apihp" none .other 0,
    entry "apihd" none .other 1,
    entry "memory" none .heading 0,
    entry "meminfo" (some "mf") .other 0,
    entry "memreg" (some "mr") .other 0,
    entry "memdump" (some "dm") .other 0,
    entry "memblocks" (some "mk") .other 0,
    entry "savemem" (some "sm") .other 3,
    entry "loadmem" (some "lm") .other 2,
    entry "pokew" (some "pw") .other 2,
    entry "pokeh" (some "pw") .other 2,
    entry "pokeb" (some "pw") .other 2,
    entry "peekw" (some "kw") .other 1,
    entry "peekh" (some "kh") .other 1,
    entry "peekb" (some "kb") .other 1,
    entry "fillw" (some "fw") .other 3,
    entry "fillh" (some "fh") .other 3,
    entry "fillb" (some "fb") .other 3,
    entry "copymem" (some "cm") .other 3,
    entry "findstr" (some "ns") .other 3,
    entry "findhex" (some "nx") .other 3,
    entry "findw" (some "nw") .other 3,
    entry "findh" (some "nh") .other 3,
    entry "dcache" (some "dc") .other 1,
    entry "icache" (some "ic") .other 0,
    entry "disasm" (some "di") .other 1,
    entry "disopts" none .other 0,
    entry "disset" none .other 1,
    entry "disclear" none .other 1,
    entry "memprot" none .other 1,
    entry "fileio" none .heading 0,
    entry "ls" (some "dir") .other 0,
    entry "chdir" (some "cd") .other 1,
    entry "cp" (some "copy") .other 2,
    entry "mkdir" none .other 1,
    entry "rm" (some "del") .other 1,
    entry "rmdir" (some "rd") .other 1,
    entry "rename" (some "ren") .other 2,
    entry "remap" none .other 2,
    entry "pwd" none .other 0,
    entry "debugger" none .heading 0,
    entry "exprint" (some "ep") .other 0,
    entry "exlist" (some "el") .other 0,
    entry "exctx" (some "ec") .other 1,
    entry "exresume" (some "c") .other 0,
    entry "exprfpu" (some "ef") .other 0,
    entry "exprvfpu" (some "ev") .other 0,
    entry "setreg" (some "str") .other 2,
    entry "hwena" none .other 0,
    entry "hwregs" none .other 0,
    entry "hwbp" none .other 1,
    entry "bpset" (some "bp") .other 1,
    entry "bpprint" (some "bt") .other 0,
    entry "step" (some "s") .other 0,
    entry "skip" (some "k") .other 0,
    entry "symload" (some "syl") .other 1,
    entry "symlist" (some "syt") .other 0,
    entry "symprint" (some "syp") .other 1,
    entry "symbyaddr" (some "sya") .other 1,
    entry "symbyname" (some "syn") .other 1,
    entry "misc" none .heading 0,
    entry "usbmon" (some "umn") .other 0,
    entry "usbmoff" (some "umf") .other 0,
    entry "usbhon" (some "uhn") .other 0,
    entry "usbhoff" (some "uhf") .other 0,
    entry "usbstat" (some "us") .other 0,
    entry "uidlist" (some "ul") .other 0,
    entry "uidinfo" (some "ui") .other 1,
    entry "cop0" (some "c0") .other 0,
    entry "exit" (some "quit") .other 0,
    entry "set" none .other 0,
    entry "scrshot" (some "ss") .other 1,
    entry "run" none .run 1,
    entry "calc" none .other 1,
    entry "reset" (some "r") .other 0,
    entry "wifi" none .other 0,
    entry "wifishell" none .other 0,
    entry "ver" (some "v") .other 0,
    entry "pspver" none .other 0,
    entry "config" none .other 0,
    entry "confset" none .other 1,
    entry "confdel" none .other 1,
    entry "power" none .other 0,
    entry "poweroff" none .other 0,
    entry "clock" none .other 3,
    entry "tty" none .tty 0,
    entry "tonid" none .other 1,
    entry "profmode" none .other 0,
    entry "debugreg" none .other 0,
    entry "help" (some "?") .other 0,
    entry "custom" (some "cst") .custom 1]

def findCommand (cmd : Bytes) : Option ShCommand := commands.find? fun c => c.name = cmd ∨ c.syn = some cmd

/-- What stands from the last dot on. -/
def extension (cmd : Bytes) : Option Bytes :=
  if 46 ∈ cmd then some (46 :: (cmd.reverse.takeWhile (· ≠ 46)).reverse) else none

/-! ## Calls -/

abbrev argvSize : Nat := 16

/-- The arguments that a command gets. -/
structure Argv where
  list : List CStr
  few : list.length ≤ argvSize

inductive Message
  | errorParsing
  | notFound
  | unknown
  | usage
  | invalidFile
  | illegalCustom
  | output (path : Bytes)
  | customLine (cmd : CStr)
  | scriptLine (i : Nat) (line : CStr)
  | errorInLine (i : Nat)
  | errorInMessage

/-- `openfile` is the one of a `scriptRun` with these arguments; with the file comes what stands in `line` then.
`sceIoOpen` closes what it opens. -/
inductive ShellCall
  | ttymode
  | enterTty
  | leaveTty
  | ttyAddInputData (data : Bytes)
  | findShellVar (name : Bytes)
  | sceIoOpen (path : Bytes)
  | handlepath (file : CStr)
  | openfile (filename : CStr) (args : Option Argv)
  | fdgets (fd : Int)
  | closefile (fd : Int)
  | lastmod
  | conscmd (num : CStr)
  | command (c : ShCommand) (argv : List CStr)
  | printf (m : Message)
  | printPrompt
  | receiveMbx
  | reply (res : Int)

/-- A command during which an exception comes up does not return. -/
@[reducible] def ShellCall.Answer : ShellCall → Type
  | .ttymode | .sceIoOpen _ => Bool
  | .findShellVar _ | .handlepath _ | .conscmd _ | .receiveMbx => Option CStr
  | .openfile .. => Option (Int × Bytes)
  | .fdgets _ => Bytes
  | .lastmod => CStr
  | .command .. => Option Int
  | _ => Unit

abbrev Cmd := Prog ShellCall ShellCall.Answer

/-- A line returns, an exception goes back to the thread, or there is more to do than there is fuel. -/
inductive Ran
  | ret (res : Int)
  | jumped
  | more

/-! ## Lines -/

def run : ShCommand := entry "run" none .run 1
def ldstart : ShCommand := entry "ldstart" (some "ld") .other 1

/-- In the directories of the path. -/
def findinpath (relative : CStr) : List Bytes → Cmd (Option CStr)
  | [] => return none
  | dir :: dirs => do
      if dir = [] then findinpath relative dirs
      else
        let output := dir ++ 47 :: relative.text
        Prog.call (ShellCall.printf (.output output))
        let found ← Prog.call (ShellCall.sceIoOpen output)
        if found then return some (ofBytes output) else findinpath relative dirs

def failed (m : Message) : Cmd Ran := do
  Prog.call (ShellCall.printf m)
  return .ret cmdError

theorem run_argv {maxArgs fuel : Nat} {s s' : ParseState} (ran : s.run maxArgs fuel = some s')
    (few : s.argv.length ≤ maxArgs) : s'.argv.length ≤ maxArgs := by
  induction fuel generalizing s with
  | zero =>
      cases ran
      exact few
  | succ fuel ih =>
      rw [ParseState.run] at ran
      split at ran
      · cases ran
        exact few
      · next goes =>
          obtain ⟨s₁, turned, ran⟩ := Option.bind_eq_some_iff.mp ran
          refine ih ran ?_
          rcases (ParseState.grows_turn turned).argv with same | opened
          · exact same ▸ few
          · rw [opened, List.length_append]
            exact not_le.mp fun full => goes (.inr full)

theorem dropEmpty_length (args : List CStr) : (dropEmpty args).length ≤ args.length := by
  unfold dropEmpty
  split
  · exact (List.dropLast_sublist args).length_le
  · exact le_rfl

theorem parseArgs_length {maxArgs : Nat} {cmd : CStr} {args : List CStr} (parsed : parseArgs maxArgs cmd = some args) :
    args.length ≤ maxArgs := by
  unfold parseArgs at parsed
  dsimp only at parsed
  split at parsed
  · cases parsed
  split at parsed
  · cases parsed
    exact Nat.zero_le _
  · next some_ _ =>
      obtain ⟨s, ran, same⟩ := Option.bind_eq_some_iff.mp parsed
      split at same
      · cases same
        exact (dropEmpty_length s.args).trans ((List.length_map _).le.trans (run_argv ran (Nat.pos_of_ne_zero some_)))
      · cases same

section
variable (scriptRun : CStr → Option Argv → Cmd Ran) (parse : CStr → Cmd Ran)

def runCmd (argv : Argv) : Cmd Ran := do
  match ← Prog.call (ShellCall.handlepath (argv.list.headD .empty)) with
  | none => failed .invalidFile
  | some path => scriptRun path (some argv)

def customCmd (argv : Argv) : Cmd Ran := do
  match ← Prog.call (ShellCall.conscmd (argv.list.headD .empty)) with
  | none =>
      Prog.call (ShellCall.printf .illegalCustom)
      return .ret cmdOk
  | some cmd =>
      if cmd.text = [] then return .ret cmdOk
      Prog.call (ShellCall.printf (.customLine cmd))
      match ← parse cmd with
      | .ret res =>
          Prog.call ShellCall.printPrompt
          return .ret res
      | ran => return ran

def command (c : ShCommand) (argv : List CStr) : Cmd Ran := do
  match ← Prog.call (ShellCall.command c argv) with
  | some res => return .ret res
  | none => return .jumped

/-- The function of an entry. -/
def func (c : ShCommand) (argv : Argv) : Cmd Ran :=
  match c.func with
  | .run => runCmd scriptRun argv
  | .custom => customCmd parse argv
  | .tty => do
      Prog.call ShellCall.enterTty
      return .ret cmdOk
  | _ => command c argv.list

def usage (c : ShCommand) (argv : Argv) : Cmd Ran := do
  if argv.list.length < c.minArgs then
    Prog.call (ShellCall.printf .usage)
    return .ret cmdOk
  match ← func scriptRun parse c argv with
  | .ret res =>
      if res = cmdError then Prog.call (ShellCall.printf .usage)
      return .ret res
  | ran => return ran

/-- A file: it is a script, or it is loaded. -/
def execute (ext : Bytes) (argv : Argv) : Cmd Ran :=
  if ext = ascii ".sh" ∨ ext = ascii ".SH" then runCmd scriptRun argv else command ldstart argv.list

def words (cmd : CStr) (args : List CStr) (few : (cmd :: args).length ≤ argvSize) : Cmd Ran := do
  if cmd.text.head? = some 35 then return .ret cmdOk
  match extension cmd.text with
  | some ext =>
      if 47 ∈ cmd.text then execute scriptRun ext ⟨cmd :: args, few⟩
      else
        let pathvar ← Prog.call (ShellCall.findShellVar (ascii "path"))
        match ← findinpath cmd (pathvar.elim [] fun path => path.text.splitOn 59) with
        | none => failed .notFound
        | some path => execute scriptRun ext ⟨path :: args, few⟩
  | none =>
      match findCommand cmd.text with
      | none => failed .unknown
      | some c =>
          if c.func = .heading then failed .unknown
          else usage scriptRun parse c ⟨args, (Nat.le_succ _).trans few⟩

def line (command : CStr) : Cmd Ran := do
  if ← Prog.call ShellCall.ttymode then
    if ascii "~." <+: command.text then Prog.call ShellCall.leaveTty
    else Prog.call (ShellCall.ttyAddInputData command.text)
    return .ret cmdOk
  match parsed : parseArgs argvSize command with
  | none => failed .errorParsing
  | some [] => return .ret cmdOk
  | some (cmd :: args) => words scriptRun parse cmd args (parseArgs_length parsed)

end

/-! ## Scripts -/

/-- `strip_whitesp` on the string in a buffer. -/
def stripInPlace (buf : Bytes) : Bytes :=
  let text := (ofBytes buf).text
  let kept := text.rdropWhile isAspace
  let trimmed := kept ++ List.replicate (text.length - kept.length) 0 ++ buf.drop text.length
  (kept.dropWhile isAspace) ++ 0 :: trimmed.drop ((kept.dropWhile isAspace).length + 1)

/-- What the arguments of a script and the last module are for its lines. -/
def scriptArgs (args : Option Argv) (lastmod : Option CStr) : ScriptArgs where
  argv := args.map Argv.list
  counted := by
    cases args with
    | none => exact Nat.two_pow_pos 31
    | some args => exact args.few.trans_lt (by decide)
  lastmod := lastmod

/-- The pointer to the last module: a script that `run_cmd` does not run has none. -/
def lastmodOf : Option Argv → Cmd (Option CStr)
  | none => return none
  | some _ => do
      let name ← Prog.call ShellCall.lastmod
      return some name

section
variable (parse : CStr → Cmd Ran)

/-- A line of a script and the lines after it. -/
def scriptLine (i : Nat) (line : CStr) (next : Cmd Ran) : Cmd Ran := do
  match ← parse line with
  | .ret res =>
      if res = cmdOk then next
      else
        Prog.call (ShellCall.printf (.errorInLine i))
        return .ret res
  | ran => return ran

/-- The loop of `scriptRun`, in which `buf` is `line`. -/
def scriptLines (fd : Int) (args : Option Argv) : (turns : Nat) → (buf : Bytes) → (print : Bool) → (i : Nat) → Cmd Ran
  | 0, _, _, _ => return .more
  | turns + 1, buf, print, i => do
      let data ← Prog.call (ShellCall.fdgets fd)
      if data = [] then return .ret cmdOk
      let buf := stripInPlace (data ++ 0 :: buf.drop (data.length + 1))
      if (ofBytes buf).text = ascii "echo on" then scriptLines fd args turns buf true (i + 1)
      else if (ofBytes buf).text = ascii "echo off" then scriptLines fd args turns buf false (i + 1)
      else
        let lastmod ← lastmodOf args
        let buf := (processArguments (scriptArgs args lastmod) buf).1
        if print then Prog.call (ShellCall.printf (.scriptLine (i + 1) (ofBytes buf)))
        scriptLine parse (i + 1) (ofBytes buf) (scriptLines fd args turns buf print (i + 1))

def scriptRun (turns : Nat) (filename : CStr) (args : Option Argv) : Cmd Ran := do
  match ← Prog.call (ShellCall.openfile filename args) with
  | none => return .ret cmdOk
  | some (fd, buf) =>
      match ← scriptLines parse fd args turns buf false 0 with
      | .ret res =>
          Prog.call (ShellCall.closefile fd)
          return .ret res
      | ran => return ran

end

/-- Lines run lines to a depth of `fuel`, and a script has as many at most. -/
def shellParse : (fuel : Nat) → CStr → Cmd Ran
  | 0, _ => return .more
  | fuel + 1, command => line (scriptRun (shellParse fuel) fuel) (shellParse fuel) command

/-! ## The thread -/

inductive Thread
  | starting (startsh : Option CStr)
  | waiting
  | exited
  /-- An exception in the first script has nowhere to go back to, or the fuel is used up. -/
  | gone

/-- From one `sceKernelReceiveMbx` to the next. -/
def shellParseThread (fuel : Nat) : Thread → Cmd Thread
  | .starting none => return .waiting
  | .starting (some startsh) => do
      match ← scriptRun (shellParse fuel) fuel startsh none with
      | .ret _ => return .waiting
      | _ => return .gone
  | .waiting => do
      match ← Prog.call ShellCall.receiveMbx with
      | none =>
          Prog.call (ShellCall.printf .errorInMessage)
          return .exited
      | some command =>
          match ← shellParse fuel command with
          | .ret res =>
              Prog.call (ShellCall.reply res)
              Prog.call ShellCall.printPrompt
              return .waiting
          | .jumped =>
              Prog.call (ShellCall.reply cmdError)
              Prog.call ShellCall.printPrompt
              return .waiting
          | .more => return .gone
  | .exited => return .exited
  | .gone => return .gone

/-! ## What is run -/

/-- A script that is being read: what has been read last of it, and the module that was the last one then. -/
structure OpenScript where
  fd : Int
  args : Option Argv
  lastmod : Option CStr
  data : Bytes

/-- What a line has come from that a command has the shell run. -/
inductive Origin
  | script (s : OpenScript)
  | custom (cmd : CStr)

/-- `nested` has the innermost first, and `abandoned` what exceptions have left open. -/
structure ShellWorld where
  ttymode : Bool
  typed : CStr
  nested : List Origin
  outcome : Int
  abandoned : List Origin

/-- The line of the script has its arguments put in; a dollar at its end takes what remains in the buffer. -/
def OpenScript.Reads (s : OpenScript) (text : CStr) : Prop :=
  ∃ remains, text = ofBytes (processArguments (scriptArgs s.args s.lastmod)
    (stripWhitesp (ofBytes s.data).text ++ 0 :: remains)).1

/-- The line that is being run. -/
def ShellWorld.Parses (w : ShellWorld) (text : CStr) : Prop :=
  match w.nested with
  | [] => text = w.typed
  | .script s :: _ => s.Reads text
  | .custom cmd :: _ => text = cmd

/-- What the words of a line call, with which arguments. -/
inductive Names : List CStr → ShCommand → List CStr → Prop
  | command {cmd : CStr} {args : List CStr} {c : ShCommand} (plain : 46 ∉ cmd.text) (found : findCommand cmd.text = some c)
      (enough : c.minArgs ≤ args.length) : Names (cmd :: args) c args
  | file {cmd path : CStr} {args : List CStr} {ext : Bytes} (dot : extension cmd.text = some ext)
      (there : 47 ∈ cmd.text → path = cmd) :
      Names (cmd :: args) (if ext = ascii ".sh" ∨ ext = ascii ".SH" then run else ldstart) (path :: args)

/-- The line calls the command, and no command before it has failed. -/
structure ShellWorld.Calls (w : ShellWorld) (c : ShCommand) (argv : List CStr) : Prop where
  ttymode : w.ttymode = false
  outcome : w.outcome = cmdOk
  line : ∃ text cmd args, w.Parses text ∧ parseArgs argvSize text = some (cmd :: args) ∧ cmd.text.head? ≠ some 35 ∧
    Names (cmd :: args) c argv

/-- The innermost is a script, which reads this file. -/
def ShellWorld.Reading (w : ShellWorld) (fd : Int) : Prop :=
  ∃ s rest, w.nested = .script s :: rest ∧ s.fd = fd

def shellRules (w : ShellWorld) : ShellCall → Prop
  | .enterTty => ∃ c argv, w.Calls c argv ∧ c.func = .tty
  | .leaveTty => w.ttymode = true ∧ w.outcome = cmdOk ∧ ∃ text, w.Parses text ∧ ascii "~." <+: text.text
  | .ttyAddInputData data =>
      w.ttymode = true ∧ w.outcome = cmdOk ∧ ∃ text, w.Parses text ∧ data = text.text ∧ ¬ ascii "~." <+: data
  | .openfile _ (some args) => ∃ c, w.Calls c args.list ∧ c.func = .run
  | .openfile _ none => w.nested = []
  | .fdgets fd => w.outcome = cmdOk ∧ w.Reading fd
  | .closefile fd => w.Reading fd
  | .conscmd num => ∃ c argv, w.Calls c argv ∧ c.func = .custom ∧ num = argv.headD .empty
  | .command c argv => w.Calls c argv ∧ c.func = .other
  | .printf (.errorInLine _) => w.outcome ≠ cmdOk
  | .receiveMbx => w.nested = []
  | .reply res => res = w.outcome ∧ w.nested = []
  | _ => True

/-- What a message says about the line. -/
def Message.outcome (outcome : Int) : Message → Int
  | .errorParsing | .notFound | .unknown | .invalidFile => cmdError
  | _ => outcome

def ShellWorld.onScript (w : ShellWorld) (f : OpenScript → OpenScript) : ShellWorld :=
  match w.nested with
  | .script s :: rest => { w with nested := .script (f s) :: rest }
  | _ => w

/-- `print_prompt` ends a custom command. -/
def ShellWorld.prompt (w : ShellWorld) : ShellWorld :=
  match w.nested with
  | .custom _ :: rest => { w with nested := rest }
  | _ => w

def shellPost (w : ShellWorld) : (q : ShellCall) → q.Answer → ShellWorld → Prop
  | .ttymode, a, w' => w' = w ∧ a = w.ttymode
  | .enterTty, _, w' => w' = { w with ttymode := true }
  | .leaveTty, _, w' => w' = { w with ttymode := false }
  | .openfile _ args, a, w' =>
      w' = match a with
        | none => w
        | some (fd, _) => { w with nested := .script ⟨fd, args, none, []⟩ :: w.nested }
  | .fdgets _, data, w' => w' = w.onScript fun s => { s with data }
  | .closefile _, _, w' => w' = { w with nested := w.nested.tail }
  | .lastmod, name, w' => w' = w.onScript fun s => { s with lastmod := some name }
  | .conscmd _, a, w' =>
      w' = match a with
        | none => w
        | some cmd => if cmd.text = [] then w else { w with nested := .custom cmd :: w.nested }
  | .command .., a, w' =>
      w' = match a with
        | some res => { w with outcome := res }
        | none => { w with nested := [], outcome := cmdError, abandoned := w.nested ++ w.abandoned }
  | .printf m, _, w' => w' = { w with outcome := m.outcome w.outcome }
  | .printPrompt, _, w' => w' = w.prompt
  | .receiveMbx, a, w' =>
      w' = match a with
        | none => w
        | some command => { w with typed := command, outcome := cmdOk }
  | _, _, w' => w' = w

def psplinkShell : Prog.Contract ShellCall ShellCall.Answer ShellWorld where
  pre := shellRules
  post := shellPost

/-- After a line or a script that was run in `w`. -/
def Ended (w : ShellWorld) : Ran → ShellWorld → Prop
  | .ret res, w' => w'.nested = w.nested ∧ w'.outcome = res
  | .jumped, w' => w'.nested = [] ∧ w'.outcome = cmdError
  | .more, _ => True

section
variable {α : Type} {R : α → ShellWorld → Prop} {w : ShellWorld}

theorem wp_call {q : ShellCall} {f : q.Answer → Cmd α} (allowed : shellRules w q)
    (next : ∀ a w', shellPost w q a w' → (f a).wp psplinkShell R w') : (Prog.call q >>= f).wp psplinkShell R w :=
  ⟨allowed, next⟩

theorem wp_failed {m : Message} (allowed : shellRules w (.printf m)) (fails : m.outcome w.outcome = cmdError) :
    (failed m).wp psplinkShell (Ended w) w := by
  refine wp_call allowed ?_
  rintro _ w' rfl
  exact ⟨rfl, fails⟩

theorem wp_findinpath (relative : CStr) (dirs : List Bytes) :
    (findinpath relative dirs).wp psplinkShell (fun _ w' => w' = w) w := by
  induction dirs with
  | nil => rfl
  | cons dir dirs ih =>
      unfold findinpath
      split
      · exact ih
      · refine wp_call trivial ?_
        rintro _ _ rfl
        refine wp_call trivial ?_
        rintro found _ rfl
        exact Prog.wp_ite (fun _ => rfl) fun _ => ih

end

/-! ### Commands -/

section
variable {scriptRun : CStr → Option Argv → Cmd Ran} {parse : CStr → Cmd Ran} {w : ShellWorld} {c : ShCommand} {argv : Argv}

/-- A script that may be run leaves what it should. -/
def ScriptsEnd (scriptRun : CStr → Option Argv → Cmd Ran) : Prop :=
  ∀ w filename args, shellRules w (.openfile filename args) → w.outcome = cmdOk →
    (scriptRun filename args).wp psplinkShell (Ended w) w

def LinesEnd (parse : CStr → Cmd Ran) : Prop :=
  ∀ w text, w.Parses text → w.outcome = cmdOk → (parse text).wp psplinkShell (Ended w) w

theorem wp_runCmd (scripts : ScriptsEnd scriptRun) (calls : w.Calls c argv.list) (same : c.func = .run) :
    (runCmd scriptRun argv).wp psplinkShell (Ended w) w := by
  refine wp_call trivial ?_
  rintro path w' rfl
  cases path with
  | none => exact wp_failed trivial rfl
  | some path => exact scripts w' path (some argv) ⟨c, calls, same⟩ calls.outcome

theorem wp_customCmd (lines : LinesEnd parse) (calls : w.Calls c argv.list) (same : c.func = .custom) :
    (customCmd parse argv).wp psplinkShell (Ended w) w := by
  refine wp_call ⟨c, argv.list, calls, same, rfl⟩ ?_
  rintro cmd w' rfl
  cases cmd with
  | none =>
      refine wp_call trivial ?_
      rintro _ _ rfl
      exact ⟨rfl, calls.outcome⟩
  | some cmd =>
      dsimp only
      split
      · exact ⟨rfl, calls.outcome⟩
      · refine wp_call trivial ?_
        rintro _ _ rfl
        refine (Prog.wp_bind _ _ _ _).2 (Prog.wp_mono ?_ (lines _ cmd rfl calls.outcome))
        intro ran w' ended
        cases ran with
        | ret res =>
            refine wp_call trivial ?_
            rintro _ _ rfl
            rw [ShellWorld.prompt, ended.1]
            exact ⟨rfl, ended.2⟩
        | jumped => exact ended
        | more => exact ended

theorem wp_command {argv : List CStr} (calls : w.Calls c argv) (same : c.func = .other) :
    (command c argv).wp psplinkShell (Ended w) w := by
  refine wp_call ⟨calls, same⟩ ?_
  rintro res w' rfl
  cases res with
  | none => exact ⟨rfl, rfl⟩
  | some res => exact ⟨rfl, rfl⟩

theorem wp_func (scripts : ScriptsEnd scriptRun) (lines : LinesEnd parse) (calls : w.Calls c argv.list)
    (function : c.func ≠ .heading) : (func scriptRun parse c argv).wp psplinkShell (Ended w) w := by
  unfold func
  cases same : c.func with
  | heading => exact absurd same function
  | run => exact wp_runCmd scripts calls same
  | custom => exact wp_customCmd lines calls same
  | tty =>
      refine wp_call ⟨c, argv.list, calls, same⟩ ?_
      rintro _ _ rfl
      exact ⟨rfl, calls.outcome⟩
  | other => exact wp_command calls same

theorem wp_usage (scripts : ScriptsEnd scriptRun) (lines : LinesEnd parse) (ok : w.outcome = cmdOk)
    (calls : c.minArgs ≤ argv.list.length → w.Calls c argv.list) (function : c.func ≠ .heading) :
    (usage scriptRun parse c argv).wp psplinkShell (Ended w) w := by
  unfold usage
  refine Prog.wp_ite (fun few => ?_) fun enough => ?_
  · refine wp_call trivial ?_
    rintro _ _ rfl
    exact ⟨rfl, ok⟩
  · refine (Prog.wp_bind _ _ _ _).2 (Prog.wp_mono ?_ (wp_func scripts lines (calls (not_lt.mp enough)) function))
    intro ran w' ended
    cases ran with
    | ret res =>
        dsimp only
        split
        · refine wp_call trivial ?_
          rintro _ _ rfl
          exact ended
        · exact ended
    | jumped => exact ended
    | more => exact ended

theorem wp_execute (scripts : ScriptsEnd scriptRun) {ext : Bytes}
    (calls : w.Calls (if ext = ascii ".sh" ∨ ext = ascii ".SH" then run else ldstart) argv.list) :
    (execute scriptRun ext argv).wp psplinkShell (Ended w) w := by
  unfold execute
  split
  · next sh =>
      rw [if_pos sh] at calls
      exact wp_runCmd scripts calls rfl
  · next sh =>
      rw [if_neg sh] at calls
      exact wp_command calls rfl

theorem extension_eq_none {cmd : Bytes} : extension cmd = none ↔ 46 ∉ cmd := by
  unfold extension
  split <;> simp_all

theorem wp_words (scripts : ScriptsEnd scriptRun) (lines : LinesEnd parse) (off : w.ttymode = false) (ok : w.outcome = cmdOk)
    {text cmd : CStr} {args : List CStr} (parses : w.Parses text) (parsed : parseArgs argvSize text = some (cmd :: args))
    (few : (cmd :: args).length ≤ argvSize) : (words scriptRun parse cmd args few).wp psplinkShell (Ended w) w := by
  unfold words
  refine Prog.wp_ite (fun _ => ⟨rfl, ok⟩) fun command => ?_
  have calls : ∀ {c argv}, Names (cmd :: args) c argv → w.Calls c argv :=
    fun names => ⟨off, ok, text, cmd, args, parses, parsed, command, names⟩
  cases dot : extension cmd.text with
  | some ext =>
      refine Prog.wp_ite (fun _ => wp_execute scripts (calls (.file dot fun _ => rfl))) fun relative => ?_
      refine wp_call trivial ?_
      rintro pathvar w' rfl
      refine (Prog.wp_bind _ _ _ _).2 (Prog.wp_mono ?_ (wp_findinpath cmd _))
      rintro path w' rfl
      cases path with
      | none => exact wp_failed trivial rfl
      | some path => exact wp_execute scripts (calls (.file dot fun slash => absurd slash relative))
  | none =>
      dsimp only
      cases found : findCommand cmd.text with
      | none => exact wp_failed trivial rfl
      | some c =>
          dsimp only
          split
          · exact wp_failed trivial rfl
          · next function =>
              exact wp_usage scripts lines ok
                (fun enough => calls (.command (extension_eq_none.mp dot) found enough)) function

theorem wp_line (scripts : ScriptsEnd scriptRun) (lines : LinesEnd parse) {text : CStr} (parses : w.Parses text)
    (ok : w.outcome = cmdOk) : (line scriptRun parse text).wp psplinkShell (Ended w) w := by
  refine wp_call trivial ?_
  rintro tty w' ⟨rfl, rfl⟩
  cases on : w'.ttymode with
  | true =>
      refine Prog.wp_ite (fun _ => ?_) fun off => absurd rfl off
      dsimp only
      split
      · next leaves =>
          refine wp_call ⟨on, ok, text, parses, leaves⟩ ?_
          rintro _ _ rfl
          exact ⟨rfl, ok⟩
      · next data =>
          refine wp_call ⟨on, ok, text, parses, rfl, data⟩ ?_
          rintro _ _ rfl
          exact ⟨rfl, ok⟩
  | false =>
      refine Prog.wp_ite (fun off => by contradiction) fun _ => ?_
      split
      · exact wp_failed trivial rfl
      · exact ⟨rfl, ok⟩
      · next cmd args parsed => exact wp_words scripts lines on ok parses parsed _

end

/-! ### Scripts -/

theorem stripInPlace_bytes (data rest : Bytes) :
    ∃ remains, stripInPlace (data ++ 0 :: rest) = stripWhitesp (ofBytes data).text ++ 0 :: remains := by
  have text : (ofBytes (data ++ 0 :: rest)).text = (ofBytes data).text := by
    change (data ++ 0 :: rest).takeWhile (· ≠ 0) = data.takeWhile (· ≠ 0)
    rw [List.takeWhile_append]
    split
    · next whole =>
        rw [List.takeWhile_cons_of_neg (by decide), List.append_nil]
        exact ((List.takeWhile_prefix _).eq_of_length whole).symm
    · rfl
  unfold stripInPlace stripWhitesp
  rw [text]
  exact ⟨_, rfl⟩

section
variable {parse : CStr → Cmd Ran} {w : ShellWorld} {s : OpenScript} {rest : List Origin}

theorem wp_lastmodOf (top : w.nested = .script s :: rest) (startup : s.args = none → s.lastmod = none) :
    (lastmodOf s.args).wp psplinkShell (fun lastmod w' =>
      w' = { w with nested := .script { s with lastmod } :: rest } ∧ (s.args = none → lastmod = none)) w := by
  obtain ⟨fd, args, lastmod, data⟩ := s
  cases args with
  | none =>
      cases startup rfl
      exact ⟨by rw [← top], fun _ => rfl⟩
  | some args =>
      refine wp_call trivial ?_
      rintro name _ rfl
      refine ⟨?_, fun absurd => by contradiction⟩
      rw [ShellWorld.onScript, top]

/-- After the loop the script is still the innermost. -/
def LinesRan (fd : Int) (rest : List Origin) : Ran → ShellWorld → Prop
  | .ret res, w' => (∃ s, w'.nested = .script s :: rest ∧ s.fd = fd) ∧ w'.outcome = res
  | .jumped, w' => w'.nested = [] ∧ w'.outcome = cmdError
  | .more, _ => True

theorem wp_scriptLine (lines : LinesEnd parse) (top : w.nested = .script s :: rest) (ok : w.outcome = cmdOk) {i : Nat}
    {line : CStr} {next : Cmd Ran} (reads : s.Reads line)
    (more : ∀ w : ShellWorld, w.nested = .script s :: rest → w.outcome = cmdOk → next.wp psplinkShell (LinesRan s.fd rest) w) :
    (scriptLine parse i line next).wp psplinkShell (LinesRan s.fd rest) w := by
  have parses : w.Parses line := by
    rw [ShellWorld.Parses, top]
    exact reads
  refine (Prog.wp_bind _ _ _ _).2 (Prog.wp_mono ?_ (lines w line parses ok))
  intro ran w' ended
  cases ran with
  | ret res =>
      refine Prog.wp_ite (fun good => more w' (ended.1.trans top) (ended.2.trans good)) fun bad => ?_
      refine wp_call (fun good => bad (ended.2.symm.trans good)) ?_
      rintro _ _ rfl
      exact ⟨⟨s, ended.1.trans top, rfl⟩, ended.2⟩
  | jumped => exact ended
  | more => trivial

theorem wp_scriptLines (lines : LinesEnd parse) (top : w.nested = .script s :: rest) (ok : w.outcome = cmdOk)
    (startup : s.args = none → s.lastmod = none) (turns : Nat) (buf : Bytes) (print : Bool) (i : Nat) :
    (scriptLines parse s.fd s.args turns buf print i).wp psplinkShell (LinesRan s.fd rest) w := by
  induction turns generalizing w s buf print i with
  | zero => trivial
  | succ turns ih =>
      refine wp_call ⟨ok, s, rest, top, rfl⟩ ?_
      rintro data w₁ read
      have top₁ : w₁ = { w with nested := .script { s with data } :: rest } := by
        rw [read, ShellWorld.onScript, top]
      subst top₁
      dsimp only
      split
      · exact ⟨⟨_, rfl, rfl⟩, ok⟩
      obtain ⟨remains, stripped⟩ := stripInPlace_bytes data (buf.drop (data.length + 1))
      rw [stripped]
      have again := @ih { w with nested := .script { s with data } :: rest } { s with data } rfl ok startup
      refine Prog.wp_ite (fun _ => again _ _ _) fun _ => ?_
      refine Prog.wp_ite (fun _ => again _ _ _) fun _ => ?_
      refine (Prog.wp_bind _ _ _ _).2 (Prog.wp_mono ?_ (@wp_lastmodOf _ { s with data } rest rfl startup))
      rintro lastmod w₂ ⟨rfl, startup'⟩
      have reads : ({ s with lastmod, data } : OpenScript).Reads (ofBytes (processArguments (scriptArgs s.args lastmod)
          (stripWhitesp (ofBytes data).text ++ 0 :: remains)).1) := ⟨remains, rfl⟩
      dsimp only
      generalize (processArguments (scriptArgs s.args lastmod) (stripWhitesp (ofBytes data).text ++ 0 :: remains)).1 = buf
        at reads ⊢
      have goes := @wp_scriptLine parse { w with nested := .script { s with lastmod, data } :: rest } { s with lastmod, data }
        rest lines rfl ok (i + 1) (ofBytes buf) (scriptLines parse s.fd s.args turns buf print (i + 1)) reads
        fun w' nested ok => @ih w' { s with lastmod, data } nested ok startup' buf print (i + 1)
      split
      · refine wp_call trivial ?_
        rintro _ _ rfl
        exact goes
      · exact goes

theorem wp_scriptRun (lines : LinesEnd parse) (turns : Nat) : ScriptsEnd (scriptRun parse turns) := by
  intro w filename args allowed ok
  refine wp_call allowed ?_
  rintro opened _ rfl
  cases opened with
  | none => exact ⟨rfl, ok⟩
  | some opened =>
      obtain ⟨fd, buf⟩ := opened
      have loop := @wp_scriptLines parse { w with nested := .script ⟨fd, args, none, []⟩ :: w.nested } ⟨fd, args, none, []⟩
        w.nested lines rfl ok (fun _ => rfl) turns buf false 0
      refine (Prog.wp_bind _ _ _ _).2 (Prog.wp_mono ?_ loop)
      intro ran w' ended
      cases ran with
      | ret res =>
          obtain ⟨⟨s, nested, same⟩, outcome⟩ := ended
          refine wp_call ⟨s, w.nested, nested, same⟩ ?_
          rintro _ _ rfl
          refine ⟨?_, outcome⟩
          rw [nested]
          rfl
      | jumped => exact ended
      | more => exact ended

end

theorem wp_shellParse (fuel : Nat) : LinesEnd (shellParse fuel) := by
  induction fuel with
  | zero => exact fun _ _ _ _ => trivial
  | succ fuel ih => exact fun w text parses ok => wp_line (wp_scriptRun ih fuel) ih parses ok

/-! ## The thread -/

/-- Between two messages nothing is being run. -/
def ThreadInv : Thread → ShellWorld → Prop
  | .starting _, w => w.nested = [] ∧ w.outcome = cmdOk
  | .waiting, w => w.nested = []
  | _, _ => True

theorem wp_shellParseThread (fuel : Nat) {t : Thread} {w : ShellWorld} (inv : ThreadInv t w) :
    (shellParseThread fuel t).wp psplinkShell ThreadInv w := by
  cases t with
  | starting startsh =>
      cases startsh with
      | none => exact inv.1
      | some startsh =>
          refine (Prog.wp_bind _ _ _ _).2 (Prog.wp_mono ?_ (wp_scriptRun (wp_shellParse fuel) fuel w startsh none inv.1 inv.2))
          intro ran w' ended
          cases ran with
          | ret res => exact ended.1.trans inv.1
          | jumped => trivial
          | more => trivial
  | waiting =>
      refine wp_call inv ?_
      rintro command _ rfl
      cases command with
      | none =>
          refine wp_call trivial ?_
          rintro _ _ rfl
          trivial
      | some command =>
          refine (Prog.wp_bind _ _ _ _).2 (Prog.wp_mono ?_ (wp_shellParse fuel { w with typed := command, outcome := cmdOk }
            command (by rw [ShellWorld.Parses, inv]) rfl))
          have answers : ∀ {res : Int} {w' : ShellWorld}, w'.nested = [] → w'.outcome = res →
              (do
                Prog.call (ShellCall.reply res)
                Prog.call ShellCall.printPrompt
                return Thread.waiting : Cmd Thread).wp psplinkShell ThreadInv w' := by
            intro res w' nested outcome
            refine wp_call ⟨outcome.symm, nested⟩ ?_
            rintro _ _ rfl
            refine wp_call trivial ?_
            rintro _ _ rfl
            rw [ShellWorld.prompt, nested]
            exact nested
          intro ran w' ended
          cases ran with
          | ret res => exact answers (ended.1.trans inv) ended.2
          | jumped => exact answers ended.1 ended.2
          | more => trivial
  | exited => trivial
  | gone => trivial

/-- The shell with a script to start with, or none. -/
def psplink (fuel : Nat) (startsh : Option CStr) : System (Cmd Thread × ShellWorld) Unit :=
  Prog.server psplinkShell (shellParseThread fuel) (.starting startsh) fun w => w.nested = [] ∧ w.outcome = cmdOk

/-- Whatever lines come, scripts nest and exceptions come up: what is called is what the innermost line says, with the
arguments of its script put in; after the first command that fails nothing is run any more, and its result is the
answer; a file that is open is read by the innermost script only, and closed by it or left by an exception. -/
theorem psplink_runs {fuel : Nat} {startsh : Option CStr} {p : Cmd Thread} {w : ShellWorld}
    (reachable : (psplink fuel startsh).Reachable (p, w)) :
    (∀ q, p.next = some q → shellRules w q) ∧ (p = .ret .waiting → w.nested = []) := by
  have now : p.wp psplinkShell ThreadInv w :=
    Prog.server_invariant (fun _ starts => starts) (fun _ _ inv => wp_shellParseThread fuel inv) reachable
  constructor
  · intro q at_call
    cases p with
    | ret a => contradiction
    | ask q' k =>
        cases at_call
        exact now.1
  · rintro rfl
    exact now

/-! ## A script -/

/-- A line that runs a script with one line, and commands that succeed. -/
def answer : (q : ShellCall) → ShellWorld → q.Answer × ShellWorld
  | .ttymode, w => (w.ttymode, w)
  | .enterTty, w => ((), { w with ttymode := true })
  | .leaveTty, w => ((), { w with ttymode := false })
  | .ttyAddInputData _, w => ((), w)
  | .findShellVar _, w => (none, w)
  | .sceIoOpen _, w => (false, w)
  | .handlepath file, w => (some file, w)
  | .openfile _ args, w => (some (3, []), { w with nested := .script ⟨3, args, none, []⟩ :: w.nested })
  | .fdgets _, w =>
      let data := match w.nested with
        | .script s :: _ => if s.data = [] then ascii "thinfo $1" else []
        | _ => []
      (data, w.onScript fun s => { s with data })
  | .closefile _, w => ((), { w with nested := w.nested.tail })
  | .lastmod, w => (.empty, w.onScript fun s => { s with lastmod := some .empty })
  | .conscmd _, w => (none, w)
  | .command .., w => (some cmdOk, { w with outcome := cmdOk })
  | .printf m, w => ((), { w with outcome := m.outcome w.outcome })
  | .printPrompt, w => ((), w.prompt)
  | .receiveMbx, w =>
      (some (ofBytes (ascii "./a.sh main")), { w with typed := ofBytes (ascii "./a.sh main"), outcome := cmdOk })
  | .reply _, w => ((), w)

theorem answer_post (q : ShellCall) (w : ShellWorld) : shellPost w q (answer q w).1 (answer q w).2 := by
  cases q with
  | ttymode => exact ⟨rfl, rfl⟩
  | _ => exact rfl

/-- Where the line of the script calls its command. -/
def atCommand : Cmd Thread × ShellWorld :=
  Prog.calls answer 7 (shellParseThread 2 .waiting) ⟨false, .empty, [], cmdOk, []⟩

theorem psplink_runs_script : ∃ c argv, atCommand.1.next = some (.command c argv) ∧ argv.map (·.text) = [ascii "main"] ∧
    atCommand.2.Calls c argv := by
  have start : (psplink 2 none).Reachable (.ret (.starting none), ⟨false, .empty, [], cmdOk, []⟩) := .init ⟨rfl, rfl, rfl⟩
  have waits := start.step (a := ()) (rfl : _ = (shellParseThread 2 (.starting none), _))
  have turn := waits.step (a := ()) (rfl : _ = (shellParseThread 2 .waiting, _))
  have reached : (psplink 2 none).Reachable atCommand :=
    @Prog.reachable_calls _ _ _ _ psplinkShell ShellWorld id answer answer_post _ _ _ 7 _ _ turn
  have called : ∃ c argv, atCommand.1.next = some (.command c argv) ∧ argv.map (·.text) = [ascii "main"] :=
    ⟨_, _, rfl, by decide⟩
  obtain ⟨c, argv, called, main⟩ := called
  exact ⟨c, argv, called, main, ((psplink_runs reached).1 _ called).1⟩

end Psplink.Shell.Interpreter
