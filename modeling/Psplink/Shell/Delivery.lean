import Psplink.Lib.System

/-!
# From the USB channel to the parser

`main_thread` of usbshell/main.c collects a line in its buffer and sends it to the thread
`PspLinkParse` of psplink/shell.c, which parses it. The message is in the frame of
`psplinkParseCommand` and points to the buffer, and both are used again while it is on its way.
-/

namespace Psplink.Shell
open Psplink.Lib

abbrev maxCli : Nat := 4096
def newline : UInt8 := 10

def cmdExitShell : Int := 1
def cmdOk : Int := 0
def cmdError : Int := -1

/-- `stray` is a pointer that was not put there by `psplinkParseCommand`. -/
inductive Command
  | cli
  | stray (text : List UInt8)

structure CommandMsg where
  command : Command
  res : Int

inductive Reader
  | reading
  | read (b : UInt8)
  | sent
  | returned (ret : Int)
  | exited

/-- The parser loads `command` after it has received the message, and reads the text byte by byte. -/
inductive Parser
  | waiting
  | received
  | scanning (command : Command) (text : List UInt8)
  | parsing (text : List UInt8)

/-- Every message is at the same place of the stack, so that the mailbox is a number of pointers
to it. `line` and `lines` are what has arrived, the other lists what was made of it. -/
structure UsbShell (σ : Type) where
  cli : Nat → UInt8
  cliPos : Nat
  reader : Reader
  msg : CommandMsg
  mbx : Nat
  parser : Parser
  world : σ
  line : List UInt8
  lines : List (List UInt8)
  called : List (List UInt8)
  results : List Int
  returns : List Int

/-- `shellParse` on a line; without a result where it ends in an exception. -/
abbrev ShellParse (σ : Type) := σ → List UInt8 → Option Int × σ

namespace UsbShell

variable {σ : Type}

def usbAsyncRead (b : UInt8) (s : UsbShell σ) : UsbShell σ :=
  { s with cli := Function.update s.cli s.cliPos b, reader := .read b }

/-- Up to the return of `sceKernelSendMbx`. -/
def psplinkParseCommand (s : UsbShell σ) : UsbShell σ :=
  { s with msg := ⟨.cli, 0⟩, mbx := s.mbx + 1, reader := .sent }

/-- What `main_thread` does with the byte `b` it has just stored. -/
def accept (b : UInt8) (s : UsbShell σ) : UsbShell σ :=
  if s.cli s.cliPos = newline then
    { s with
      cli := Function.update s.cli s.cliPos 0
      line := []
      lines := s.lines ++ [s.line] }.psplinkParseCommand
  else
    { s with
      cliPos := if s.cliPos < maxCli - 1 then s.cliPos + 1 else s.cliPos
      line := s.line ++ [b]
      reader := .reading }

def parseReturn (s : UsbShell σ) : UsbShell σ :=
  { s with reader := .returned 0, returns := s.returns ++ [0] }

/-- The frame of `psplinkParseCommand` is gone, and the calls that follow leave `junk` there. -/
def prompt (ret : Int) (junk : CommandMsg) (s : UsbShell σ) : UsbShell σ :=
  if ret = cmdExitShell then { s with reader := .exited }
  else { s with reader := .reading, cliPos := 0, msg := junk }

def receive (s : UsbShell σ) : UsbShell σ := { s with mbx := s.mbx - 1, parser := .received }

def load (s : UsbShell σ) : UsbShell σ := { s with parser := .scanning s.msg.command [] }

def byteAt (s : UsbShell σ) (command : Command) (i : Nat) : UInt8 :=
  match command with
  | .cli => s.cli i
  | .stray text => text.getD i 0

def scan (command : Command) (text : List UInt8) (s : UsbShell σ) : UsbShell σ :=
  if s.byteAt command text.length = 0 then
    { s with parser := .parsing text, called := s.called ++ [text] }
  else { s with parser := .scanning command (text ++ [s.byteAt command text.length]) }

def finish (shellParse : ShellParse σ) (text : List UInt8) (s : UsbShell σ) : UsbShell σ :=
  let res := (shellParse s.world text).1.getD cmdError
  { s with
    parser := .waiting
    world := (shellParse s.world text).2
    msg := { s.msg with res := res }
    results := s.results ++ [res] }

end UsbShell

inductive ShellEvent (σ : Type)
  | read (b : UInt8)
  | accept
  | parseReturn
  | prompt (junk : CommandMsg)
  | receive
  | load
  | scan
  | finish
  | elsewhere (world : σ)

section
variable {σ : Type}

inductive Move (shellParse : ShellParse σ) (s : UsbShell σ) : ShellEvent σ → UsbShell σ → Prop
  | read {b} : s.reader = .reading → Move shellParse s (.read b) (s.usbAsyncRead b)
  | accept {b} : s.reader = .read b → Move shellParse s .accept (s.accept b)
  | parseReturn : s.reader = .sent → Move shellParse s .parseReturn s.parseReturn
  | prompt {ret junk} : s.reader = .returned ret → Move shellParse s (.prompt junk) (s.prompt ret junk)
  | receive : s.parser = .waiting → 0 < s.mbx → Move shellParse s .receive s.receive
  | load : s.parser = .received → Move shellParse s .load s.load
  | scan {command text} : s.parser = .scanning command text →
      Move shellParse s .scan (s.scan command text)
  | finish {text} : s.parser = .parsing text → Move shellParse s .finish (s.finish shellParse text)
  | elsewhere {world} : Move shellParse s (.elsewhere world) { s with world := world }

structure UsbShell.Starts (s : UsbShell σ) : Prop where
  cliPos : s.cliPos = 0
  reader : s.reader = .reading
  mbx : s.mbx = 0
  parser : s.parser = .waiting
  line : s.line = []
  lines : s.lines = []
  called : s.called = []
  results : s.results = []
  returns : s.returns = []

def usbShell (shellParse : ShellParse σ) : System (UsbShell σ) (ShellEvent σ) where
  init := UsbShell.Starts
  step := Move shellParse

def Parser.past (pos : Nat) : Parser → Prop
  | .received => False
  | .scanning _ text => pos < text.length
  | .waiting | .parsing _ => True

/-- Nothing that was sent is still to be read from the buffer at `pos` or behind it. -/
def UsbShell.Settled (s : UsbShell σ) (pos : Nat) : Prop := s.mbx = 0 ∧ s.parser.past pos

/-- A byte is stored only where nothing is still to be read, it is a character of a line that fits,
the frame is left only once the message has been taken, and a line is parsed without complaint. -/
def Patient (shellParse : ShellParse σ) (s : UsbShell σ) : ShellEvent σ → Prop
  | .read b => s.Settled s.cliPos ∧ b ≠ 0 ∧ (b ≠ newline → s.cliPos < maxCli - 1)
  | .prompt _ => s.mbx = 0 ∧ s.parser ≠ .received
  | .finish => ∀ text, s.parser = .parsing text → (shellParse s.world text).1 = some cmdOk
  | _ => True

def Parser.busy : Parser → Nat
  | .received | .scanning .. => 1
  | .waiting | .parsing _ => 0

structure UsbShell.Delivered (s : UsbShell σ) : Prop where
  texts : s.called <+: s.lines
  once : s.called.length + s.parser.busy + s.mbx = s.lines.length
  returned : ∀ (i : Nat) ret res, s.returns[i]? = some ret → s.results[i]? = some res → ret = res

/-! ## The buffer -/

/-- The buffer has `text` from `n` on. -/
def Spells (cli : Nat → UInt8) : Nat → List UInt8 → Prop
  | _, [] => True
  | n, b :: text => cli n = b ∧ Spells cli (n + 1) text

variable {cli : Nat → UInt8} {n pos : Nat} {text : List UInt8}

theorem Spells.append {tail : List UInt8} :
    Spells cli n (text ++ tail) ↔ Spells cli n text ∧ Spells cli (n + text.length) tail := by
  induction text generalizing n with
  | nil => simp [Spells]
  | cons b text ih => simp [Spells, ih, and_assoc, Nat.add_right_comm, ← Nat.add_assoc]

theorem Spells.update_before (spells : Spells cli n text) (before : pos < n) (b : UInt8) :
    Spells (Function.update cli pos b) n text := by
  induction text generalizing n with
  | nil => trivial
  | cons c text ih =>
      refine ⟨?_, ih spells.2 (by omega)⟩
      rw [Function.update_of_ne (by omega)]
      exact spells.1

theorem Spells.update_after (spells : Spells cli n text) (after : n + text.length ≤ pos) (b : UInt8) :
    Spells (Function.update cli pos b) n text := by
  induction text generalizing n with
  | nil => trivial
  | cons c text ih =>
      rw [List.length_cons] at after
      refine ⟨?_, ih spells.2 (by omega)⟩
      rw [Function.update_of_ne (by omega)]
      exact spells.1

/-- A string with its terminator. -/
def CString (cli : Nat → UInt8) (n : Nat) (text : List UInt8) : Prop :=
  0 ∉ text ∧ Spells cli n (text ++ [0])

theorem CString.update (string : CString cli n text) (before : pos < n) (b : UInt8) :
    CString (Function.update cli pos b) n text :=
  ⟨string.1, string.2.update_before before b⟩

/-! ## The invariant -/

variable {σ : Type} {shellParse : ShellParse σ} {s s' : UsbShell σ}

/-- What the parser still has to do, where `mail` are the lines in the mailbox. -/
def Parser.Holds (s : UsbShell σ) (mail : List (List UInt8)) : Parser → Prop
  | .waiting | .parsing _ => s.called ++ mail = s.lines
  | .received => s.msg.command = .cli ∧ mail = [] ∧
      ∃ line, CString s.cli 0 line ∧ s.called ++ [line] = s.lines
  | .scanning command text => command = .cli ∧
      ∃ rest, CString s.cli text.length rest ∧ s.called ++ (text ++ rest) :: mail = s.lines

def Reader.Holds (s : UsbShell σ) : Reader → Prop
  | .reading => Spells s.cli 0 s.line ∧ s.line.length = s.cliPos ∧ 0 ∉ s.line
  | .read b => Spells s.cli 0 s.line ∧ s.line.length = s.cliPos ∧ 0 ∉ s.line ∧ s.cli s.cliPos = b ∧
      b ≠ 0 ∧ (b ≠ newline → s.cliPos < maxCli - 1) ∧ s.Settled s.cliPos
  | .sent | .returned _ | .exited => s.line = []

structure UsbShell.Inv (s : UsbShell σ) (mail : List (List UInt8)) : Prop where
  length : mail.length = s.mbx
  most : s.mbx ≤ 1
  letters : ∀ line ∈ mail, s.msg.command = .cli ∧ CString s.cli 0 line
  parser : s.parser.Holds s mail
  reader : s.reader.Holds s
  results : ∀ res ∈ s.results, res = 0
  returns : ∀ ret ∈ s.returns, ret = 0

theorem UsbShell.Inv.delivered {mail : List (List UInt8)} (inv : s.Inv mail) : s.Delivered := by
  obtain ⟨length, -, -, parser, -, results, returns⟩ := inv
  have texts : ∃ tail, s.called ++ tail = s.lines ∧ tail.length = s.parser.busy + s.mbx := by
    cases place : s.parser with
    | waiting | parsing _ =>
        rw [place] at parser
        exact ⟨mail, parser, by simp [Parser.busy, length]⟩
    | received =>
        rw [place] at parser
        obtain ⟨-, rfl, line, -, lines⟩ := parser
        exact ⟨[line], lines, by simp [Parser.busy, ← length]⟩
    | scanning command text =>
        rw [place] at parser
        obtain ⟨-, rest, -, lines⟩ := parser
        exact ⟨_, lines, by simp [Parser.busy, length, Nat.add_comm]⟩
  obtain ⟨tail, lines, count⟩ := texts
  refine ⟨⟨tail, lines⟩, ?_, ?_⟩
  · rw [← lines, List.length_append, count, Nat.add_assoc]
  · intro i ret res here there
    rw [returns ret (List.mem_of_getElem? here), results res (List.mem_of_getElem? there)]

theorem Parser.past.mail_nil {mail : List (List UInt8)} (inv : s.Inv mail) (settled : s.Settled pos) : mail = [] := by
  rw [← List.length_eq_zero_iff, inv.length]
  exact settled.1

/-- A store the parser does not come to, and what is sent with it. -/
theorem Parser.Holds.store {p : Parser} {mail more : List (List UInt8)} (holds : p.Holds s mail)
    (past : p.past pos) (b : UInt8) (called : s'.called = s.called) (lines : s'.lines = s.lines ++ more)
    (cli : s'.cli = Function.update s.cli pos b) : p.Holds s' (mail ++ more) := by
  cases p with
  | waiting | parsing _ =>
      change s.called ++ mail = s.lines at holds
      show s'.called ++ (mail ++ more) = s'.lines
      rw [called, lines, ← holds, List.append_assoc]
  | received => exact past.elim
  | scanning command text =>
      obtain ⟨source, rest, string, whole⟩ := holds
      refine ⟨source, rest, ?_, ?_⟩
      · rw [cli]
        exact string.update past b
      · rw [called, lines, ← whole, List.append_assoc, List.cons_append]

theorem Parser.Holds.congr {p : Parser} {mail : List (List UInt8)} (holds : p.Holds s mail)
    (called : s'.called = s.called) (lines : s'.lines = s.lines) (cli : s'.cli = s.cli)
    (command : p = .received → s'.msg.command = s.msg.command) : p.Holds s' mail := by
  cases p with
  | waiting | parsing _ => simpa only [Parser.Holds, called, lines] using holds
  | received => simpa only [Parser.Holds, called, lines, cli, command rfl] using holds
  | scanning source text => simpa only [Parser.Holds, called, lines, cli] using holds

namespace UsbShell.Inv

variable {mail : List (List UInt8)}

theorem usbAsyncRead {b : UInt8} (inv : s.Inv mail) (reading : s.reader = .reading)
    (patient : Patient shellParse s (.read b)) : (s.usbAsyncRead b).Inv mail := by
  obtain ⟨settled, notNul, fits⟩ := patient
  have nil := Parser.past.mail_nil inv settled
  have reader := inv.reader
  rw [reading] at reader
  obtain ⟨spells, length, plain⟩ := reader
  refine ⟨inv.length, inv.most, ?_, ?_, ?_, inv.results, inv.returns⟩
  · simp [nil]
  · have kept : s.parser.Holds (s.usbAsyncRead b) (mail ++ []) :=
      inv.parser.store settled.2 b rfl (List.append_nil _).symm rfl
    rwa [List.append_nil] at kept
  · refine ⟨?_, length, plain, Function.update_self .., notNul, fits, settled⟩
    exact spells.update_after (by omega) b

theorem line {b : UInt8} (inv : s.Inv mail) (read : s.reader = .read b) (here : s.cli s.cliPos = newline) :
    (s.accept b).Inv [s.line] := by
  have reader := inv.reader
  rw [read] at reader
  obtain ⟨spells, length, plain, -, -, -, settled⟩ := reader
  have nil := Parser.past.mail_nil inv settled
  have string : CString (Function.update s.cli s.cliPos 0) 0 s.line := by
    refine ⟨plain, Spells.append.mpr ⟨spells.update_after (by omega) 0, ?_⟩⟩
    rw [Nat.zero_add, length]
    exact ⟨Function.update_self .., trivial⟩
  have parser := inv.parser
  rw [UsbShell.accept, if_pos here]
  refine ⟨?_, ?_, ?_, ?_, rfl, inv.results, inv.returns⟩
  · simp [UsbShell.psplinkParseCommand, settled.1]
  · simp [UsbShell.psplinkParseCommand, settled.1]
  · intro line member
    rw [List.mem_singleton.mp member]
    exact ⟨rfl, string⟩
  · rw [nil] at parser
    exact parser.store settled.2 0 rfl rfl rfl

theorem character {b : UInt8} (inv : s.Inv mail) (read : s.reader = .read b) (here : s.cli s.cliPos ≠ newline) :
    (s.accept b).Inv mail := by
  have reader := inv.reader
  rw [read] at reader
  obtain ⟨spells, length, plain, same, notNul, fits, settled⟩ := reader
  rw [same] at here
  rw [UsbShell.accept, if_neg (same ▸ here), if_pos (fits here)]
  refine ⟨inv.length, inv.most, inv.letters, inv.parser.congr rfl rfl rfl fun _ => rfl, ?_, inv.results, inv.returns⟩
  refine ⟨Spells.append.mpr ⟨spells, ?_⟩, ?_, ?_⟩
  · rw [Nat.zero_add, length]
    exact ⟨same, trivial⟩
  · rw [List.length_append, length, List.length_singleton]
  · simp [plain, Ne.symm notNul]

theorem accept {b : UInt8} (inv : s.Inv mail) (read : s.reader = .read b) :
    ∃ mail, (s.accept b).Inv mail := by
  by_cases here : s.cli s.cliPos = newline
  · exact ⟨_, inv.line read here⟩
  · exact ⟨_, inv.character read here⟩

theorem parseReturn (inv : s.Inv mail) (sent : s.reader = .sent) : s.parseReturn.Inv mail := by
  have reader := inv.reader
  rw [sent] at reader
  refine ⟨inv.length, inv.most, inv.letters, inv.parser.congr rfl rfl rfl fun _ => rfl, reader, inv.results, ?_⟩
  simpa [UsbShell.parseReturn, or_imp, forall_and] using inv.returns

theorem prompt {ret : Int} {junk : CommandMsg} (inv : s.Inv mail) (returned : s.reader = .returned ret)
    (patient : Patient shellParse s (.prompt junk)) : (s.prompt ret junk).Inv mail := by
  have reader := inv.reader
  rw [returned] at reader
  change s.line = [] at reader
  obtain ⟨empty, away⟩ := patient
  have nil : mail = [] := by rw [← List.length_eq_zero_iff, inv.length, empty]
  unfold UsbShell.prompt
  split
  · exact ⟨inv.length, inv.most, inv.letters, inv.parser.congr rfl rfl rfl fun _ => rfl, reader, inv.results, inv.returns⟩
  · refine ⟨inv.length, inv.most, ?_, ?_, ?_, inv.results, inv.returns⟩
    · simp [nil]
    · exact inv.parser.congr rfl rfl rfl fun received => absurd received away
    · simp [Reader.Holds, reader, Spells]

theorem settled {b : UInt8} (inv : s.Inv mail) (read : s.reader = .read b) : s.Settled s.cliPos := by
  have reader := inv.reader
  rw [read] at reader
  exact reader.2.2.2.2.2.2

theorem ne_received (inv : s.Inv mail) (received : s.parser = .received) (b : UInt8) : s.reader ≠ .read b := by
  intro read
  have past := (inv.settled read).2
  rw [received] at past
  exact past

/-- The reader's part where only the parser moves. -/
theorem reader_congr (inv : s.Inv mail) (cli : s'.cli = s.cli) (cliPos : s'.cliPos = s.cliPos)
    (line : s'.line = s.line) (settled : ∀ b, s.reader = .read b → s'.Settled s.cliPos) : s.reader.Holds s' := by
  have reader := inv.reader
  cases place : s.reader with
  | reading | sent | returned _ | exited =>
      rw [place] at reader
      simpa only [Reader.Holds, cli, cliPos, line] using reader
  | read b =>
      rw [place] at reader
      obtain ⟨spells, length, plain, same, notNul, fits, -⟩ := reader
      simp only [Reader.Holds, cli, cliPos, line]
      exact ⟨spells, length, plain, same, notNul, fits, settled b place⟩

theorem receive (inv : s.Inv mail) (waiting : s.parser = .waiting) (some : 0 < s.mbx) : s.receive.Inv [] := by
  have one : s.mbx = 1 := Nat.le_antisymm inv.most some
  obtain ⟨line, rfl⟩ := List.length_eq_one_iff.mp (inv.length.trans one)
  have parser := inv.parser
  rw [waiting] at parser
  obtain ⟨command, string⟩ := inv.letters line List.mem_cons_self
  refine ⟨?_, ?_, nofun, ⟨command, rfl, line, string, parser⟩, ?_, inv.results, inv.returns⟩
  · simp [UsbShell.receive, one]
  · simp [UsbShell.receive, one]
  · refine inv.reader_congr rfl rfl rfl ?_
    intro b read
    have empty := (inv.settled read).1
    omega

theorem load (inv : s.Inv mail) (received : s.parser = .received) : s.load.Inv mail := by
  have parser := inv.parser
  rw [received] at parser
  obtain ⟨command, rfl, line, string, lines⟩ := parser
  refine ⟨inv.length, inv.most, nofun, ⟨command, line, string, lines⟩, ?_, inv.results, inv.returns⟩
  refine inv.reader_congr rfl rfl rfl ?_
  intro b read
  exact absurd read (inv.ne_received received b)

theorem scan {command : Command} (inv : s.Inv mail) (scanning : s.parser = .scanning command text) :
    (s.scan command text).Inv mail := by
  have parser := inv.parser
  rw [scanning] at parser
  obtain ⟨rfl, rest, string, lines⟩ := parser
  have settled : ∀ b, s.reader = .read b → s.mbx = 0 ∧ s.cliPos < text.length := by
    intro b read
    obtain ⟨empty, past⟩ := inv.settled read
    rw [scanning] at past
    exact ⟨empty, past⟩
  unfold UsbShell.scan byteAt
  cases rest with
  | nil =>
      rw [if_pos string.2.1]
      refine ⟨inv.length, inv.most, inv.letters, ?_, ?_, inv.results, inv.returns⟩
      · simpa [Parser.Holds] using lines
      · exact inv.reader_congr rfl rfl rfl fun b read => ⟨(settled b read).1, trivial⟩
  | cons b rest =>
      obtain ⟨plain, here, spells⟩ := string
      rw [List.mem_cons, not_or] at plain
      rw [if_neg (by rw [here]; exact Ne.symm plain.1), here]
      refine ⟨inv.length, inv.most, inv.letters, ⟨rfl, rest, ⟨plain.2, ?_⟩, ?_⟩, ?_, inv.results, inv.returns⟩
      · simpa using spells
      · simpa using lines
      · refine inv.reader_congr rfl rfl rfl ?_
        intro b read
        refine ⟨(settled b read).1, ?_⟩
        have past := (settled b read).2
        simp only [Parser.past, List.length_append, List.length_singleton]
        omega

theorem finish (inv : s.Inv mail) (parsing : s.parser = .parsing text)
    (patient : Patient shellParse s .finish) : (s.finish shellParse text).Inv mail := by
  have parser := inv.parser
  rw [parsing] at parser
  refine ⟨inv.length, inv.most, inv.letters, parser, ?_, ?_, inv.returns⟩
  · refine inv.reader_congr rfl rfl rfl ?_
    intro b read
    exact ⟨(inv.settled read).1, trivial⟩
  · have ok := patient text parsing
    simpa [UsbShell.finish, ok, cmdOk, or_imp, forall_and] using inv.results

theorem start (starts : s.Starts) : s.Inv [] := by
  refine ⟨by simp [starts.mbx], by simp [starts.mbx], nofun, ?_, ?_, ?_, ?_⟩
  · rw [starts.parser]
    simp [Parser.Holds, starts.called, starts.lines]
  · rw [starts.reader]
    simp [Reader.Holds, Spells, starts.line, starts.cliPos]
  · simp [starts.results]
  · simp [starts.returns]

theorem step {e : ShellEvent σ} (inv : s.Inv mail) (patient : Patient shellParse s e) (move : Move shellParse s e s') :
    ∃ mail, s'.Inv mail := by
  cases move with
  | read reading => exact ⟨_, inv.usbAsyncRead reading patient⟩
  | accept read => exact inv.accept read
  | parseReturn sent => exact ⟨_, inv.parseReturn sent⟩
  | prompt returned => exact ⟨_, inv.prompt returned patient⟩
  | receive waiting some => exact ⟨_, inv.receive waiting some⟩
  | load received => exact ⟨_, inv.load received⟩
  | scan scanning => exact ⟨_, inv.scan scanning⟩
  | finish parsing => exact ⟨_, inv.finish parsing patient⟩
  | elsewhere =>
      refine ⟨mail, inv.length, inv.most, inv.letters, ?_, ?_, inv.results, inv.returns⟩
      · exact inv.parser.congr rfl rfl rfl fun _ => rfl
      · exact inv.reader_congr rfl rfl rfl fun b read => inv.settled read

end UsbShell.Inv

/-! ## Every run -/

theorem shell_delivery (reachable : ((usbShell shellParse).guard (Patient shellParse)).Reachable s) :
    s.Delivered := by
  obtain ⟨mail, inv⟩ : ∃ mail, s.Inv mail := by
    apply reachable.invariant
    · intro s starts
      exact ⟨[], .start starts⟩
    · rintro s e s' ⟨mail, inv⟩ ⟨patient, move⟩
      exact inv.step patient move
  exact inv.delivered

/-! ## Two runs -/

def UsbShell.after (shellParse : ShellParse σ) (s : UsbShell σ) : ShellEvent σ → Option (UsbShell σ)
  | .read b => match s.reader with
      | .reading => some (s.usbAsyncRead b)
      | _ => none
  | .accept => match s.reader with
      | .read b => some (s.accept b)
      | _ => none
  | .parseReturn => match s.reader with
      | .sent => some s.parseReturn
      | _ => none
  | .prompt junk => match s.reader with
      | .returned ret => some (s.prompt ret junk)
      | _ => none
  | .receive => match s.parser with
      | .waiting => if 0 < s.mbx then some s.receive else none
      | _ => none
  | .load => match s.parser with
      | .received => some s.load
      | _ => none
  | .scan => match s.parser with
      | .scanning command text => some (s.scan command text)
      | _ => none
  | .finish => match s.parser with
      | .parsing text => some (s.finish shellParse text)
      | _ => none
  | .elsewhere world => some { s with world := world }

theorem move_of_after {e : ShellEvent σ} (after : s.after shellParse e = some s') : Move shellParse s e s' := by
  cases e with
  | elsewhere world =>
      cases after
      exact .elsewhere
  | receive =>
      simp only [UsbShell.after] at after
      split at after
      · split at after
        · cases after
          exact .receive ‹_› ‹_›
        · cases after
      · cases after
  | _ =>
      simp only [UsbShell.after] at after
      split at after
      · cases after
        first
          | exact .read ‹_›
          | exact .accept ‹_›
          | exact .parseReturn ‹_›
          | exact .prompt ‹_›
          | exact .load ‹_›
          | exact .scan ‹_›
          | exact .finish ‹_›
      · cases after

def silentShell : UsbShell Unit where
  cli _ := 0
  cliPos := 0
  reader := .reading
  msg := ⟨.cli, 0⟩
  mbx := 0
  parser := .waiting
  world := ()
  line := []
  lines := []
  called := []
  results := []
  returns := []

theorem silentShell_starts : silentShell.Starts :=
  ⟨rfl, rfl, rfl, rfl, rfl, rfl, rfl, rfl, rfl⟩

end

def typed (b : UInt8) : List (ShellEvent Unit) := [.read b, .accept]

def taken : List (ShellEvent Unit) := [.receive, .load, .scan, .scan]

def returned : List (ShellEvent Unit) := [.parseReturn, .prompt ⟨.cli, 0⟩]

/-- Only the line `a` has a result that is not zero. -/
def oneLetter : ShellParse Unit := fun _ text => (some (if text = [97] then cmdExitShell else cmdOk), ())

/-- The parser is still at the first line when the next two arrive. -/
def hurried : List (ShellEvent Unit) :=
  typed 97 ++ typed newline ++ taken ++ returned ++ typed 98 ++ typed newline ++ returned ++
    typed 99 ++ typed newline ++ returned ++ [.finish] ++ taken ++ [.finish] ++ taken

theorem shell_delivery_lost : ∃ s, (usbShell oneLetter).Reachable s ∧ s.lines = [[97], [98], [99]] ∧
    s.called = [[97], [99], [99]] ∧ s.returns = [0, 0, 0] ∧ s.results = [1, 0] ∧ ¬s.Delivered := by
  have ran : (System.exec (UsbShell.after oneLetter) silentShell hurried).map
      (fun s => (s.lines, s.called, s.returns, s.results)) =
        some ([[97], [98], [99]], [[97], [99], [99]], [0, 0, 0], [1, 0]) := by decide +kernel
  obtain ⟨s, run, holds⟩ := Option.map_eq_some_iff.mp ran
  simp only [Prod.mk.injEq] at holds
  obtain ⟨lines, called, returns, results⟩ := holds
  have start : (usbShell oneLetter).Reachable silentShell := .init silentShell_starts
  refine ⟨s, start.exec (fun _ _ _ _ => move_of_after) run, lines, called, returns, results, ?_⟩
  intro delivered
  have same := delivered.returned 0 0 1 (by rw [returns]; rfl) (by rw [results]; rfl)
  cases same

theorem Move.patient {s s' : UsbShell Unit} (e : ShellEvent Unit)
    (reachable : ((usbShell oneLetter).guard (Patient oneLetter)).Reachable s)
    (patient : Patient oneLetter s e) (move : Move oneLetter s e s') :
    ((usbShell oneLetter).guard (Patient oneLetter)).Reachable s' :=
  reachable.step ⟨patient, move⟩

theorem shell_delivery_patient : ∃ s : UsbShell Unit, s.called = [[98]] ∧ s.returns = [0] ∧
    s.results = [0] ∧ s.Delivered := by
  have first := Move.patient (.read 98) (.init silentShell_starts) ⟨⟨rfl, trivial⟩, by decide, by decide⟩ (.read rfl)
  have second := Move.patient .accept first trivial (.accept rfl)
  have third := Move.patient (.read newline) second ⟨⟨rfl, trivial⟩, by decide, by decide⟩ (.read rfl)
  have sent := Move.patient .accept third trivial (.accept rfl)
  have received := Move.patient .receive sent trivial (.receive rfl (by decide))
  have loaded := Move.patient .load received trivial (.load rfl)
  have scanned := Move.patient .scan loaded trivial (.scan rfl)
  have parsing := Move.patient .scan scanned trivial (.scan rfl)
  have finished := Move.patient .finish parsing (by rintro _ ⟨⟩; rfl) (.finish rfl)
  have back := Move.patient .parseReturn finished trivial (.parseReturn rfl)
  exact ⟨_, rfl, rfl, rfl, shell_delivery back⟩

end Psplink.Shell
