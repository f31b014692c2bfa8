import Psplink.Lib.Interference
import Psplink.Lib.Packed

/-!
# The network shell

`start_server` of netshell/main.c among the threads that print. `wifiPrint` waits until the one buffer is free and leaves
it full for the server to send; the server prints its prompt in the same way. What goes to the screen is left out.
-/

namespace Psplink.Shell.NetShell
open Psplink.Lib

/-! ## The server -/

/-- `fill` is what `wifiPrint` does with a free buffer; `send` sends what the buffer has. -/
inductive NetCall
  | accept
  | setCurrsock (sock : Int)
  | sendWelcome (sock : Int)
  | currsock
  | size
  | fill (data : Bytes)
  | send (sock : Int)
  | clearSize
  | close (sock : Int)
  | recv (sock : Int)
  | psplinkParseCommand (cli : Bytes)
  | psplinkExitShell

@[reducible] def NetCall.Answer : NetCall → Type
  | .accept | .currsock | .send _ | .psplinkParseCommand _ => Int
  | .size => Nat
  | .recv _ => Int × UInt8
  | _ => Unit

abbrev Net := Prog NetCall NetCall.Answer

/-- The line so far and the last byte; both outlive a connection. -/
structure Cli where
  cli : Bytes
  data : UInt8

inductive Server
  | accepting (s : Cli)
  | printing (sock : Int) (s : Cli)
  | serving (sock : Int) (s : Cli)
  | ended

def cliSize : Nat := 1024

section
variable (servsock : Int) (prompt : Bytes)

def greet (sock : Int) (s : Cli) : Net Server := do
  Prog.call (NetCall.setCurrsock sock)
  Prog.call (NetCall.sendWelcome sock)
  let curr ← Prog.call NetCall.currsock
  return if 0 ≤ curr then .printing sock s else .serving sock s

def acceptClient (s : Cli) : Net Server := do
  let sock ← Prog.call NetCall.accept
  if sock < 0 then do
    Prog.call (NetCall.close servsock)
    return .ended
  else greet sock s

/-- One look at the buffer on the way to print the prompt. -/
def printPrompt (sock : Int) (s : Cli) : Net Server := do
  let size ← Prog.call NetCall.size
  if size ≠ 0 then return .printing sock s
  else do
    Prog.call (NetCall.fill prompt)
    return .serving sock s

def parse (sock : Int) (s : Cli) : Net Server := do
  let ret ← Prog.call (NetCall.psplinkParseCommand s.cli)
  if ret = 1 then do
    Prog.call (NetCall.close servsock)
    Prog.call (NetCall.close sock)
    Prog.call (NetCall.setCurrsock (-1))
    Prog.call NetCall.psplinkExitShell
    return .ended
  else return .serving sock { s with cli := [] }

def take (sock : Int) (s : Cli) : Net Server :=
  if s.data = 10 ∨ s.data = 13 then
    if s.cli ≠ [] then parse servsock sock s else return .serving sock s
  else if s.cli.length < cliSize - 1 then return .serving sock { s with cli := s.cli ++ [s.data] }
  else return .serving sock s

/-- A byte that is not there leaves the last one. -/
def receive (sock : Int) (s : Cli) : Net Server := do
  let (readbytes, byte) ← Prog.call (NetCall.recv sock)
  if 0 ≤ readbytes then take servsock sock { s with data := if 0 < readbytes then byte else s.data }
  else return .serving sock s

def sendBuffer (sock : Int) (s : Cli) : Net Server := do
  let ret ← Prog.call (NetCall.send sock)
  if ret < 0 then do
    Prog.call (NetCall.close sock)
    Prog.call (NetCall.setCurrsock (-1))
    return .accepting s
  else do
    Prog.call NetCall.clearSize
    receive servsock sock s

def serve (sock : Int) (s : Cli) : Net Server := do
  let size ← Prog.call NetCall.size
  if size ≠ 0 then sendBuffer servsock sock s else receive servsock sock s

def startServer : Server → Net Server
  | .accepting s => acceptClient servsock s
  | .printing sock s => printPrompt prompt sock s
  | .serving sock s => serve servsock sock s
  | .ended => return .ended

end

/-! ## The threads that print -/

/-- The buffer is `g_data` up to `g_size`. What has been printed and sent, and the sockets that are open, are recorded. -/
structure NetWorld where
  currsock : Int
  buffer : Bytes
  printed : Bytes
  sent : Bytes
  failed : Bool
  open_ : List Int

def bufferSize : Nat := 4096

/-- A thread prints: the buffer is free when it looks, and it goes on to fill it. -/
structure Prints (data : Bytes) (w w' : NetWorld) : Prop where
  free : w.buffer = []
  fits : data.length ≤ bufferSize
  filled : w' = { w with buffer := data, printed := w.printed ++ data }

namespace NetWorld

def send (w : NetWorld) (ret : Int) : NetWorld :=
  if ret < 0 then { w with failed := true } else { w with sent := w.sent ++ w.buffer }

def close (w : NetWorld) (sock : Int) : NetWorld := { w with open_ := w.open_.erase sock }

end NetWorld

def netPost (w : NetWorld) : (q : NetCall) → q.Answer → NetWorld → Prop
  | .accept, sock, w' => sock < 0 ∧ w' = w ∨ 0 ≤ sock ∧ sock ∉ w.open_ ∧ w' = { w with open_ := sock :: w.open_ }
  | .setCurrsock sock, _, w' => w' = { w with currsock := sock }
  | .sendWelcome _, _, w' => w' = w
  | .currsock, sock, w' => sock = w.currsock ∧ w' = w
  | .size, size, w' => size = w.buffer.length ∧ w' = w
  | .fill data, _, w' => w' = { w with buffer := data, printed := w.printed ++ data }
  | .send _, ret, w' => w' = w.send ret
  | .clearSize, _, w' => w' = { w with buffer := [] }
  | .close sock, _, w' => w' = w.close sock
  | .recv _, _, w' => w' = w
  | .psplinkParseCommand _, _, w' => w' = w
  | .psplinkExitShell, _, w' => w' = w

/-- What is not sent yet is in the buffer, but for the moment between sending it and setting it free. -/
def Accounted (w : NetWorld) : NetCall → Prop
  | .clearSize => w.printed = w.sent
  | _ => w.printed = w.sent ++ w.buffer

/-- A command is a line: not empty, in one piece and with room for its end. -/
structure Line (cli : Bytes) : Prop where
  some : cli ≠ []
  whole : 10 ∉ cli ∧ 13 ∉ cli
  fits : cli.length < cliSize

def netRules (servsock : Int) (w : NetWorld) : NetCall → Prop
  | .accept => w.open_ = []
  | .sendWelcome sock => w.open_ = [sock]
  | .fill _ => w.buffer = [] ∧ w.failed = false
  | .send sock => w.open_ = [sock] ∧ w.currsock = sock ∧ w.buffer ≠ [] ∧ w.failed = false
  | .recv sock => w.open_ = [sock] ∧ w.currsock = sock ∧ w.failed = false
  | .close sock => sock = servsock ∨ w.open_ = [sock]
  | .psplinkParseCommand cli => Line cli ∧ w.failed = false
  | _ => True

structure NetWorld.Starts (w : NetWorld) : Prop where
  currsock : w.currsock = -1
  buffer : w.buffer = []
  printed : w.printed = []
  sent : w.sent = []
  failed : w.failed = false
  open_ : w.open_ = []

def netSide (pre : NetWorld → NetCall → Prop) : Prog.Contract NetCall NetCall.Answer NetWorld := ⟨pre, netPost⟩

def netShell (servsock : Int) (prompt : Bytes) (s : Cli) : System (Net Server × NetWorld) (Option Bytes) :=
  Prog.among (netSide fun _ _ => True) Prints (startServer servsock prompt) (.accepting s) NetWorld.Starts

/-- No other thread prints between the server's look at the buffer and its own filling of it. -/
def Undisturbed (q : Option NetCall) (_ : NetWorld) (_ : Bytes) : Prop := ∀ prompt, q ≠ some (.fill prompt)

/-! ## What holds at the calls -/

/-- What is not sent yet is in the buffer; once a send has failed something is. -/
structure Even (w : NetWorld) : Prop where
  stream : w.printed = w.sent ++ w.buffer
  stuck : w.failed = true → w.buffer ≠ []

/-- One connection is open, and it is the one that is printed to. -/
structure Joined (sock : Int) (w : NetWorld) : Prop extends Even w where
  current : w.currsock = sock
  only : w.open_ = [sock]

structure Served (sock : Int) (w : NetWorld) : Prop extends Joined sock w where
  fine : w.failed = false

/-- A line that is not finished. -/
structure Cli.Clean (s : Cli) : Prop where
  whole : 10 ∉ s.cli ∧ 13 ∉ s.cli
  fits : s.cli.length < cliSize

def ServerInv : Server → NetWorld → Prop
  | .accepting s, w => s.Clean ∧ Even w ∧ w.open_ = []
  | .printing sock s, w => s.Clean ∧ 0 ≤ sock ∧ Joined sock w
  | .serving sock s, w => s.Clean ∧ Served sock w
  | .ended, w => Even w

section
variable {e : Bytes} {w w' : NetWorld}

theorem NetWorld.Starts.even (starts : w.Starts) : Even w := by
  constructor
  · rw [starts.printed, starts.sent, starts.buffer, List.append_nil]
  · intro failed
    exact absurd (failed.symm.trans starts.failed) (by decide)

theorem Prints.even (prints : Prints e w w') (even : Even w) : Even w' := by
  obtain ⟨free, _, rfl⟩ := prints
  refine ⟨?_, fun failed => absurd free (even.stuck failed)⟩
  show w.printed ++ e = w.sent ++ e
  rw [even.stream, free, List.append_nil]

theorem Prints.joined (prints : Prints e w w') {sock : Int} (joined : Joined sock w) : Joined sock w' := by
  have even := prints.even joined.toEven
  obtain ⟨_, _, rfl⟩ := prints
  exact ⟨even, joined.current, joined.only⟩

theorem Prints.served (prints : Prints e w w') {sock : Int} (served : Served sock w) : Served sock w' := by
  have joined := prints.joined served.toJoined
  obtain ⟨_, _, rfl⟩ := prints
  exact ⟨joined, served.fine⟩

theorem Prints.open_eq (prints : Prints e w w') : w'.open_ = w.open_ := by
  obtain ⟨_, _, rfl⟩ := prints
  rfl

end

theorem NetWorld.Starts.inv {s : Cli} {w : NetWorld} (starts : w.Starts) (clean : s.Clean) : ServerInv (.accepting s) w :=
  ⟨clean, starts.even, starts.open_⟩

section
variable {servsock : Int} {prompt : Bytes} {sock : Int} {s : Cli} {w : NetWorld}

/-- The calls of the server among the threads that print. -/
abbrev amidPrints (servsock : Int) : Prog.Contract NetCall NetCall.Answer NetWorld :=
  (netSide fun w q => netRules servsock w q ∧ Accounted w q).among fun q w w' => ∃ e, Undisturbed q w e ∧ Prints e w w'

theorem wp_net {P : NetWorld → Prop} {α : Type} {q : NetCall} {k : q.Answer → Net α} {R : α → NetWorld → Prop} (holds : P w)
    (stable : ∀ e v v', P v → Undisturbed (some q) v e → Prints e v v' → P v')
    (allowed : ∀ v, P v → netRules servsock v q ∧ Accounted v q)
    (after : ∀ v a v', P v → netPost v q a v' → (k a).wp (amidPrints servsock) R v') :
    (Prog.ask q k).wp (amidPrints servsock) R w := by
  apply Prog.wp_among_ask holds _ allowed after
  rintro v v' holds ⟨e, undisturbed, prints⟩
  exact stable e v v' holds undisturbed prints

theorem wp_greet (clean : s.Clean) (even : Even w) (positive : 0 ≤ sock) (only : w.open_ = [sock]) :
    (greet sock s).wp (amidPrints servsock) ServerInv w := by
  refine wp_net (P := fun v => Even v ∧ v.open_ = [sock]) ⟨even, only⟩ ?_ (fun v holds => ⟨trivial, holds.1.stream⟩) ?_
  · rintro e v v' ⟨even, only⟩ _ prints
    exact ⟨prints.even even, prints.open_eq.trans only⟩
  rintro v _ v₁ ⟨even, only⟩ rfl
  have joined : Joined sock { v with currsock := sock } := ⟨⟨even.stream, even.stuck⟩, rfl, only⟩
  refine wp_net joined (fun _ _ _ joined _ prints => prints.joined joined) (fun v joined => ⟨joined.only, joined.stream⟩) ?_
  rintro v₁ _ v₂ joined rfl
  refine wp_net joined (fun _ _ _ joined _ prints => prints.joined joined) (fun v joined => ⟨trivial, joined.stream⟩) ?_
  rintro v₂ curr v₃ joined ⟨rfl, rfl⟩
  show ServerInv (if 0 ≤ v₃.currsock then .printing sock s else .serving sock s) v₃
  rw [joined.current, if_pos positive]
  exact ⟨clean, positive, joined⟩

theorem wp_acceptClient (clean : s.Clean) (even : Even w) (none : w.open_ = []) :
    (acceptClient servsock s).wp (amidPrints servsock) ServerInv w := by
  have stable : ∀ e v v', Even v ∧ v.open_ = [] → Prints e v v' → Even v' ∧ v'.open_ = [] := by
    rintro e v v' ⟨even, none⟩ prints
    exact ⟨prints.even even, prints.open_eq.trans none⟩
  refine wp_net ⟨even, none⟩ (fun e v v' holds _ prints => stable e v v' holds prints)
    (fun v holds => ⟨holds.2, holds.1.stream⟩) ?_
  rintro v new v₁ ⟨even, none⟩ accepted
  refine Prog.wp_ite ?_ ?_
  · intro refused
    rcases accepted with ⟨_, rfl⟩ | ⟨positive, _⟩
    · refine wp_net ⟨even, none⟩ (fun e v v' holds _ prints => stable e v v' holds prints)
        (fun v holds => ⟨Or.inl rfl, holds.1.stream⟩) ?_
      rintro v _ v₂ ⟨even, _⟩ rfl
      exact ⟨even.stream, even.stuck⟩
    · exact absurd refused (Int.not_lt.mpr positive)
  · intro positive
    rcases accepted with ⟨refused, _⟩ | ⟨positive, _, rfl⟩
    · contradiction
    · exact wp_greet clean ⟨even.stream, even.stuck⟩ positive (by rw [none])

theorem wp_printPrompt (clean : s.Clean) (positive : 0 ≤ sock) (joined : Joined sock w) :
    (printPrompt prompt sock s).wp (amidPrints servsock) ServerInv w := by
  refine wp_net joined (fun _ _ _ joined _ prints => prints.joined joined) (fun v joined => ⟨trivial, joined.stream⟩) ?_
  rintro _ size v joined ⟨rfl, rfl⟩
  refine Prog.wp_ite (fun _ => ⟨clean, positive, joined⟩) ?_
  intro empty
  have free : v.buffer = [] := List.eq_nil_of_length_eq_zero (not_not.mp empty)
  have fine : v.failed = false := by
    cases failed : v.failed with
    | false => rfl
    | true => exact absurd free (joined.stuck failed)
  refine wp_net (P := fun v => Joined sock v ∧ v.buffer = [] ∧ v.failed = false) ⟨joined, free, fine⟩ ?_
    (fun v holds => ⟨holds.2, holds.1.stream⟩) ?_
  · intro e v v' _ undisturbed
    exact absurd rfl (undisturbed prompt)
  rintro v _ v₁ ⟨joined, free, fine⟩ rfl
  refine ⟨clean, ⟨⟨⟨?_, ?_⟩, joined.current, joined.only⟩, fine⟩⟩
  · show v.printed ++ prompt = v.sent ++ prompt
    rw [joined.stream, free, List.append_nil]
  · intro failed
    exact absurd (failed.symm.trans fine) (by decide)

theorem wp_parse (clean : s.Clean) (some : s.cli ≠ []) (served : Served sock w) :
    (parse servsock sock s).wp (amidPrints servsock) ServerInv w := by
  refine wp_net served (fun _ _ _ served _ prints => prints.served served)
    (fun v served => ⟨⟨⟨some, clean.whole, clean.fits⟩, served.fine⟩, served.stream⟩) ?_
  rintro v ret _ served rfl
  refine Prog.wp_ite ?_ ?_
  · intro _
    refine wp_net served (fun _ _ _ served _ prints => prints.served served) (fun v served => ⟨Or.inl rfl, served.stream⟩) ?_
    rintro v _ _ served rfl
    have closed : Even (v.close servsock) ∧ (sock = servsock ∨ (v.close servsock).open_ = [sock]) := by
      refine ⟨⟨served.stream, served.stuck⟩, ?_⟩
      by_cases same : sock = servsock
      · exact Or.inl same
      · right
        rw [NetWorld.close, served.only, List.erase_cons_tail (by simpa using same), List.erase_nil]
    refine wp_net (P := fun v => Even v ∧ (sock = servsock ∨ v.open_ = [sock])) closed ?_
      (fun v holds => ⟨holds.2, holds.1.stream⟩) ?_
    · rintro e v v' ⟨even, only⟩ _ prints
      rw [prints.open_eq]
      exact ⟨prints.even even, only⟩
    rintro v _ _ ⟨even, _⟩ rfl
    refine wp_net (P := Even) ⟨even.stream, even.stuck⟩ (fun _ _ _ even _ prints => prints.even even)
      (fun v even => ⟨trivial, even.stream⟩) ?_
    rintro v _ _ even rfl
    refine wp_net (P := Even) ⟨even.stream, even.stuck⟩ (fun _ _ _ even _ prints => prints.even even)
      (fun v even => ⟨trivial, even.stream⟩) ?_
    rintro v _ _ even rfl
    exact even
  · intro _
    exact ⟨⟨⟨List.not_mem_nil, List.not_mem_nil⟩, (by decide : 0 < cliSize)⟩, served⟩

theorem wp_take (clean : s.Clean) (served : Served sock w) : (take servsock sock s).wp (amidPrints servsock) ServerInv w := by
  refine Prog.wp_ite ?_ ?_
  · intro _
    refine Prog.wp_ite ?_ fun _ => ⟨clean, served⟩
    intro some
    exact wp_parse clean some served
  · intro other
    refine Prog.wp_ite ?_ fun _ => ⟨clean, served⟩
    intro room
    refine ⟨⟨⟨?_, ?_⟩, ?_⟩, served⟩
    · intro mem
      rcases List.mem_append.mp mem with before | last
      · exact clean.whole.1 before
      · exact other (Or.inl (List.mem_singleton.mp last).symm)
    · intro mem
      rcases List.mem_append.mp mem with before | last
      · exact clean.whole.2 before
      · exact other (Or.inr (List.mem_singleton.mp last).symm)
    · rw [List.length_append, List.length_singleton]
      omega

theorem wp_receive (clean : s.Clean) (served : Served sock w) :
    (receive servsock sock s).wp (amidPrints servsock) ServerInv w := by
  refine wp_net served (fun _ _ _ served _ prints => prints.served served)
    (fun v served => ⟨⟨served.only, served.current, served.fine⟩, served.stream⟩) ?_
  rintro v ⟨readbytes, byte⟩ _ served rfl
  refine Prog.wp_ite ?_ fun _ => ⟨clean, served⟩
  intro _
  exact wp_take ⟨clean.whole, clean.fits⟩ served

theorem wp_sendBuffer (clean : s.Clean) (served : Served sock w) (full : w.buffer ≠ []) :
    (sendBuffer servsock sock s).wp (amidPrints servsock) ServerInv w := by
  refine wp_net (P := fun v => Served sock v ∧ v.buffer ≠ []) ⟨served, full⟩ ?_
    (fun v holds => ⟨⟨holds.1.only, holds.1.current, holds.2, holds.1.fine⟩, holds.1.stream⟩) ?_
  · rintro e v v' ⟨_, full⟩ _ prints
    exact absurd prints.free full
  rintro v ret _ ⟨served, full⟩ rfl
  refine Prog.wp_ite ?_ ?_
  · intro failed
    have left : Even (v.send ret) ∧ (v.send ret).open_ = [sock] := by
      rw [NetWorld.send, if_pos failed]
      exact ⟨⟨served.stream, fun _ => full⟩, served.only⟩
    refine wp_net (P := fun v => Even v ∧ v.open_ = [sock]) left ?_ (fun v holds => ⟨Or.inr holds.2, holds.1.stream⟩) ?_
    · rintro e v v' ⟨even, only⟩ _ prints
      exact ⟨prints.even even, prints.open_eq.trans only⟩
    rintro v _ _ ⟨even, only⟩ rfl
    have none : (v.close sock).open_ = [] := by
      rw [NetWorld.close, only]
      exact List.erase_cons_head _ _
    refine wp_net (P := fun v => Even v ∧ v.open_ = []) ⟨⟨even.stream, even.stuck⟩, none⟩ ?_
      (fun v holds => ⟨trivial, holds.1.stream⟩) ?_
    · rintro e v v' ⟨even, none⟩ _ prints
      exact ⟨prints.even even, prints.open_eq.trans none⟩
    rintro v _ _ ⟨even, none⟩ rfl
    exact ⟨clean, ⟨even.stream, even.stuck⟩, none⟩
  · intro sent
    have left : (v.send ret).printed = (v.send ret).sent ∧ (v.send ret).buffer ≠ [] ∧ (v.send ret).currsock = sock ∧
        (v.send ret).open_ = [sock] ∧ (v.send ret).failed = false := by
      rw [NetWorld.send, if_neg sent]
      exact ⟨served.stream, full, served.current, served.only, served.fine⟩
    refine wp_net (P := fun v => v.printed = v.sent ∧ v.buffer ≠ [] ∧ v.currsock = sock ∧ v.open_ = [sock] ∧ v.failed = false)
      left ?_ (fun v holds => ⟨trivial, holds.1⟩) ?_
    · rintro e v v' ⟨_, full, _⟩ _ prints
      exact absurd prints.free full
    rintro v _ _ ⟨stream, _, current, only, fine⟩ rfl
    apply wp_receive clean
    refine ⟨⟨⟨?_, fun failed => absurd (failed.symm.trans fine) (by decide)⟩, current, only⟩, fine⟩
    show v.printed = v.sent ++ []
    rw [stream, List.append_nil]

theorem wp_serve (clean : s.Clean) (served : Served sock w) : (serve servsock sock s).wp (amidPrints servsock) ServerInv w := by
  refine wp_net served (fun _ _ _ served _ prints => prints.served served) (fun v served => ⟨trivial, served.stream⟩) ?_
  rintro _ size v served ⟨rfl, rfl⟩
  refine Prog.wp_ite ?_ fun _ => wp_receive clean served
  intro some
  apply wp_sendBuffer clean served
  rintro free
  exact some (congrArg List.length free)

theorem wp_startServer {a : Server} (holds : ServerInv a w) :
    (startServer servsock prompt a).wp (amidPrints servsock) ServerInv w := by
  cases a with
  | accepting s =>
      obtain ⟨clean, even, none⟩ := holds
      exact wp_acceptClient clean even none
  | printing sock s =>
      obtain ⟨clean, positive, joined⟩ := holds
      exact wp_printPrompt clean positive joined
  | serving sock s => exact wp_serve holds.1 holds.2
  | ended => exact holds

theorem Prints.serverInv {a : Server} {e : Bytes} {w w' : NetWorld} (prints : Prints e w w') (holds : ServerInv a w) :
    ServerInv a w' := by
  cases a with
  | accepting s =>
      obtain ⟨clean, even, none⟩ := holds
      exact ⟨clean, prints.even even, prints.open_eq.trans none⟩
  | printing sock s =>
      obtain ⟨clean, positive, joined⟩ := holds
      exact ⟨clean, positive, prints.joined joined⟩
  | serving sock s => exact ⟨holds.1, prints.served holds.2⟩
  | ended => exact prints.even holds

end

/-- A client that is always there and sends one letter over and over. -/
def answer : (q : NetCall) → NetWorld → q.Answer × NetWorld
  | .accept, w => if 5 ∈ w.open_ then (-1, w) else (5, { w with open_ := 5 :: w.open_ })
  | .setCurrsock sock, w => ((), { w with currsock := sock })
  | .sendWelcome _, w => ((), w)
  | .currsock, w => (w.currsock, w)
  | .size, w => (w.buffer.length, w)
  | .fill data, w => ((), { w with buffer := data, printed := w.printed ++ data })
  | .send _, w => (1, w.send 1)
  | .clearSize, w => ((), { w with buffer := [] })
  | .close sock, w => ((), w.close sock)
  | .recv _, w => ((1, 97), w)
  | .psplinkParseCommand _, w => (0, w)
  | .psplinkExitShell, w => ((), w)

theorem answer_post (q : NetCall) (w : NetWorld) : netPost w q (answer q w).1 (answer q w).2 := by
  cases q with
  | accept =>
      by_cases taken : (5 : Int) ∈ w.open_
      · have answered : answer .accept w = (-1, w) := if_pos taken
        rw [answered]
        exact Or.inl ⟨(by decide : (-1 : Int) < 0), rfl⟩
      · have answered : answer .accept w = (5, { w with open_ := 5 :: w.open_ }) := if_neg taken
        rw [answered]
        exact Or.inr ⟨(by decide : (0 : Int) ≤ 5), taken, rfl⟩
  | currsock => exact ⟨rfl, rfl⟩
  | size => exact ⟨rfl, rfl⟩
  | _ => exact rfl

def netStart : NetWorld := ⟨-1, [], [], [], false, []⟩

def noLine : Cli := ⟨[], 0⟩

def greeted : NetWorld :=
  (Prog.interp answer (startServer 3 (ascii "> ") (.printing 5 noLine))
    (Prog.interp answer (startServer 3 (ascii "> ") (.accepting noLine)) netStart).2).2

end Psplink.Shell.NetShell
