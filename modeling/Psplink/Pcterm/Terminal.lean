import Psplink.Lib.Interference
import Psplink.Lib.Packed

/-!
# The terminal on the PC

`shell` of pcterm/pcterm.c with the functions it calls: the socket to the PSP over attempts, connections and failures, and
what is written to it. The prompts, the history and what is shown are left out, and a line for the host itself (behind an
exclamation mark) does nothing here.
-/

namespace Psplink.Pcterm.Terminal
open Psplink.Lib

/-! ## The terminal -/

inductive State
  | idle
  | connecting
  | connected
  deriving DecidableEq

inductive Key
  | reset
  | step
  | skip

inductive Input
  | nothing
  | line (buf : Bytes)
  | key (k : Key)

inductive Attempt
  | done
  | inProgress
  | failed

inductive SockError
  | failed
  | error
  | none

inductive Selected
  | failed (interrupted : Bool)
  | ready (reads writes : Int → Bool)

/-- `put` is a `write` of one byte whose result is not looked at. -/
inductive TermCall
  | open_
  | socket
  | connect (sock : Int)
  | select (reads writes : Int → Bool)
  | rlCallbackReadChar
  | readSocket (sock : Int)
  | getsockopt (sock : Int)
  | write (sock : Int) (data : Bytes)
  | put (sock : Int) (ch : UInt8)
  | close (sock : Int)

@[reducible] def TermCall.Answer : TermCall → Type
  | .open_ | .socket | .write .. => Int
  | .connect _ => Attempt
  | .select .. => Selected
  | .rlCallbackReadChar => Input
  | .readSocket _ => Bool
  | .getsockopt _ => SockError
  | _ => Unit

abbrev Term := Prog TermCall TermCall.Answer

structure Args where
  serialmode : Bool
  retries : Nat

/-- The part of `g_context` that the loop works on. -/
structure Context where
  state : State
  sock : Int
  connSanity : Nat
  exit : Bool
  readsave : Int → Bool
  writesave : Int → Bool

inductive Turn
  | running (g : Context)
  | left

def newline : UInt8 := 10

def Key.name : Key → Bytes
  | .reset => ascii "reset"
  | .step => ascii "step"
  | .skip => ascii "skip"

def Key.ctrl : Key → UInt8
  | .reset => 18
  | .step => 19
  | .skip => 11

/-- A write that does not fail writes a byte at least; one that is interrupted is made again. -/
def fixedWriteLoop (sock : Int) : (turns : Nat) → Bytes → Term Bool
  | 0, _ => return true
  | turns + 1, rest => do
      if rest = [] then return true
      let ret ← Prog.call (TermCall.write sock rest)
      if ret < 0 then return false
      fixedWriteLoop sock turns (rest.drop ret.toNat)

def fixedWrite (sock : Int) (buf : Bytes) : Term Bool := fixedWriteLoop sock buf.length buf

def hangUp (g : Context) : Term Context := do
  Prog.call (TermCall.close g.sock)
  return { g with sock := -1, state := .idle }

/-- One of the two writes of a line; the second is made even when the first has failed. -/
def writeOrHangUp (g : Context) (buf : Bytes) : Term Context := do
  let ok ← fixedWrite g.sock buf
  if ok then return g else hangUp g

def executeLine (g : Context) (buf : Bytes) : Term Context :=
  if g.state = .connected then do
    let g ← writeOrHangUp g buf
    writeOrHangUp g [newline]
  else return g

def cliHandler (g : Context) (buf : Bytes) : Term Context :=
  if buf = [] then return g
  else if buf = ascii "exit" ∨ buf = ascii "quit" then executeLine { g with exit := true } buf
  else if buf = ascii "close" then return { g with exit := true }
  else if buf.head? = some 33 then return g
  else executeLine g buf

section
variable (args : Args)

def cliKey (g : Context) (k : Key) : Term Context :=
  if args.serialmode then
    if 0 ≤ g.sock then do
      Prog.call (TermCall.put g.sock k.ctrl)
      return g
    else return g
  else executeLine g k.name

def onInput (g : Context) : Input → Term Context
  | .nothing => return g
  | .line buf => cliHandler g buf
  | .key k => cliKey args g k

def Context.join (g : Context) (sock : Int) : Context :=
  { g with state := .connected, sock := sock, readsave := Function.update g.readsave sock true }

def onSocket (g : Context) (sock : Int) : Term (Bool × Context) := do
  match ← Prog.call (TermCall.connect sock) with
  | .failed => return (false, { g with sock := sock })
  | .inProgress =>
      return (true, { g with state := .connecting, sock := sock, writesave := Function.update g.writesave sock true })
  | .done => return (true, g.join sock)

def onIdle (g : Context) : Term (Bool × Context) :=
  if args.serialmode then do
    let sock ← Prog.call TermCall.open_
    if sock < 0 then return (false, { g with sock := sock })
    else do
      Prog.call (TermCall.put sock newline)
      return (true, g.join sock)
  else do
    let sock ← Prog.call TermCall.socket
    if sock < 0 then return (false, { g with sock := sock }) else onSocket g sock

/-- The end of `main`. -/
def leave (g : Context) : Term Turn :=
  if 0 ≤ g.sock then do
    Prog.call (TermCall.close g.sock)
    return .left
  else return .left

def onConnecting (g : Context) : Term Turn := do
  match ← Prog.call (TermCall.getsockopt g.sock) with
  | .failed => leave g
  | .error =>
      if args.retries ≤ g.connSanity then leave g
      else do
        Prog.call (TermCall.close g.sock)
        return .running { g with connSanity := g.connSanity + 1, sock := -1, state := .idle }
  | .none =>
      Prog.call (TermCall.put g.sock newline)
      return .running { g.join g.sock with connSanity := 0, writesave := Function.update g.writesave g.sock false }

def onRead (g : Context) (reads : Int → Bool) : Term Context :=
  if g.state = .connected ∧ reads g.sock then do
    let ok ← Prog.call (TermCall.readSocket g.sock)
    if ok then return g else hangUp g
  else return g

def onWrite (g : Context) (writes : Int → Bool) : Term Turn :=
  if g.state = .connecting ∧ writes g.sock then onConnecting args g else return .running g

def onTerminal (g : Context) (reads : Int → Bool) : Term Context :=
  if reads 0 then do
    let input ← Prog.call TermCall.rlCallbackReadChar
    onInput args g input
  else return g

def onReady (g : Context) (reads writes : Int → Bool) : Term Turn := do
  let g ← onTerminal args g reads
  let g ← onRead g reads
  onWrite args g writes

def poll (g : Context) : Term Turn := do
  match ← Prog.call (TermCall.select g.readsave g.writesave) with
  | .failed interrupted => if interrupted then return .running g else leave g
  | .ready reads writes => onReady args g reads writes

def begin_ (g : Context) : Term Turn :=
  if g.state = .idle then do
    let (ok, g) ← onIdle args g
    if ok then poll args g else leave g
  else poll args g

def shell : Turn → Term Turn
  | .left => return .left
  | .running g => if g.exit then leave g else begin_ args g

end

def startContext : Context := ⟨.idle, -1, 0, false, fun fd => decide (fd = 0), fun _ => false⟩

/-! ## The world -/

/-- A socket that is open, and whether it is connected. -/
structure Conn where
  sock : Int
  up : Bool
  deriving DecidableEq

/-- What has been written over the connection, and what the lines typed since it is up and the single bytes come to. -/
structure World where
  conn : Option Conn
  said : Bytes
  typed : Bytes

/-- What is to be sent of an input. -/
def Input.text (serialmode : Bool) : Input → Bytes
  | .nothing => []
  | .line buf =>
      if buf = [] ∨ buf = ascii "close" ∨ buf.head? = some 33 then [] else buf ++ [newline]
  | .key k => if serialmode then [] else k.name ++ [newline]

namespace World

def opens (sock : Int) (up : Bool) : World := ⟨some ⟨sock, up⟩, [], []⟩

def Up (w : World) (sock : Int) : Prop := w.conn = some ⟨sock, true⟩

def say (w : World) (data : Bytes) : World := { w with said := w.said ++ data }

def put (w : World) (ch : UInt8) : World := { w with said := w.said ++ [ch], typed := w.typed ++ [ch] }

def input (w : World) (text : Bytes) : World := { w with typed := w.typed ++ text }

/-- Nothing happens to a socket that is not open. -/
def close (w : World) (sock : Int) : World :=
  if w.conn.map Conn.sock = some sock then { w with conn := none } else w

end World

section
variable (args : Args)

def termPost (w : World) : (q : TermCall) → q.Answer → World → Prop
  | .open_, sock, w' => sock < 0 ∧ w' = w ∨ 0 < sock ∧ w' = World.opens sock true
  | .socket, sock, w' => sock < 0 ∧ w' = w ∨ 0 < sock ∧ w' = World.opens sock false
  | .connect sock, .done, w' => w' = World.opens sock true
  | .connect _, _, w' => w' = w
  | .select .., _, w' => w' = w
  | .rlCallbackReadChar, input, w' => w' = w.input (input.text args.serialmode)
  | .readSocket _, _, w' => w' = w
  | .getsockopt sock, .none, w' => w' = World.opens sock true
  | .getsockopt _, _, w' => w' = w
  | .write sock data, ret, w' => ret < 0 ∧ w' = w ∨
      w.Up sock ∧ ∃ n : Nat, 0 < n ∧ n ≤ data.length ∧ ret = n ∧ w' = w.say (data.take n)
  | .put sock ch, _, w' => w' = w ∨ w.Up sock ∧ w' = w.put ch
  | .close sock, _, w' => w' = w.close sock

/-- A line that is typed while the connection is not up is not for it. -/
def termRules (w : World) : TermCall → Prop
  | .open_ => args.serialmode = true ∧ w.conn = none
  | .socket => args.serialmode = false ∧ w.conn = none
  | .connect sock => w.conn = some ⟨sock, false⟩
  | .select reads writes => reads 0 = true ∧ ∃ c, w.conn = some c ∧
      (c.up = true → reads c.sock = true ∧ w.said = w.typed) ∧ (c.up = false → writes c.sock = true)
  | .readSocket sock => w.Up sock ∧ w.said = w.typed
  | .getsockopt sock => w.conn = some ⟨sock, false⟩
  | .write sock _ => w.Up sock ∨ sock = -1
  | .put sock _ => w.Up sock
  | .close sock => w.conn.map Conn.sock = some sock ∨ sock = -1
  | .rlCallbackReadChar => True

end

/-! ## What holds of the context -/

section
variable {args : Args}

/-- `text` is what has still to be written of what has been typed. -/
structure Owing (args : Args) (text : Bytes) (g : Context) (w : World) : Prop where
  stdin : g.readsave 0 = true
  sanity : g.connSanity ≤ args.retries
  serial : args.serialmode = true → g.state ≠ .connecting
  idle : g.state = .idle → g.sock = -1 ∧ w.conn = none
  connecting : g.state = .connecting → w.conn = some ⟨g.sock, false⟩ ∧ 0 < g.sock ∧ g.writesave g.sock = true
  connected : g.state = .connected → w.Up g.sock ∧ 0 < g.sock ∧ g.readsave g.sock = true ∧ w.typed = w.said ++ text

abbrev Steady (args : Args) (g : Context) (w : World) : Prop := Owing args [] g w

def TurnInv (args : Args) : Turn → World → Prop
  | .running g, w => Steady args g w
  | .left, w => w.conn = none

def pcterm (args : Args) : Prog.Contract TermCall TermCall.Answer World := ⟨termRules args, termPost args⟩

variable {g : Context} {w : World} {text rest : Bytes}

theorem Owing.other (owing : Owing args text g w) (other : g.state ≠ .connected) : Owing args rest g w where
  stdin := owing.stdin
  sanity := owing.sanity
  serial := owing.serial
  idle := owing.idle
  connecting := owing.connecting
  connected bad := absurd bad other

/-- The socket is closed and given up. -/
theorem Owing.hangUp (owing : Owing args text g w) {w' : World} (none : w'.conn = none) :
    Steady args { g with sock := -1, state := .idle } w' where
  stdin := owing.stdin
  sanity := owing.sanity
  serial _ := by simp
  idle _ := ⟨rfl, none⟩
  connecting bad := by contradiction
  connected bad := by contradiction

theorem wp_fixedWriteLoop {sock : Int} {turns : Nat} {buf : Bytes} (enough : buf.length ≤ turns)
    (open_ : w.Up sock ∨ sock = -1) :
    (fixedWriteLoop sock turns buf).wp (pcterm args)
      (fun ok w' => w'.conn = w.conn ∧ w'.typed = w.typed ∧ (ok = true → w'.said = w.said ++ buf)) w := by
  induction turns generalizing buf w with
  | zero =>
      obtain rfl : buf = [] := List.eq_nil_of_length_eq_zero (Nat.le_zero.mp enough)
      exact ⟨rfl, rfl, fun _ => (List.append_nil _).symm⟩
  | succ turns ih =>
      rw [fixedWriteLoop]
      refine Prog.wp_ite ?_ ?_
      · rintro rfl
        exact ⟨rfl, rfl, fun _ => (List.append_nil _).symm⟩
      intro _
      refine ⟨open_, ?_⟩
      intro ret w' answered
      refine Prog.wp_ite ?_ ?_
      · intro failed
        rcases answered with ⟨_, rfl⟩ | ⟨_, n, _, _, rfl, _⟩
        · exact ⟨rfl, rfl, fun bad => by contradiction⟩
        · exact absurd failed (by simp)
      intro wrote
      rcases answered with ⟨failed, _⟩ | ⟨up, n, some, most, rfl, rfl⟩
      · contradiction
      refine Prog.wp_mono ?_ (ih (by rw [List.length_drop]; omega) (Or.inl up))
      rintro ok w' ⟨conn, typed, said⟩
      refine ⟨conn, typed, ?_⟩
      intro done
      rw [said done, World.say, List.append_assoc]
      exact congrArg _ (List.take_append_drop n buf)

theorem World.close_conn {w : World} {sock : Int} (place : w.conn.map Conn.sock = some sock ∨ w.conn = none) :
    (w.close sock).conn = none := by
  unfold World.close
  split
  · rfl
  · next other => exact place.resolve_left other

theorem wp_writeOrHangUp {buf : Bytes} (owing : Owing args (buf ++ rest) g w) (apart : g.state ≠ .connecting) :
    (writeOrHangUp g buf).wp (pcterm args) (fun g' w' => Owing args rest g' w' ∧ g'.state ≠ .connecting) w := by
  have open_ : w.Up g.sock ∨ g.sock = -1 ∧ w.conn = none := by
    cases state : g.state with
    | idle => exact Or.inr (owing.idle state)
    | connecting => contradiction
    | connected => exact Or.inl (owing.connected state).1
  refine (Prog.wp_bind _ _ _ _).2 (Prog.wp_mono ?_ (wp_fixedWriteLoop (Nat.le_refl _) (open_.imp_right And.left)))
  rintro ok w' ⟨conn, typed, said⟩
  have place : w'.conn.map Conn.sock = some g.sock ∨ g.sock = -1 ∧ w'.conn = none := by
    rw [conn]
    rcases open_ with up | none
    · rw [up]
      exact Or.inl rfl
    · exact Or.inr none
  refine Prog.wp_ite ?_ ?_
  · intro done
    refine ⟨⟨owing.stdin, owing.sanity, owing.serial, ?_, fun bad => absurd bad apart, ?_⟩, apart⟩
    · intro idle
      rw [conn]
      exact owing.idle idle
    · intro state
      obtain ⟨up, positive, saved, same⟩ := owing.connected state
      refine ⟨conn.trans up, positive, saved, ?_⟩
      rw [typed, said done, same, List.append_assoc]
  · intro _
    refine ⟨place.imp_right And.left, ?_⟩
    rintro _ _ rfl
    have none := World.close_conn (place.imp_right And.right)
    exact ⟨(owing.hangUp none).other (by simp), by simp⟩

/-- A line goes out whole, or the connection is given up. -/
theorem wp_executeLine {buf : Bytes} (owing : Owing args (buf ++ [newline]) g w) :
    (executeLine g buf).wp (pcterm args) (Steady args) w := by
  refine Prog.wp_ite ?_ ?_
  · intro connected
    have apart : g.state ≠ .connecting := by
      rw [connected]
      decide
    refine (Prog.wp_bind _ _ _ _).2 (Prog.wp_mono ?_ (wp_writeOrHangUp owing apart))
    rintro g' w' ⟨owing', apart'⟩
    have last : Owing args ([newline] ++ []) g' w' := owing'
    exact Prog.wp_mono (fun _ _ holds => holds.1) (wp_writeOrHangUp last apart')
  · intro other
    exact owing.other other

theorem Owing.leaving (owing : Owing args text g w) : Owing args text { g with exit := true } w :=
  ⟨owing.stdin, owing.sanity, owing.serial, owing.idle, owing.connecting, owing.connected⟩

theorem wp_cliHandler {buf : Bytes} (owing : Owing args ((Input.line buf).text args.serialmode) g w) :
    (cliHandler g buf).wp (pcterm args) (Steady args) w := by
  unfold cliHandler
  simp only [Input.text] at owing
  refine Prog.wp_ite ?_ ?_
  · intro empty
    rwa [if_pos (Or.inl empty)] at owing
  intro some
  refine Prog.wp_ite ?_ ?_
  · intro exit
    have sends : ¬ (buf = [] ∨ buf = ascii "close" ∨ buf.head? = Option.some 33) := by
      rcases exit with rfl | rfl
      · decide
      · decide
    rw [if_neg sends] at owing
    exact wp_executeLine owing.leaving
  intro _
  refine Prog.wp_ite ?_ ?_
  · intro close
    rw [if_pos (Or.inr (Or.inl close))] at owing
    exact owing.leaving
  intro open_
  refine Prog.wp_ite ?_ ?_
  · intro local_
    rwa [if_pos (Or.inr (Or.inr local_))] at owing
  intro remote
  rw [if_neg (by simp [some, open_, remote])] at owing
  exact wp_executeLine owing

theorem wp_cliKey {k : Key} (owing : Owing args ((Input.key k).text args.serialmode) g w) :
    (cliKey args g k).wp (pcterm args) (Steady args) w := by
  unfold cliKey
  simp only [Input.text] at owing
  refine Prog.wp_ite ?_ ?_
  · intro serial
    rw [if_pos serial] at owing
    refine Prog.wp_ite ?_ fun _ => owing
    intro positive
    have connected : g.state = .connected := by
      cases state : g.state with
      | idle =>
          rw [(owing.idle state).1] at positive
          exact absurd positive (by decide)
      | connecting => exact absurd state (owing.serial serial)
      | connected => rfl
    obtain ⟨up, above, saved, same⟩ := owing.connected connected
    refine ⟨up, ?_⟩
    rintro _ w' (rfl | ⟨_, rfl⟩)
    · exact owing
    · refine ⟨owing.stdin, owing.sanity, owing.serial, ?_, ?_, fun _ => ⟨up, above, saved, ?_⟩⟩
      · intro bad
        rw [connected] at bad
        contradiction
      · intro bad
        rw [connected] at bad
        contradiction
      · rw [List.append_nil] at same
        rw [World.put, same, List.append_nil]
  · intro serial
    rw [if_neg serial] at owing
    exact wp_executeLine owing

theorem wp_onTerminal {reads : Int → Bool} (steady : Steady args g w) :
    (onTerminal args g reads).wp (pcterm args) (Steady args) w := by
  refine Prog.wp_ite ?_ fun _ => steady
  intro _
  refine ⟨trivial, ?_⟩
  rintro input _ rfl
  have owing : Owing args (input.text args.serialmode) g (w.input (input.text args.serialmode)) := by
    refine ⟨steady.stdin, steady.sanity, steady.serial, steady.idle, steady.connecting, ?_⟩
    intro connected
    obtain ⟨up, above, saved, same⟩ := steady.connected connected
    refine ⟨up, above, saved, ?_⟩
    rw [World.input, same, List.append_nil]
  cases input with
  | nothing => exact owing
  | line buf => exact wp_cliHandler owing
  | key k => exact wp_cliKey owing

theorem wp_onRead {reads : Int → Bool} (steady : Steady args g w) : (onRead g reads).wp (pcterm args) (Steady args) w := by
  refine Prog.wp_ite ?_ fun _ => steady
  rintro ⟨connected, _⟩
  obtain ⟨up, _, _, same⟩ := steady.connected connected
  have open_ : w.conn.map Conn.sock = some g.sock := by
    rw [up]
    rfl
  refine ⟨⟨up, by rw [same, List.append_nil]⟩, ?_⟩
  rintro ok _ rfl
  refine Prog.wp_ite (fun _ => steady) ?_
  intro _
  refine ⟨Or.inl open_, ?_⟩
  rintro _ _ rfl
  exact steady.hangUp (World.close_conn (Or.inl open_))

/-- What is left to `main`. -/
def Leaving (g : Context) (w : World) : Prop :=
  w.conn = none ∧ g.sock < 0 ∨ w.conn.map Conn.sock = some g.sock ∧ 0 ≤ g.sock

theorem Owing.toLeaving (owing : Owing args text g w) : Leaving g w := by
  cases state : g.state with
  | idle =>
      obtain ⟨sock, none⟩ := owing.idle state
      exact Or.inl ⟨none, by rw [sock]; decide⟩
  | connecting =>
      obtain ⟨conn, positive, _⟩ := owing.connecting state
      exact Or.inr ⟨by rw [conn]; rfl, by omega⟩
  | connected =>
      obtain ⟨up, positive, _⟩ := owing.connected state
      exact Or.inr ⟨by rw [up]; rfl, by omega⟩

theorem wp_leave (leaving : Leaving g w) : (leave g).wp (pcterm args) (TurnInv args) w := by
  refine Prog.wp_ite ?_ ?_
  · intro positive
    have open_ : w.conn.map Conn.sock = some g.sock := by
      rcases leaving with ⟨_, negative⟩ | ⟨open_, _⟩
      · omega
      · exact open_
    refine ⟨Or.inl open_, ?_⟩
    rintro _ _ rfl
    exact World.close_conn (Or.inl open_)
  · intro negative
    rcases leaving with ⟨none, _⟩ | ⟨_, positive⟩
    · exact none
    · contradiction

theorem wp_onConnecting (steady : Steady args g w) (state : g.state = .connecting) :
    (onConnecting args g).wp (pcterm args) (TurnInv args) w := by
  obtain ⟨conn, positive, saved⟩ := steady.connecting state
  have open_ : w.conn.map Conn.sock = some g.sock := by
    rw [conn]
    rfl
  refine ⟨conn, ?_⟩
  intro err w' answered
  cases err with
  | failed =>
      cases answered
      exact wp_leave steady.toLeaving
  | error =>
      cases answered
      refine Prog.wp_ite (fun _ => wp_leave steady.toLeaving) ?_
      intro again
      refine ⟨Or.inl open_, ?_⟩
      rintro _ _ rfl
      have steady' := steady.hangUp (World.close_conn (Or.inl open_))
      exact ⟨steady.stdin, Nat.lt_of_not_le again, steady'.serial, steady'.idle, steady'.connecting, steady'.connected⟩
  | none =>
      cases answered
      have stdin : Function.update g.readsave g.sock true 0 = true := by
        rw [Function.update_apply, steady.stdin, ite_self]
      refine ⟨rfl, ?_⟩
      rintro _ w' answered
      have same : w'.Up g.sock ∧ w'.typed = w'.said := by
        rcases answered with rfl | ⟨_, rfl⟩
        · exact ⟨rfl, rfl⟩
        · exact ⟨rfl, rfl⟩
      refine ⟨stdin, Nat.zero_le _, fun _ => by simp [Context.join], fun bad => by contradiction, fun bad => by contradiction, ?_⟩
      intro _
      exact ⟨same.1, positive, Function.update_self _ _ _, same.2.trans (List.append_nil _).symm⟩

theorem wp_onReady {reads writes : Int → Bool} (steady : Steady args g w) :
    (onReady args g reads writes).wp (pcterm args) (TurnInv args) w := by
  refine (Prog.wp_bind _ _ _ _).2 (Prog.wp_mono ?_ (wp_onTerminal steady))
  intro g₁ w₁ steady₁
  refine (Prog.wp_bind _ _ _ _).2 (Prog.wp_mono ?_ (wp_onRead steady₁))
  intro g₂ w₂ steady₂
  refine Prog.wp_ite ?_ fun _ => steady₂
  rintro ⟨state, _⟩
  exact wp_onConnecting steady₂ state

theorem wp_poll (steady : Steady args g w) (busy : g.state ≠ .idle) : (poll args g).wp (pcterm args) (TurnInv args) w := by
  have watched : ∃ c, w.conn = some c ∧ (c.up = true → g.readsave c.sock = true ∧ w.said = w.typed) ∧
      (c.up = false → g.writesave c.sock = true) := by
    cases state : g.state with
    | idle => contradiction
    | connecting =>
        obtain ⟨conn, _, saved⟩ := steady.connecting state
        exact ⟨_, conn, fun bad => by contradiction, fun _ => saved⟩
    | connected =>
        obtain ⟨up, _, saved, same⟩ := steady.connected state
        exact ⟨_, up, fun _ => ⟨saved, by rw [same, List.append_nil]⟩, fun bad => by contradiction⟩
  refine ⟨⟨steady.stdin, watched⟩, ?_⟩
  rintro selected _ rfl
  cases selected with
  | failed interrupted => exact Prog.wp_ite (fun _ => steady) fun _ => wp_leave steady.toLeaving
  | ready reads writes => exact wp_onReady steady

/-- The connection is under way, or `main` is left with what there is of it. -/
def Tried (args : Args) (tried : Bool × Context) (w : World) : Prop :=
  if tried.1 then Steady args tried.2 w ∧ tried.2.state ≠ .idle else Leaving tried.2 w

theorem Owing.joins (owing : Owing args text g w) {sock : Int} (positive : 0 < sock) {w' : World} (up : w'.Up sock)
    (same : w'.typed = w'.said) : Steady args (g.join sock) w' where
  stdin := by
    show Function.update g.readsave sock true 0 = true
    rw [Function.update_apply, owing.stdin, ite_self]
  sanity := owing.sanity
  serial _ := by simp [Context.join]
  idle bad := by contradiction
  connecting bad := by contradiction
  connected _ := ⟨up, positive, Function.update_self _ _ _, same.trans (List.append_nil _).symm⟩

theorem wp_onIdle (steady : Steady args g w) (idle : g.state = .idle) :
    (onIdle args g).wp (pcterm args) (Tried args) w := by
  obtain ⟨_, none⟩ := steady.idle idle
  refine Prog.wp_ite ?_ ?_
  · intro serial
    refine ⟨⟨serial, none⟩, ?_⟩
    intro sock w' answered
    refine Prog.wp_ite ?_ ?_
    · intro failed
      rcases answered with ⟨_, rfl⟩ | ⟨positive, _⟩
      · exact Or.inl ⟨none, failed⟩
      · exact absurd failed (Int.not_lt.mpr (Int.le_of_lt positive))
    intro opened
    rcases answered with ⟨failed, _⟩ | ⟨positive, rfl⟩
    · contradiction
    refine ⟨rfl, ?_⟩
    rintro _ w' answered
    have same : w'.Up sock ∧ w'.typed = w'.said := by
      rcases answered with rfl | ⟨_, rfl⟩
      · exact ⟨rfl, rfl⟩
      · exact ⟨rfl, rfl⟩
    exact ⟨steady.joins positive same.1 same.2, by simp [Context.join]⟩
  · intro network
    refine ⟨⟨by simpa using network, none⟩, ?_⟩
    intro sock w' answered
    refine Prog.wp_ite ?_ ?_
    · intro failed
      rcases answered with ⟨_, rfl⟩ | ⟨positive, _⟩
      · exact Or.inl ⟨none, failed⟩
      · exact absurd failed (Int.not_lt.mpr (Int.le_of_lt positive))
    intro opened
    rcases answered with ⟨failed, _⟩ | ⟨positive, rfl⟩
    · contradiction
    refine ⟨rfl, ?_⟩
    intro attempt w' answered
    cases attempt with
    | done =>
        cases answered
        exact ⟨steady.joins positive rfl rfl, by simp [Context.join]⟩
    | inProgress =>
        cases answered
        refine ⟨⟨steady.stdin, steady.sanity, fun bad => absurd bad network, fun bad => by contradiction, ?_,
          fun bad => by contradiction⟩, by simp⟩
        intro _
        exact ⟨rfl, positive, Function.update_self _ _ _⟩
    | failed =>
        cases answered
        exact Or.inr ⟨rfl, Int.le_of_lt positive⟩

theorem wp_shell {a : Turn} (holds : TurnInv args a w) : (shell args a).wp (pcterm args) (TurnInv args) w := by
  cases a with
  | left => exact holds
  | running g =>
      refine Prog.wp_ite (fun _ => wp_leave holds.toLeaving) ?_
      intro _
      refine Prog.wp_ite ?_ fun busy => wp_poll holds busy
      intro idle
      refine (Prog.wp_bind _ _ _ _).2 (Prog.wp_mono ?_ (wp_onIdle holds idle))
      rintro ⟨ok, g'⟩ w' tried
      cases ok with
      | true => exact wp_poll tried.1 tried.2
      | false => exact wp_leave tried

/-- The terminal without any connection yet. -/
def terminal (args : Args) : System (Term Turn × World) Unit :=
  Prog.server (pcterm args) (shell args) (.running startContext) fun w => w.conn = none

end

/-! ## A line -/

def network : Args := ⟨false, 3⟩

/-- The PSP is there, and a line is typed at once. -/
def answer : (q : TermCall) → World → q.Answer × World
  | .open_, w => (-1, w)
  | .socket, _ => (3, World.opens 3 false)
  | .connect sock, _ => (.done, World.opens sock true)
  | .select .., w => (.ready (fun fd => decide (fd = 0)) fun _ => false, w)
  | .rlCallbackReadChar, w => (.line (ascii "ls"), w.input (ascii "ls" ++ [newline]))
  | .readSocket _, w => (true, w)
  | .getsockopt _, w => (.failed, w)
  | .write sock data, w =>
      if w.conn = some ⟨sock, true⟩ ∧ 0 < data.length then (data.length, w.say data) else (-1, w)
  | .put _ _, w => ((), w)
  | .close sock, w => ((), w.close sock)

theorem answer_post (q : TermCall) (w : World) : termPost network w q (answer q w).1 (answer q w).2 := by
  cases q with
  | open_ => exact Or.inl ⟨(by decide : (-1 : Int) < 0), rfl⟩
  | socket => exact Or.inr ⟨(by decide : (0 : Int) < 3), rfl⟩
  | write sock data =>
      by_cases whole : w.conn = some ⟨sock, true⟩ ∧ 0 < data.length
      · have answered : answer (.write sock data) w = ((data.length : Int), w.say data) := if_pos whole
        rw [answered]
        refine Or.inr ⟨whole.1, data.length, whole.2, Nat.le_refl _, rfl, ?_⟩
        rw [List.take_length]
      · have answered : answer (.write sock data) w = (-1, w) := if_neg whole
        rw [answered]
        exact Or.inl ⟨(by decide : (-1 : Int) < 0), rfl⟩
  | put => exact Or.inl rfl
  | _ => exact rfl

/-- After one turn of the loop. -/
def typedOnce : Turn × World := Prog.interp answer (shell network (.running startContext)) ⟨none, [], []⟩

end Psplink.Pcterm.Terminal
