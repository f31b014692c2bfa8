import Psplink.HostFs.AsyncRings
import Psplink.Lib.Interference

/-!
# The relay of the async channels

`async_thread` of usbhostfs_pc/main.c: the sockets of the channels, the set it selects on and what it
passes on to the PSP. The file descriptors that are its own, and the bytes that it has read and not
yet dealt with, are recorded beside the globals. What it prints is left out.
-/

namespace Psplink.HostFs
open Psplink.Lib

/-! ## The thread -/

/-- `terminal` is a line from the standard input to the shell. -/
inductive RelayCall
  | select (nfds : Nat) (set : Nat → Bool)
  | terminal
  | clientSock (i : Channel)
  | setClientSock (i : Channel) (sock : Option Nat)
  | accept (sock : Nat)
  | close (fd : Nat)
  | read (fd size : Nat)
  | parseShell (text : Bytes)
  | device
  | bulkWrite (buf : Bytes)

/-- Of the descriptors that are ready. A negative socket is `none`; so is a failed call. -/
@[reducible] def RelayCall.Answer : RelayCall → Type
  | .select .. => Option (Nat → Bool)
  | .clientSock _ | .accept _ => Option Nat
  | .read .. => Option Bytes
  | .device => Bool
  | _ => Unit

abbrev Relay := Prog RelayCall RelayCall.Answer

/-- `read_save` and `max_fd`. -/
structure Watched where
  readSave : Nat → Bool
  maxFd : Nat

def Watched.clear (r : Watched) (fd : Nat) : Watched := { r with readSave := Function.update r.readSave fd false }

def Watched.add (r : Watched) (fd : Nat) : Watched where
  readSave := Function.update r.readSave fd true
  maxFd := max r.maxFd fd

theorem Watched.clear_readSave (r : Watched) (fd other : Nat) :
    (r.clear fd).readSave other = if other = fd then false else r.readSave other :=
  Function.update_apply _ _ _ _

theorem Watched.add_readSave (r : Watched) (fd other : Nat) :
    (r.add fd).readSave other = if other = fd then true else r.readSave other :=
  Function.update_apply _ _ _ _

def asyncRoom : Nat := 512 - sizeof AsyncCommand

def pack (i : Channel) (data : Bytes) : Bytes :=
  encode (⟨asyncMagic, BitVec.ofNat 32 i.val⟩ : AsyncCommand) ++ data

/-- A local command, as it stands in the buffer behind its first byte. -/
def localCommand (data : Bytes) : Bytes := ((data.take (asyncRoom - 1)).drop 1).takeWhile (· ≠ 0)

def hangUp (r : Watched) (i : Channel) : Relay Watched := do
  match ← Prog.call (RelayCall.clientSock i) with
  | none => return r
  | some fd =>
      Prog.call (RelayCall.close fd)
      return r.clear fd

variable (servsocks : Channel → Option Nat) (daemon : Bool)

def acceptClient (ready : Nat → Bool) (r : Watched) (i : Channel) : Relay Watched :=
  match servsocks i with
  | none => return r
  | some serv =>
      if ready serv then do
        let r ← hangUp r i
        let sock ← Prog.call (RelayCall.accept serv)
        Prog.call (RelayCall.setClientSock i sock)
        return (sock.map r.add).getD r
      else return r

def passOn (i : Channel) (data : Bytes) : Relay Unit :=
  if daemon = true ∧ i.val = asyncShell.toNat ∧ data.head? = some 64 then
    Prog.call (RelayCall.parseShell (localCommand data))
  else do
    if ← Prog.call RelayCall.device then Prog.call (RelayCall.bulkWrite (pack i data))
    else return ()

def serveClient (ready : Nat → Bool) (r : Watched) (i : Channel) : Relay Watched := do
  match ← Prog.call (RelayCall.clientSock i) with
  | none => return r
  | some fd =>
      if ready fd then
        let data := (← Prog.call (RelayCall.read fd asyncRoom)).getD []
        if data = [] then
          Prog.call (RelayCall.close fd)
          Prog.call (RelayCall.setClientSock i none)
          return r.clear fd
        else
          passOn daemon i data
          return r
      else return r

def forEach (body : Watched → Channel → Relay Watched) : List Channel → Watched → Relay Watched
  | [], r => return r
  | i :: rest, r => do forEach body rest (← body r i)

def atTerminal (ready : Nat → Bool) : Relay Unit :=
  if daemon = false ∧ ready 0 = true then Prog.call RelayCall.terminal else return ()

def serveAll (ready : Nat → Bool) (r : Watched) : Relay Watched := do
  atTerminal daemon ready
  let r ← forEach (acceptClient servsocks ready) (List.finRange maxAsyncChannels) r
  forEach (serveClient daemon ready) (List.finRange maxAsyncChannels) r

/-- A turn of the loop. -/
def asyncThread (r : Watched) : Relay Watched := do
  match ← Prog.call (RelayCall.select (r.maxFd + 1) r.readSave) with
  | none => return r
  | some ready => serveAll servsocks daemon ready r

/-- The set before the loop. -/
def startWatched : Watched :=
  (List.finRange maxAsyncChannels).foldl (fun r i => ((servsocks i).map r.add).getD r)
    (if daemon then ⟨fun _ => false, 0⟩ else ⟨Function.update (fun _ => false) 0 true, 0⟩)

/-! ## The sockets -/

/-- `pending`: bytes of a channel that have been read and not yet dealt with. -/
structure Sockets where
  client : Channel → Option Nat
  owned : Nat → Bool
  pending : Option (Channel × Bytes)

def Sockets.own (w : Sockets) (fd : Nat) (mine : Bool) : Sockets :=
  { w with owned := Function.update w.owned fd mine }

theorem Sockets.own_owned (w : Sockets) (fd : Nat) (mine : Bool) (other : Nat) :
    (w.own fd mine).owned other = if other = fd then mine else w.owned other :=
  Function.update_apply _ _ _ _

def relayPost (w : Sockets) (q : RelayCall) (a : q.Answer) (w' : Sockets) : Prop :=
  match q with
  | .select nfds set => w' = w ∧ ∀ ready, a = some ready → ∀ fd, ready fd = true → set fd = true ∧ fd < nfds
  | .terminal => w' = w
  | .clientSock i => a = w.client i ∧ w' = w
  | .setClientSock i sock => w' = { w with client := Function.update w.client i sock }
  | .accept _ => (a = none ∧ w' = w) ∨
      ∃ fd, a = some fd ∧ w.owned fd = false ∧ w' = w.own fd true
  | .close fd => w' = w.own fd false
  | .read fd size => (Option.getD a [] = [] ∧ w' = w) ∨
      ∃ data i, a = some data ∧ data ≠ [] ∧ data.length ≤ size ∧ w.client i = some fd ∧
        w' = { w with pending := some (i, data) }
  | .parseShell _ | .bulkWrite _ => w' = { w with pending := none }
  | .device => w' = if a then w else { w with pending := none }

/-- What the set has to watch. -/
def Watches (client : Channel → Option Nat) (fd : Nat) : Prop :=
  (daemon = false ∧ fd = 0) ∨ (∃ i, servsocks i = some fd) ∨ ∃ i, client i = some fd

/-- What the thread may do: it waits for all of its sockets and for nothing else, with nothing left to
pass on; it closes and reads its own sockets; it writes what it has just read. -/
def relayRules (w : Sockets) : RelayCall → Prop
  | .select nfds set => w.pending = none ∧ (∀ fd, set fd = true ↔ Watches servsocks daemon w.client fd) ∧
      (∀ fd, set fd = true → fd < nfds) ∧
      ∀ fd, w.owned fd = true ↔ fd = 0 ∨ (∃ i, servsocks i = some fd) ∨ ∃ i, w.client i = some fd
  | .accept sock => ∃ i, servsocks i = some sock
  | .close fd => w.owned fd = true ∧ fd ≠ 0 ∧ (∀ i, servsocks i ≠ some fd) ∧ w.pending = none
  | .read fd size => w.owned fd = true ∧ (∃ i, w.client i = some fd) ∧ size = asyncRoom ∧ w.pending = none
  | .parseShell text => daemon = true ∧ ∃ i data, w.pending = some (i, data) ∧ i.val = 0 ∧ data.head? = some 64 ∧
      text = localCommand data
  | .bulkWrite buf => ∃ i data, w.pending = some (i, data) ∧ data ≠ [] ∧ data.length ≤ asyncRoom ∧ buf = pack i data
  | _ => True

def relaySide (pre : Sockets → RelayCall → Prop) : Prog.Contract RelayCall RelayCall.Answer Sockets where
  pre := pre
  post := relayPost

structure Sockets.Starts (w : Sockets) : Prop where
  client : ∀ i, w.client i = none
  owned : ∀ fd, w.owned fd = true ↔ fd = 0 ∨ ∃ i, servsocks i = some fd
  pending : w.pending = none

def relay : System (Relay Watched × Sockets) Unit :=
  Prog.server (relaySide fun _ _ => True) (asyncThread servsocks daemon) (startWatched servsocks daemon)
    (Sockets.Starts servsocks)

/-! ## Sockets that are watched, owned and apart -/

/-- For the clients `c`, which the globals follow a step later. -/
structure Live (c : Channel → Option Nat) (r : Watched) (w : Sockets) : Prop where
  set : ∀ fd, r.readSave fd = true ↔ Watches servsocks daemon c fd
  bound : ∀ fd, r.readSave fd = true → fd ≤ r.maxFd
  own : ∀ fd, w.owned fd = true ↔ fd = 0 ∨ (∃ i, servsocks i = some fd) ∨ ∃ i, c i = some fd
  single : ∀ i j fd, c i = some fd → c j = some fd → i = j
  apart : ∀ i fd, c i = some fd → fd ≠ 0 ∧ ∀ j, servsocks j ≠ some fd
  done : w.pending = none

variable {servsocks daemon} {c : Channel → Option Nat} {r : Watched} {w : Sockets}

theorem Live.globals (live : Live servsocks daemon c r w) : Live servsocks daemon c r { w with client := c } :=
  ⟨live.set, live.bound, live.own, live.single, live.apart, live.done⟩

theorem exists_drop (single : ∀ i j fd, c i = some fd → c j = some fd → i = j) {i : Channel} {fd : Nat}
    (here : c i = some fd) (other : Nat) :
    (∃ j, Function.update c i none j = some other) ↔ other ≠ fd ∧ ∃ j, c j = some other := by
  constructor
  · rintro ⟨j, found⟩
    rw [Function.update_apply] at found
    split at found
    · cases found
    · refine ⟨?_, j, found⟩
      rintro rfl
      exact ‹¬j = i› (single j i other found here)
  · rintro ⟨apart, j, found⟩
    refine ⟨j, ?_⟩
    rw [Function.update_of_ne, found]
    rintro rfl
    exact apart (Option.some.inj (found.symm.trans here))

theorem exists_gain {i : Channel} (empty : c i = none) (fd other : Nat) :
    (∃ j, Function.update c i (some fd) j = some other) ↔ other = fd ∨ ∃ j, c j = some other := by
  constructor
  · rintro ⟨j, found⟩
    rw [Function.update_apply] at found
    split at found
    · exact Or.inl (Option.some.inj found).symm
    · exact Or.inr ⟨j, found⟩
  · rintro (rfl | ⟨j, found⟩)
    · exact ⟨i, Function.update_self _ _ _⟩
    · refine ⟨j, ?_⟩
      rw [Function.update_of_ne, found]
      rintro rfl
      cases empty.symm.trans found

theorem Live.drop (live : Live servsocks daemon c r w) {i : Channel} {fd : Nat} (here : c i = some fd) :
    Live servsocks daemon (Function.update c i none) (r.clear fd) (w.own fd false) := by
  obtain ⟨notZero, notServ⟩ := live.apart i fd here
  constructor
  · intro other
    have before := live.set other
    rw [Watches] at before ⊢
    rw [exists_drop live.single here, Watched.clear_readSave]
    grind
  · intro other set
    rw [Watched.clear_readSave] at set
    split at set
    · cases set
    · exact live.bound other set
  · intro other
    have before := live.own other
    rw [exists_drop live.single here, Sockets.own_owned]
    grind
  · intro j k other found found'
    rw [Function.update_apply] at found found'
    split at found
    · cases found
    · split at found'
      · cases found'
      · exact live.single j k other found found'
  · intro j other found
    rw [Function.update_apply] at found
    split at found
    · cases found
    · exact live.apart j other found
  · exact live.done

theorem Live.gain (live : Live servsocks daemon c r w) {i : Channel} {fd : Nat} (empty : c i = none)
    (fresh : w.owned fd = false) :
    Live servsocks daemon (Function.update c i (some fd)) (r.add fd) (w.own fd true) := by
  have unused := (not_congr (live.own fd)).mp (by simp [fresh])
  push Not at unused
  obtain ⟨notZero, notServ, notClient⟩ := unused
  constructor
  · intro other
    have before := live.set other
    rw [Watches] at before ⊢
    rw [exists_gain empty, Watched.add_readSave]
    grind
  · intro other set
    have before := live.bound other
    rw [Watched.add_readSave] at set
    show other ≤ max r.maxFd fd
    grind
  · intro other
    have before := live.own other
    rw [exists_gain empty, Sockets.own_owned]
    grind
  · intro j k other found found'
    rw [Function.update_apply] at found found'
    have single := live.single j k other
    grind
  · intro j other found
    rw [Function.update_apply] at found
    split at found
    · cases Option.some.inj found
      exact ⟨notZero, notServ⟩
    · exact live.apart j other found
  · exact live.done

/-! ## A turn -/

variable (servsocks daemon) in
abbrev ruled : Prog.Contract RelayCall RelayCall.Answer Sockets := relaySide (relayRules servsocks daemon)

variable (servsocks daemon) in
/-- Between two clients. -/
abbrev Steady (r : Watched) (w : Sockets) : Prop := Live servsocks daemon w.client r w

theorem update_none {i : Channel} (empty : c i = none) : Function.update c i none = c :=
  Function.update_eq_self_iff.mpr empty.symm

theorem live_hangUp (steady : Steady servsocks daemon r w) (i : Channel) :
    (hangUp r i).wp (ruled servsocks daemon) (fun r' w' =>
      Live servsocks daemon (Function.update w.client i none) r' w' ∧ w'.client = w.client) w := by
  refine ⟨trivial, ?_⟩
  rintro a w' ⟨rfl, rfl⟩
  cases here : w'.client i with
  | none =>
      rw [update_none here]
      exact ⟨steady, rfl⟩
  | some fd =>
      obtain ⟨notZero, notServ⟩ := steady.apart i fd here
      refine ⟨⟨(steady.own fd).mpr (Or.inr (Or.inr ⟨i, here⟩)), notZero, notServ, steady.done⟩, ?_⟩
      rintro _ v rfl
      exact ⟨steady.drop here, rfl⟩

theorem steady_acceptClient (ready : Nat → Bool) (i : Channel) (steady : Steady servsocks daemon r w) :
    (acceptClient servsocks ready r i).wp (ruled servsocks daemon) (Steady servsocks daemon) w := by
  unfold acceptClient
  split
  · exact steady
  · rename_i serv listens
    refine Prog.wp_ite ?_ fun _ => steady
    intro _
    refine (Prog.wp_bind _ _ _ _).2 (Prog.wp_mono ?_ (live_hangUp steady i))
    rintro r₁ w₁ ⟨live, globals⟩
    refine ⟨⟨i, listens⟩, ?_⟩
    rintro sock w₂ (⟨rfl, rfl⟩ | ⟨fd, rfl, fresh, rfl⟩)
    · refine ⟨trivial, ?_⟩
      rintro _ w₃ rfl
      rw [← globals] at live
      exact live.globals
    · refine ⟨trivial, ?_⟩
      rintro _ w₃ rfl
      have gained := live.gain (Function.update_self i none w.client) fresh
      rw [Function.update_idem, ← globals] at gained
      exact gained.globals

theorem wp_passOn {i : Channel} {data : Bytes} (pending : w.pending = some (i, data)) (some : data ≠ [])
    (short : data.length ≤ asyncRoom) :
    (passOn daemon i data).wp (ruled servsocks daemon) (fun _ w' => w' = { w with pending := none }) w := by
  refine Prog.wp_ite ?_ ?_
  · rintro ⟨local_, shell, command⟩
    refine ⟨⟨local_, i, data, pending, shell, command, rfl⟩, ?_⟩
    rintro _ w' rfl
    rfl
  · intro _
    refine ⟨trivial, ?_⟩
    rintro there w' rfl
    cases there with
    | false => rfl
    | true =>
        refine ⟨⟨i, data, pending, some, short, rfl⟩, ?_⟩
        rintro _ w' rfl
        rfl

theorem steady_serveClient (ready : Nat → Bool) (i : Channel) (steady : Steady servsocks daemon r w) :
    (serveClient daemon ready r i).wp (ruled servsocks daemon) (Steady servsocks daemon) w := by
  refine ⟨trivial, ?_⟩
  rintro a w' ⟨rfl, rfl⟩
  cases here : w'.client i with
  | none => exact steady
  | some fd =>
      obtain ⟨notZero, notServ⟩ := steady.apart i fd here
      have mine := (steady.own fd).mpr (Or.inr (Or.inr ⟨i, here⟩))
      refine Prog.wp_ite ?_ fun _ => steady
      intro _
      refine ⟨⟨mine, ⟨i, here⟩, rfl, steady.done⟩, ?_⟩
      rintro a w₁ (⟨empty, rfl⟩ | ⟨data, j, rfl, some, short, reader, rfl⟩)
      · refine Prog.wp_ite ?_ fun bad => absurd empty bad
        intro _
        refine ⟨⟨mine, notZero, notServ, steady.done⟩, ?_⟩
        rintro _ w₂ rfl
        refine ⟨trivial, ?_⟩
        rintro _ w₃ rfl
        exact (steady.drop here).globals
      · obtain rfl := steady.single i j fd here reader
        refine Prog.wp_ite (fun bad => absurd bad some) ?_
        intro _
        refine (Prog.wp_bind _ _ _ _).2 (Prog.wp_mono ?_ (wp_passOn rfl some short))
        rintro _ w₂ rfl
        exact ⟨steady.set, steady.bound, steady.own, steady.single, steady.apart, rfl⟩

theorem steady_forEach {body : Watched → Channel → Relay Watched}
    (each : ∀ i r w, Steady servsocks daemon r w → (body r i).wp (ruled servsocks daemon) (Steady servsocks daemon) w)
    (channels : List Channel) (steady : Steady servsocks daemon r w) :
    (forEach body channels r).wp (ruled servsocks daemon) (Steady servsocks daemon) w := by
  induction channels generalizing r w with
  | nil => exact steady
  | cons i rest ih => exact (Prog.wp_bind _ _ _ _).2 (Prog.wp_mono (fun _ _ steady => ih steady) (each i r w steady))

theorem steady_serveAll (ready : Nat → Bool) (steady : Steady servsocks daemon r w) :
    (serveAll servsocks daemon ready r).wp (ruled servsocks daemon) (Steady servsocks daemon) w := by
  have at_terminal : (atTerminal daemon ready).wp (ruled servsocks daemon) (fun _ => Steady servsocks daemon r) w := by
    refine Prog.wp_ite ?_ fun _ => steady
    intro _
    refine ⟨trivial, ?_⟩
    rintro _ w₁ rfl
    exact steady
  refine (Prog.wp_bind _ _ _ _).2 (Prog.wp_mono ?_ at_terminal)
  intro _ w₁ steady
  refine (Prog.wp_bind _ _ _ _).2 (Prog.wp_mono ?_
    (steady_forEach (fun i _ _ steady => steady_acceptClient ready i steady) _ steady))
  intro r₁ w₂ steady
  exact steady_forEach (fun i _ _ steady => steady_serveClient ready i steady) _ steady

theorem steady_asyncThread (steady : Steady servsocks daemon r w) :
    (asyncThread servsocks daemon r).wp (ruled servsocks daemon) (Steady servsocks daemon) w := by
  refine ⟨⟨steady.done, steady.set, fun fd set => Nat.lt_succ_of_le (steady.bound fd set), steady.own⟩, ?_⟩
  rintro a w' ⟨rfl, _⟩
  cases a with
  | none => exact steady
  | some ready => exact steady_serveAll ready steady

/-! ## The set before the loop -/

variable (servsocks) in
/-- The sockets of some channels are in the set, besides `first`. -/
structure Gathered (first : Nat → Prop) (channels : List Channel) (r : Watched) : Prop where
  set : ∀ fd, r.readSave fd = true ↔ first fd ∨ ∃ i ∈ channels, servsocks i = some fd
  bound : ∀ fd, r.readSave fd = true → fd ≤ r.maxFd

theorem gathered_add {first : Nat → Prop} {done : List Channel} (gathered : Gathered servsocks first done r) (i : Channel) :
    Gathered servsocks first (done ++ [i]) (((servsocks i).map r.add).getD r) := by
  have grown : ∀ fd, (∃ j ∈ done ++ [i], servsocks j = some fd) ↔ (∃ j ∈ done, servsocks j = some fd) ∨ servsocks i = some fd := by
    intro fd
    simp only [List.mem_append, List.mem_singleton, or_and_right, exists_or, exists_eq_left]
  cases listens : servsocks i with
  | none =>
      refine ⟨?_, gathered.bound⟩
      intro fd
      rw [grown, listens]
      simpa using gathered.set fd
  | some sock =>
      constructor
      · intro fd
        have before := gathered.set fd
        rw [grown, listens, Option.map_some, Option.getD_some, Watched.add_readSave]
        grind
      · intro fd set
        have before := gathered.bound fd
        rw [Option.map_some, Option.getD_some, Watched.add_readSave] at set
        show fd ≤ max r.maxFd sock
        grind

theorem gathered_fold {first : Nat → Prop} (channels : List Channel) {done : List Channel}
    (gathered : Gathered servsocks first done r) :
    Gathered servsocks first (done ++ channels) (channels.foldl (fun r i => ((servsocks i).map r.add).getD r) r) := by
  induction channels generalizing done r with
  | nil =>
      rw [List.append_nil]
      exact gathered
  | cons i rest ih =>
      have later := ih (gathered_add gathered i)
      rwa [List.append_assoc] at later

theorem steady_start (starts : w.Starts servsocks) : Steady servsocks daemon (startWatched servsocks daemon) w := by
  have first : Gathered servsocks (fun fd => daemon = false ∧ fd = 0) []
      (if daemon then ⟨fun _ => false, 0⟩ else ⟨Function.update (fun _ => false) 0 true, 0⟩) := by
    cases daemon with
    | true => exact ⟨by simp, fun fd bad => absurd bad (by simp)⟩
    | false => exact ⟨by simp [Function.update_apply], fun fd set => by simpa [Function.update_apply] using set⟩
  obtain ⟨set, bound⟩ := gathered_fold (List.finRange maxAsyncChannels) first
  have nobody : ∀ fd, ¬∃ i, w.client i = some fd := by simp [starts.client]
  refine ⟨?_, bound, ?_, ?_, ?_, starts.pending⟩
  · intro fd
    simpa [startWatched, Watches, nobody] using set fd
  · intro fd
    simpa [nobody] using starts.owned fd
  · intro i j fd found
    exact absurd ⟨i, found⟩ (nobody fd)
  · intro i fd found
    exact absurd ⟨i, found⟩ (nobody fd)

/-! ## What reaches the PSP -/

theorem pack_accepted {ι τ : Type} [DecidableEq ι] {s : Async ι τ} {i : Channel} {e : ι} (slot : s.chan i = some e)
    {data : Bytes} (some : data ≠ []) :
    (s.fillAsync (pack i data)).accepted i = s.accepted i ++ data.take (min (data.length : Int) (4096 - (s.endp e).size)).toNat := by
  have header : (decode (pack i data) : AsyncCommand) = ⟨asyncMagic, BitVec.ofNat 32 i.val⟩ := Packed.decode_encode _ _
  have size : (encode (⟨asyncMagic, BitVec.ofNat 32 i.val⟩ : AsyncCommand)).length = 8 := Packed.length_encode _
  have length : (pack i data).length = 8 + data.length := by rw [pack, List.length_append, size]
  have positive : 0 < data.length := List.length_pos_iff.mpr some
  have bound : i.val < 8 := i.isLt
  have valid : s.Valid (pack i data) i e := by
    refine ⟨by omega, by rw [header], ?_, slot⟩
    rw [header]
    exact Nat.mod_eq_of_lt (by omega)
  have payload : (pack i data).drop 8 = data := by rw [pack, ← size, List.drop_left]
  rw [valid.accepted, payload, length]
  congr 4
  omega

theorem relayChannel_lt : 2 < maxAsyncChannels := by decide

def relayChannel : Channel := ⟨2, relayChannel_lt⟩

/-- The channel listens on socket 3; its client gets socket 4 and sends a byte. -/
def relayServ (i : Channel) : Option Nat := if i = relayChannel then some 3 else none

def relayAnswer : (q : RelayCall) → Sockets → q.Answer × Sockets
  | .select nfds set, w => (some fun fd => set fd && fd < nfds && fd = (if w.owned 4 then 4 else 3), w)
  | .terminal, w => ((), w)
  | .clientSock i, w => (w.client i, w)
  | .setClientSock i sock, w => ((), { w with client := Function.update w.client i sock })
  | .accept _, w => if w.owned 4 then (none, w) else (some 4, w.own 4 true)
  | .close fd, w => ((), w.own fd false)
  | .read fd size, w =>
      if w.client relayChannel = some fd ∧ 0 < size then (some [65], { w with pending := some (relayChannel, [65]) })
      else (none, w)
  | .parseShell _, w => ((), { w with pending := none })
  | .device, w => (true, w)
  | .bulkWrite _, w => ((), { w with pending := none })

theorem relayAnswer_post (pre : Sockets → RelayCall → Prop) (q : RelayCall) (w : Sockets) :
    (relaySide pre).post w q (relayAnswer q w).1 (relayAnswer q w).2 := by
  cases q with
  | select nfds set =>
      refine ⟨rfl, ?_⟩
      rintro ready same fd set
      obtain rfl := Option.some.inj same
      simp only [Bool.and_eq_true, decide_eq_true_eq] at set
      exact set.1
  | clientSock i => exact ⟨rfl, rfl⟩
  | accept sock =>
      by_cases taken : w.owned 4
      · exact Or.inl (by simp [relayAnswer, taken])
      · exact Or.inr ⟨4, by simp [relayAnswer, taken], by simpa using taken, by simp [relayAnswer, taken]⟩
  | read fd size =>
      by_cases here : w.client relayChannel = some fd ∧ 0 < size
      · exact Or.inr ⟨[65], relayChannel, by simp [relayAnswer, here], by decide, here.2, here.1, by simp [relayAnswer, here]⟩
      · exact Or.inl (by simp [relayAnswer, here])
  | _ => exact rfl

def relayStart : Sockets := ⟨fun _ => none, fun fd => fd = 0 || fd = 3, none⟩

/-- The first turn, and the second one as far as the byte is written. -/
def relayRun : Relay Watched × Sockets :=
  let turn := (asyncThread relayServ false (startWatched relayServ false)).interp relayAnswer relayStart
  (asyncThread relayServ false turn.1).calls relayAnswer 6 turn.2

theorem relayRun_reachable : (relay relayServ false).Reachable relayRun := by
  have start : (relay relayServ false).Reachable (.ret (startWatched relayServ false), relayStart) := by
    refine .init ⟨rfl, fun _ => rfl, ?_, rfl⟩
    intro fd
    have listens : (∃ i, relayServ i = some fd) ↔ fd = 3 := by
      constructor
      · rintro ⟨i, serv⟩
        unfold relayServ at serv
        split at serv
        · exact (Option.some.inj serv).symm
        · cases serv
      · rintro rfl
        exact ⟨relayChannel, if_pos rfl⟩
    simp [relayStart, listens]
  have asleep := start.step (a := ()) rfl
  have turned := Prog.reachable_interp (relayAnswer_post _) asleep
  have woken := turned.step (a := ()) rfl
  exact Prog.reachable_calls (relayAnswer_post _) 6 woken

end Psplink.HostFs
