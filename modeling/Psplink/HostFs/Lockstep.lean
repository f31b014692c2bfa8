import Psplink.HostFs.PcConforms
import Psplink.HostFs.PspConforms

/-!
# Both sides of the link

Any number of threads make driver calls while the PC runs its loop. A request of the thread and a
bulk call of the PC meet in one step, in which the whole transfer takes place; `g_mainsema` is
taken by one thread at a time. The record of the link is then a sequence of exchanges.
-/

namespace Psplink.HostFs
open Psplink.Lib

variable {ι : Type} [DecidableEq ι]

structure Link (ι : Type) where
  threads : ι → Option (Psp Unit)
  /-- The thread that has taken `g_mainsema`, and whether it has made no transfer yet. -/
  holder : Option ι
  first : Bool
  pc : Pc Loop
  topLevel : Bool
  globals : Globals
  record : List (Transfer ι)

def Link.setThread (s : Link ι) (i : ι) (p : Option (Psp Unit)) : Link ι :=
  { s with threads := Function.update s.threads i p }

def Link.transfer (s : Link ι) (i : ι) (p : Psp Unit) (pc : Pc Loop) (t : Transfer ι) : Link ι :=
  { s.setThread i (some p) with
    first := false, pc := pc, topLevel := false, record := s.record ++ [t] }

/-- The daemon has its own globals; the system answers its other calls in any way. -/
def PcAnswers (g : Globals) (c : Call) (a : c.Answer) (g' : Globals) : Prop :=
  match c, a with
  | .load, a => a = g ∧ g' = g
  | .modify f, _ => g' = f g
  | _, _ => g' = g

inductive LinkStep (s : Link ι) : Link ι → Prop
  | call (i : ι) (call : DriverCall) (idle : s.threads i = none) (valid : call.Valid) :
      LinkStep s (s.setThread i (some call.run))
  | finish (i : ι) (done : s.threads i = some (.ret ())) : LinkStep s (s.setThread i none)
  | connected (i : ι) (answer : Bool) {k : Bool → Psp Unit}
      (at_call : s.threads i = some (.ask .usbConnected k)) :
      LinkStep s (s.setThread i (some (k answer)))
  | take (i : ι) {k : Bool → Psp Unit} (at_call : s.threads i = some (.ask .waitSema k))
      (free : s.holder = none) :
      LinkStep s { s.setThread i (some (k true)) with holder := some i, first := true }
  | interrupted (i : ι) {k : Bool → Psp Unit} (at_call : s.threads i = some (.ask .waitSema k)) :
      LinkStep s (s.setThread i (some (k false)))
  | signal (i : ι) {k : Unit → Psp Unit} (at_call : s.threads i = some (.ask .signalSema k)) :
      LinkStep s { s.setThread i (some (k ())) with holder := none }
  /-- A bulk read returns the next transfer, if that is no longer than what was asked for. -/
  | send (i : ι) (stale : Bytes) {t : Bytes} {k : Option Nat → Psp Unit} {cap : Nat} {size : Word}
      {k' : UsbRead → Pc Loop} (at_call : s.threads i = some (.ask (.bulkin t) k))
      (reads : s.pc = .ask (.usbBulkRead cap size) k') (fits : t.length ≤ size.toNat) :
      LinkStep s (s.transfer i (k (some t.length)) (k' (delivered t stale))
        (.toPc i s.first s.topLevel t))
  | receive (i : ι) {size room : Nat} {t : Bytes} {k : Option Bytes → Psp Unit} {k' : Int → Pc Loop}
      (at_call : s.threads i = some (.ask (.bulkout size room) k))
      (writes : s.pc = .ask (.usbBulkWrite t) k') (fits : t.length ≤ size) :
      LinkStep s (s.transfer i (k (some t)) (k' (t.length : Int)) (.toPsp i size room t))
  | system {c : Call} {k : c.Answer → Pc Loop} {a : c.Answer} {g : Globals} (own : c.IsQuiet)
      (at_call : s.pc = .ask c k) (answered : PcAnswers s.globals c a g) :
      LinkStep s { s with pc := k a, topLevel := false, globals := g }
  | again {next : Loop} (done : s.pc = .ret next) :
      LinkStep s { s with pc := startHostfs next, topLevel := true }

def Link.start (ι : Type) (g : Globals) : Link ι :=
  ⟨fun _ => none, none, true, startHostfs .commands, true, g, []⟩

def link (g : Globals) : System (Link ι) Unit where
  init s := s = .start ι g
  step s _ s' := LinkStep s s'

/-! ## The invariant -/

/-- What the daemon still does is what the exchange needs of it, and then the next turn. -/
def PcFollows (pc : Pc Loop) (topLevel : Bool) (phase : Phase) : Prop :=
  if topLevel then pc = startHostfs .commands ∧ phase = .top
  else pc.wp pcSide (fun next w => next = .commands ∧ w = .top) phase

def Follows (p : Psp Unit) (hold : Hold) : Prop := p.wp pspSide (fun _ w => w = .without) hold

def Link.holds (s : Link ι) (phase : Phase) (i : ι) : Hold :=
  if s.holder = some i then .holding s.first phase else .without

structure LinkInv (s : Link ι) (phase : Phase) (done : List (List (Transfer ι)))
    (part : List (Transfer ι)) : Prop where
  record : s.record = done.flatten ++ part
  exchanges : ∀ e ∈ done, ∃ i, Exchange i e
  threads : ∀ i p, s.threads i = some p → Follows p (s.holds phase i)
  busy : ∀ i, s.holder = some i → ∃ p, s.threads i = some p
  free : s.holder = none → phase = .top ∧ part = []
  begun : ∀ i, s.holder = some i → Begun i phase part
  pc : PcFollows s.pc s.topLevel phase

namespace LinkInv

variable {s : Link ι} {phase : Phase} {done : List (List (Transfer ι))} {part : List (Transfer ι)}
  {i : ι}

theorem holding {first : Bool} {phase' : Phase}
    (holds : s.holds phase i = .holding first phase') :
    s.holder = some i ∧ first = s.first ∧ phase' = phase := by
  unfold Link.holds at holds
  split at holds
  · cases holds
    exact ⟨‹_›, rfl, rfl⟩
  · cases holds

theorem without (holds : s.holds phase i = .without) : s.holder ≠ some i := by
  unfold Link.holds at holds
  split at holds
  · cases holds
  · assumption

theorem setThread (inv : LinkInv s phase done part) {p' : Option (Psp Unit)}
    (follows : ∀ p, p' = some p → Follows p (s.holds phase i))
    (busy : s.holder = some i → ∃ p, p' = some p) :
    LinkInv (s.setThread i p') phase done part where
  record := inv.record
  exchanges := inv.exchanges
  threads j p at_thread := by
    by_cases same : j = i
    · subst same
      exact follows p (by simpa [Link.setThread] using at_thread)
    · exact inv.threads j p (by simpa [Link.setThread, same] using at_thread)
  busy j holder := by
    by_cases same : j = i
    · subst same
      simpa [Link.setThread] using busy holder
    · simpa [Link.setThread, same] using inv.busy j holder
  free := inv.free
  begun := inv.begun
  pc := inv.pc

theorem take (inv : LinkInv s phase done part) {p : Psp Unit} (free : s.holder = none)
    (follows : Follows p (.holding true .top)) :
    LinkInv { s.setThread i (some p) with holder := some i, first := true } .top done [] where
  record := by
    rw [← (inv.free free).2]
    exact inv.record
  exchanges := inv.exchanges
  threads j q at_thread := by
    by_cases same : j = i
    · subst same
      simp only [Link.setThread, Function.update_self, Option.some.injEq] at at_thread
      simpa [Link.holds, ← at_thread] using follows
    · have before := inv.threads j q (by simpa [Link.setThread, same] using at_thread)
      rw [Link.holds, if_neg (by simp [free])] at before
      rw [Link.holds, if_neg (by simpa using Ne.symm same)]
      exact before
  busy j holder := by
    cases holder
    exact ⟨p, by simp [Link.setThread]⟩
  free := nofun
  begun j holder := .top
  pc := by
    rw [← (inv.free free).1]
    exact inv.pc

theorem signal (inv : LinkInv s phase done part) {p : Psp Unit} (holder : s.holder = some i)
    (ended : phase = .top) (follows : Follows p .without) :
    LinkInv { s.setThread i (some p) with holder := none } .top done [] where
  record := by
    subst ended
    cases inv.begun i holder
    exact inv.record
  exchanges := inv.exchanges
  threads j q at_thread := by
    rw [Link.holds, if_neg (by simp)]
    by_cases same : j = i
    · subst same
      simp only [Link.setThread, Function.update_self, Option.some.injEq] at at_thread
      exact at_thread ▸ follows
    · have before := inv.threads j q (by simpa [Link.setThread, same] using at_thread)
      rw [Link.holds, if_neg (by simpa [holder] using Ne.symm same)] at before
      exact before
  busy := nofun
  free _ := ⟨rfl, rfl⟩
  begun := nofun
  pc := ended ▸ inv.pc

theorem moved (inv : LinkInv s phase done part) {p : Psp Unit} {pc : Pc Loop} {phase' : Phase}
    {t : Transfer ι} {done' : List (List (Transfer ι))} {part' : List (Transfer ι)}
    (holder : s.holder = some i) (follows : Follows p (.holding false phase'))
    (pcFollows : PcFollows pc false phase') (record : s.record ++ [t] = done'.flatten ++ part')
    (exchanges : ∀ e ∈ done', ∃ i, Exchange i e) (begun : Begun i phase' part') :
    LinkInv (s.transfer i p pc t) phase' done' part' where
  record := record
  exchanges := exchanges
  threads j q at_thread := by
    by_cases same : j = i
    · subst same
      simp only [Link.transfer, Link.setThread, Function.update_self, Option.some.injEq] at at_thread
      simpa [Link.holds, Link.transfer, Link.setThread, holder, ← at_thread] using follows
    · have before := inv.threads j q (by simpa [Link.transfer, Link.setThread, same] using at_thread)
      have other : s.holder ≠ some j := by simpa [holder] using Ne.symm same
      rw [Link.holds, if_neg other] at before
      simpa [Link.holds, Link.transfer, Link.setThread, other] using before
  busy j holder' := by
    obtain rfl : i = j := Option.some.inj (holder.symm.trans holder')
    exact ⟨p, by simp [Link.transfer, Link.setThread]⟩
  free free := by
    have : s.holder = none := free
    rw [holder] at this
    cases this
  begun j holder' := by
    obtain rfl : i = j := Option.some.inj (holder.symm.trans holder')
    exact begun
  pc := pcFollows

theorem transfer (inv : LinkInv s phase done part) {p : Psp Unit} {pc : Pc Loop} {phase' : Phase}
    {t : Transfer ι} (holder : s.holder = some i) (follows : Follows p (.holding false phase'))
    (pcFollows : PcFollows pc false phase') (continues : Continues i phase' (part ++ [t])) :
    ∃ done part, LinkInv (s.transfer i p pc t) phase' done part := by
  rcases continues with begun | ⟨rfl, exchange⟩
  · exact ⟨done, part ++ [t], inv.moved holder follows pcFollows
      (by rw [inv.record, List.append_assoc]) inv.exchanges begun⟩
  · refine ⟨done ++ [part ++ [t]], [], inv.moved holder follows pcFollows ?_ ?_ .top⟩
    · simp [inv.record]
    · intro e member
      rcases List.mem_append.mp member with old | new
      · exact inv.exchanges e old
      · exact ⟨i, List.mem_singleton.mp new ▸ exchange⟩

theorem topLevel_iff (inv : LinkInv s phase done part) {cap : Nat} {size : Word}
    {k : UsbRead → Pc Loop} (reads : s.pc = .ask (.usbBulkRead cap size) k) :
    s.topLevel = true ↔ phase = .top := by
  have follows := inv.pc
  unfold PcFollows at follows
  split at follows
  · exact iff_of_true ‹_› follows.2
  · refine iff_of_false ‹_› ?_
    rintro rfl
    rw [reads] at follows
    exact follows.1.1

theorem pcFollows_send (inv : LinkInv s phase done part) {cap : Nat} {size : Word}
    {k : UsbRead → Pc Loop} {t stale : Bytes} {phase' : Phase}
    (reads : s.pc = .ask (.usbBulkRead cap size) k) (sends : Sends phase t phase') :
    PcFollows (k (delivered t stale)) false phase' := by
  have follows := inv.pc
  unfold PcFollows at follows
  split at follows
  · obtain ⟨top, rfl⟩ := follows
    rw [top] at reads
    cases reads
    refine (Prog.wp_bind (serve (delivered t stale)) _ _ _).2 (Prog.wp_mono ?_ (pc_serve sends))
    rintro goesOn w ⟨rfl, rfl⟩
    exact ⟨rfl, rfl⟩
  · rw [reads] at follows
    exact follows.2 _ _ ⟨t, stale, sends, rfl⟩

theorem send (inv : LinkInv s phase done part) {t stale : Bytes} {k : Option Nat → Psp Unit}
    {cap : Nat} {size : Word} {k' : UsbRead → Pc Loop}
    (at_call : s.threads i = some (.ask (.bulkin t) k))
    (reads : s.pc = .ask (.usbBulkRead cap size) k') :
    ∃ phase' done part, LinkInv (s.transfer i (k (some t.length)) (k' (delivered t stale))
      (.toPc i s.first s.topLevel t)) phase' done part := by
  have follows := inv.threads i _ at_call
  obtain ⟨⟨first, phase₀, phase', holds, fresh, sends⟩, next⟩ := follows
  obtain ⟨holder, rfl, rfl⟩ := holding holds
  refine ⟨phase', inv.transfer holder (next _ _ ⟨rfl, _, _, phase', holds, sends, rfl⟩)
    (inv.pcFollows_send reads sends) ?_⟩
  by_cases top : phase₀ = .top
  · subst top
    rw [(inv.topLevel_iff reads).2 rfl, fresh.2 rfl]
    cases inv.begun i holder
    exact begun_header sends
  · rw [Bool.eq_false_iff.2 (mt (inv.topLevel_iff reads).1 top), Bool.eq_false_iff.2 (mt fresh.1 top)]
    exact (inv.begun i holder).rest sends top

theorem writes (inv : LinkInv s phase done part) {t : Bytes} {k : Int → Pc Loop}
    (writes : s.pc = .ask (.usbBulkWrite t) k) :
    (∃ phase', Replies phase t phase') ∧
      ∀ phase', Replies phase t phase' → PcFollows (k (t.length : Int)) false phase' := by
  have follows := inv.pc
  unfold PcFollows at follows
  split at follows
  · rw [follows.1] at writes
    cases writes
  · rw [writes] at follows
    exact ⟨follows.1, fun phase' replies => follows.2 _ _ ⟨rfl, replies⟩⟩

theorem receive (inv : LinkInv s phase done part) {size room : Nat} {t : Bytes}
    {k : Option Bytes → Psp Unit} {k' : Int → Pc Loop}
    (at_call : s.threads i = some (.ask (.bulkout size room) k))
    (writes : s.pc = .ask (.usbBulkWrite t) k') :
    ∃ phase' done part, LinkInv (s.transfer i (k (some t)) (k' (t.length : Int))
      (.toPsp i size room t)) phase' done part := by
  have follows := inv.threads i _ at_call
  obtain ⟨⟨first, phase₀, holds, awaits, fits⟩, next⟩ := follows
  obtain ⟨holder, rfl, rfl⟩ := holding holds
  obtain ⟨⟨phase', replies⟩, follows⟩ := inv.writes writes
  obtain rfl : size = t.length := awaits.unique replies.awaited
  exact ⟨phase', inv.transfer holder (next _ _ ⟨t, _, _, phase', rfl, holds, replies, rfl⟩)
    (follows phase' replies) ((inv.begun i holder).receive replies fits)⟩

end LinkInv

/-! ## Runs -/

theorem linkInv_step {s s' : Link ι} {phase : Phase} {done : List (List (Transfer ι))}
    {part : List (Transfer ι)} (inv : LinkInv s phase done part) (step : LinkStep s s') :
    ∃ phase done part, LinkInv s' phase done part := by
  cases step with
  | call i call idle valid =>
      have outside : s.holder ≠ some i := fun holder => by
        obtain ⟨p, at_thread⟩ := inv.busy i holder
        rw [idle] at at_thread
        cases at_thread
      refine ⟨phase, done, part, inv.setThread ?_ fun holder => absurd holder outside⟩
      rintro p ⟨⟩
      rw [Link.holds, if_neg outside]
      exact returns_run valid
  | finish i ended =>
      have outside := LinkInv.without (inv.threads i _ ended)
      exact ⟨phase, done, part, inv.setThread nofun fun holder => absurd holder outside⟩
  | connected i answer at_call =>
      refine ⟨phase, done, part, inv.setThread ?_ fun _ => ⟨_, rfl⟩⟩
      rintro p ⟨⟩
      exact (inv.threads i _ at_call).2 _ _ rfl
  | take i at_call free =>
      have follows := inv.threads i _ at_call
      obtain ⟨holds, next⟩ := follows
      exact ⟨.top, done, [], inv.take free (next true _ rfl)⟩
  | interrupted i at_call =>
      have follows := inv.threads i _ at_call
      obtain ⟨holds, next⟩ := follows
      refine ⟨phase, done, part, inv.setThread ?_ fun _ => ⟨_, rfl⟩⟩
      rintro p ⟨⟩
      rw [holds]
      exact next false _ rfl
  | signal i at_call =>
      have follows := inv.threads i _ at_call
      obtain ⟨⟨first, holds⟩, next⟩ := follows
      obtain ⟨holder, -, ended⟩ := LinkInv.holding holds
      exact ⟨.top, done, [], inv.signal holder ended.symm (next () _ rfl)⟩
  | send i stale at_call reads => exact inv.send at_call reads
  | receive i at_call writes => exact inv.receive at_call writes
  | @system c k a g own at_call answered =>
      refine ⟨phase, done, part, { inv with pc := ?_ }⟩
      have follows := inv.pc
      unfold PcFollows at follows
      split at follows
      · rw [follows.1] at at_call
        cases at_call
        exact own.elim
      · rw [at_call] at follows
        exact follows.2 a phase (by cases c <;> first | exact own.elim | exact rfl)
  | @again next ended =>
      refine ⟨phase, done, part, { inv with pc := ?_ }⟩
      have follows := inv.pc
      unfold PcFollows at follows
      split at follows
      · rw [follows.1] at ended
        cases ended
      · rw [ended] at follows
        obtain ⟨rfl, rfl⟩ := follows
        exact ⟨rfl, rfl⟩

theorem linkInv_reachable {g : Globals} {s : Link ι} (reachable : (link g).Reachable s) :
    ∃ phase done part, LinkInv s phase done part := by
  induction reachable with
  | init start =>
      cases start
      exact ⟨.top, [], [], ⟨rfl, nofun, nofun, nofun, fun _ => ⟨rfl, rfl⟩, nofun, ⟨rfl, rfl⟩⟩⟩
  | step _ taken ih =>
      obtain ⟨phase, done, part, inv⟩ := ih
      exact linkInv_step inv taken

/-! ## In step -/

theorem quiet_of_wp {p : Pc Loop} {R : Loop → Phase → Prop} (follows : p.wp pcSide R .top) :
    Quiet p := by
  induction p with
  | ret next => exact .ret next
  | ask c k ih =>
      have own : c.IsQuiet := by
        cases c with
        | usbBulkRead => exact follows.1.1
        | usbBulkWrite =>
            obtain ⟨phase', replies⟩ := follows.1
            cases replies
        | _ => trivial
      refine .ask own fun a => ih a (follows.2 a .top ?_)
      cases c <;> first | exact own.elim | exact rfl

theorem Sends.header_le {t : Bytes} {phase : Phase} (sends : Sends .top t phase) :
    t.length ≤ 512 := by
  cases sends with
  | @command c _ command =>
      rw [command.length]
      exact (commandSize_bounds c).2
  | async magic some fits => exact fits
  | bulk magic length =>
      rw [length]
      decide

structure InStep (s : Link ι) : Prop where
  /-- The record: whole exchanges, and the beginning of one of the thread with the semaphore. -/
  record : ∃ (done : List (List (Transfer ι))) (part : List (Transfer ι)),
    s.record = done.flatten ++ part ∧ (∀ e ∈ done, ∃ i, Exchange i e) ∧
    (part ≠ [] → ∃ i more, s.holder = some i ∧ Exchange i (part ++ more))
  returned : ∀ i, s.threads i = some (.ret ()) → s.holder ≠ some i
  idle : s.holder = none → s.pc = startHostfs .commands ∨ Quiet s.pc
  topLevel : s.topLevel = true → s.pc = startHostfs .commands
  goesOn : ∀ next, s.pc = .ret next → next = .commands
  /-- What a thread sends is what the daemon asks for, or a header that fits. -/
  sends : ∀ i t k cap size k', s.threads i = some (.ask (.bulkin t) k) →
    s.pc = .ask (.usbBulkRead cap size) k' →
      t.length ≤ size.toNat ∧ size.toNat ≤ cap ∧ (s.topLevel = false → t.length = size.toNat)
  /-- What the daemon sends is what the thread asks for and has room for. -/
  receives : ∀ i size room k t k', s.threads i = some (.ask (.bulkout size room) k) →
    s.pc = .ask (.usbBulkWrite t) k' → t.length = size ∧ size ≤ room
  notBothSend : ∀ i t k t' k', s.threads i = some (.ask (.bulkin t) k) →
    s.pc ≠ .ask (.usbBulkWrite t') k'
  notBothReceive : ∀ i size room k cap size' k', s.threads i = some (.ask (.bulkout size room) k) →
    s.pc ≠ .ask (.usbBulkRead cap size') k'

namespace LinkInv

variable {s : Link ι} {phase : Phase} {done : List (List (Transfer ι))} {part : List (Transfer ι)}
  {i : ι}

theorem reads (inv : LinkInv s phase done part) {cap : Nat} {size : Word} {k : UsbRead → Pc Loop}
    (reads : s.pc = .ask (.usbBulkRead cap size) k) :
    (s.topLevel = true ∧ phase = .top ∧ size = 512 ∧ cap = 512) ∨
      (s.topLevel = false ∧ Expects phase size.toNat ∧ size.toNat ≤ cap) := by
  have follows := inv.pc
  unfold PcFollows at follows
  split at follows
  · obtain ⟨top, ended⟩ := follows
    rw [top] at reads
    cases reads
    exact .inl ⟨‹_›, ended, rfl, rfl⟩
  · rw [reads] at follows
    exact .inr ⟨by simpa using ‹¬ s.topLevel = true›, follows.1⟩

theorem expects_awaits {size size' : Nat} (expects : Expects phase size)
    (awaits : Awaits phase size') : False := by
  cases phase with
  | response | data => exact expects
  | _ => exact awaits

theorem inStep (inv : LinkInv s phase done part) : InStep s where
  record := by
    refine ⟨done, part, inv.record, inv.exchanges, fun some => ?_⟩
    cases holder : s.holder with
    | none => exact absurd (inv.free holder).2 some
    | some i =>
        obtain ⟨more, exchange⟩ := (inv.begun i holder).exchange.resolve_left some
        exact ⟨i, more, rfl, exchange⟩
  returned i ended := LinkInv.without (inv.threads i _ ended)
  idle holder := by
    have follows := inv.pc
    unfold PcFollows at follows
    split at follows
    · exact .inl follows.1
    · rw [(inv.free holder).1] at follows
      exact .inr (quiet_of_wp follows)
  topLevel top := by
    have follows := inv.pc
    rw [PcFollows, if_pos top] at follows
    exact follows.1
  goesOn next ended := by
    have follows := inv.pc
    unfold PcFollows at follows
    split at follows
    · rw [follows.1] at ended
      cases ended
    · rw [ended] at follows
      exact follows.1
  sends i t k cap size k' at_call reads := by
    have follows := inv.threads i _ at_call
    obtain ⟨⟨first, phase₀, phase', holds, fresh, sends⟩, next⟩ := follows
    obtain ⟨holder, rfl, rfl⟩ := holding holds
    rcases inv.reads reads with ⟨top, rfl, rfl, rfl⟩ | ⟨below, expects, fits⟩
    · exact ⟨sends.header_le, Nat.le_refl _, fun below => absurd top (by simp [below])⟩
    · have under : phase₀ ≠ .top := by
        rintro rfl
        exact expects
      have length := (sends.expected under).unique expects
      exact ⟨length.le, fits, fun _ => length⟩
  receives i size room k t k' at_call writes := by
    have follows := inv.threads i _ at_call
    obtain ⟨⟨first, phase₀, holds, awaits, fits⟩, next⟩ := follows
    obtain ⟨holder, rfl, rfl⟩ := holding holds
    obtain ⟨⟨phase', replies⟩, -⟩ := inv.writes writes
    exact ⟨replies.awaited.unique awaits, fits⟩
  notBothSend i t k t' k' at_call writes := by
    have follows := inv.threads i _ at_call
    obtain ⟨⟨first, phase₀, phase', holds, fresh, sends⟩, next⟩ := follows
    obtain ⟨holder, rfl, rfl⟩ := holding holds
    obtain ⟨⟨phase'', replies⟩, -⟩ := inv.writes writes
    cases sends <;> cases replies
  notBothReceive i size room k cap size' k' at_call reads := by
    have follows := inv.threads i _ at_call
    obtain ⟨⟨first, phase₀, holds, awaits, fits⟩, next⟩ := follows
    obtain ⟨holder, rfl, rfl⟩ := holding holds
    rcases inv.reads reads with ⟨top, rfl, -⟩ | ⟨below, expects, -⟩
    · exact awaits
    · exact expects_awaits expects awaits

end LinkInv

/-- Whatever the threads call and whatever the file system answers, the link stays in step. -/
theorem link_in_step {g : Globals} {s : Link ι} (reachable : (link g).Reachable s) : InStep s := by
  obtain ⟨phase, done, part, inv⟩ := linkInv_reachable reachable
  exact inv.inStep

theorem link_in_step_hello : ∃ s : Link (Fin 2), (link zeroGlobals).Reachable s ∧
    s.threads 0 = none ∧ s.record.length = 2 ∧ InStep s := by
  have s₀ : (link zeroGlobals).Reachable (.start (Fin 2) zeroGlobals) := .init rfl
  have s₁ := s₀.step (a := ()) (LinkStep.call (0 : Fin 2) .hello rfl trivial)
  have s₂ := s₁.step (a := ()) (LinkStep.take 0 rfl rfl)
  have s₃ := s₂.step (a := ()) (LinkStep.send 0 [] rfl rfl (by decide))
  have s₄ := s₃.step (a := ()) (LinkStep.receive 0 rfl rfl (by decide))
  have s₅ := s₄.step (a := ()) (LinkStep.signal 0 rfl)
  have s₆ := s₅.step (a := ()) (LinkStep.finish 0 rfl)
  exact ⟨_, s₆, rfl, rfl, link_in_step s₆⟩

end Psplink.HostFs
