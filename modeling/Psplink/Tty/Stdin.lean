import Psplink.Lib.Packed
import Psplink.Lib.Ring
import Psplink.Lib.System

/-!
# Standard input

`ttyAddInputData` and `inputHandler` of psplink/tty.c with `io_read` of psplink/stdio.c: what the shell is given in tty
mode goes through a ring to the threads that read it. Each section with the interrupts disabled is a step.
-/

namespace Psplink.Tty
open Psplink.Lib

def stdinBufsize : Int := 4096

/-! ## The code -/

/-- Where a thread is in `io_read` for so many bytes. -/
inductive Phase where
  | outside
  | waiting (len : Nat)
  | entered (len : Nat)
  /-- It has left its identifier and is about to sleep. -/
  | registered (len : Nat)
  | asleep (len : Nat)
  | returning (data : Bytes)

def Phase.inside : Phase → Prop
  | .outside | .waiting _ => False
  | .entered _ | .registered _ | .asleep _ | .returning _ => True

structure State where
  ring : RingBuffer UInt8
  waitth : Option Nat
  sema : Nat
  threads : Nat → Phase
  /-- The wake-ups of a thread that are pending. -/
  wakeups : Nat → Nat
  accepted : Bytes
  delivered : Bytes

namespace State

def move (s : State) (t : Nat) (phase : Phase) : State := { s with threads := Function.update s.threads t phase }

def wakeup (s : State) (t : Nat) : State :=
  match s.threads t with
  | .asleep len => s.move t (.entered len)
  | _ => { s with wakeups := Function.update s.wakeups t (s.wakeups t + 1) }

/-- The section of `inputHandler`. -/
def section_ (s : State) (t len : Nat) : State :=
  let sizeread := min len s.ring.size.toNat
  let read := RingBuffer.popMany stdinBufsize sizeread s.ring
  if sizeread = 0 then { s.move t (.registered len) with waitth := some t }
  else { s.move t (.returning read.1) with ring := read.2, delivered := s.delivered ++ read.1 }

def feed (s : State) (taken : Bytes) : State :=
  { s with ring := s.ring.pushAll stdinBufsize taken, accepted := s.accepted ++ taken }

/-- The thread that has left its identifier is woken. -/
def notify (s : State) : State :=
  match s.waitth with
  | some t => { s.wakeup t with waitth := none }
  | none => s

def addInputData (s : State) (data : Bytes) : State :=
  (s.feed (data.take (stdinBufsize - s.ring.size).toNat)).notify

end State

inductive Label where
  | call (t len : Nat)
  | enter (t : Nat)
  | look (t : Nat)
  | sleep (t : Nat)
  | leave (t : Nat)
  | add (data : Bytes)
  /-- A thread is woken by something else. -/
  | wake (t : Nat)

def step (s : State) : Label → Option State
  | .call t len =>
      match s.threads t with
      | .outside => some (s.move t (.waiting len))
      | _ => none
  | .enter t =>
      match s.threads t with
      | .waiting len => if 0 < s.sema then some { s.move t (.entered len) with sema := s.sema - 1 } else none
      | _ => none
  | .look t =>
      match s.threads t with
      | .entered len => some (s.section_ t len)
      | _ => none
  | .sleep t =>
      match s.threads t with
      | .registered len =>
          if 0 < s.wakeups t then
            some { s.move t (.entered len) with wakeups := Function.update s.wakeups t (s.wakeups t - 1) }
          else some (s.move t (.asleep len))
      | _ => none
  | .leave t =>
      match s.threads t with
      | .returning _ => some { s.move t .outside with sema := s.sema + 1 }
      | _ => none
  | .add data => some (s.addInputData data)
  | .wake t => some (s.wakeup t)

def Starts (s : State) : Prop :=
  ∃ buffer wakeups, s = ⟨⟨buffer, 0, 0, 0⟩, none, 1, fun _ => .outside, wakeups, [], []⟩

def system : System State Label where
  init := Starts
  step s a s' := step s a = some s'

/-! ## What should hold -/

def State.held (s : State) : Bytes :=
  (List.range s.ring.size.toNat).map fun (i : Nat) => s.ring.buffer ((s.ring.readPos + (i : Int)) % stdinBufsize)

/-- Asleep, or about to be with no wake-up pending. -/
def Phase.sleeps (wakeups : Nat) : Phase → Prop
  | .asleep _ => True
  | .registered _ => wakeups = 0
  | _ => False

def State.Sleeps (s : State) (t : Nat) : Prop := (s.threads t).sleeps (s.wakeups t)

structure Safe (s : State) : Prop where
  size : 0 ≤ s.ring.size ∧ s.ring.size ≤ stdinBufsize
  places : s.ring.writePos = (s.ring.readPos + s.ring.size) % stdinBufsize
  delivered : s.accepted = s.delivered ++ s.held
  sleeps : ∀ t, s.Sleeps t → s.ring.size = 0

/-- No thread looks for no bytes at all while there are some, unless it will be woken at once. -/
def Allowed (s : State) : Label → Prop
  | .look t => ¬ (s.threads t = .entered 0 ∧ s.ring.size ≠ 0 ∧ s.wakeups t = 0)
  | _ => True

/-! ## The invariant -/

/-- One thread at most is inside, and only one that has left its identifier sleeps, while the ring is empty. -/
structure Holds (s : State) (holder : Option Nat) (xs : Bytes) : Prop where
  fifo : s.ring.Fifo stdinBufsize xs
  accepted : s.accepted = s.delivered ++ xs
  inside : ∀ t, (s.threads t).inside ↔ holder = some t
  sema : s.sema = if holder = none then 1 else 0
  sleeps : ∀ t, s.Sleeps t → s.waitth = some t ∧ s.ring.size = 0

section Steps

variable {s s' : State} {holder : Option Nat} {xs : Bytes} {t : Nat}

theorem inside_of_sleeps (sleeps : s.Sleeps t) : (s.threads t).inside := by
  unfold State.Sleeps at sleeps
  cases phase : s.threads t with
  | outside | waiting | entered | returning =>
      rw [phase] at sleeps
      exact sleeps.elim
  | registered | asleep => exact trivial

theorem Holds.sleeper (holds : Holds s holder xs) (sleeps : s.Sleeps t) : holder = some t :=
  (holds.inside t).mp (inside_of_sleeps sleeps)

theorem move_self (s : State) (t : Nat) (phase : Phase) : (s.move t phase).threads t = phase :=
  Function.update_self _ _ _

theorem move_other {t' : Nat} (other : t' ≠ t) (phase : Phase) : (s.move t phase).threads t' = s.threads t' :=
  Function.update_of_ne other _ _

theorem inside_move {holder' : Option Nat} {phase : Phase} (inside : ∀ t', (s.threads t').inside ↔ holder = some t')
    (here : phase.inside ↔ holder' = some t) (others : ∀ t', t' ≠ t → (holder = some t' ↔ holder' = some t')) :
    ∀ t', ((s.move t phase).threads t').inside ↔ holder' = some t' := by
  intro t'
  by_cases same : t' = t
  · subst same
    rw [move_self]
    exact here
  · rw [move_other same, inside]
    exact others t' same

theorem inside_stays {phase : Phase} (holds : Holds s holder xs) (held : holder = some t) (inside : phase.inside) :
    ∀ t', ((s.move t phase).threads t').inside ↔ holder = some t' :=
  inside_move holds.inside (iff_of_true inside held) fun _ _ => Iff.rfl

theorem holds_call {len : Nat} (holds : Holds s holder xs) (phase : s.threads t = .outside) :
    Holds (s.move t (.waiting len)) holder xs := by
  have outside : holder ≠ some t := fun held => by
    have inside := (holds.inside t).mpr held
    rw [phase] at inside
    exact inside
  refine ⟨holds.fifo, holds.accepted, ?_, holds.sema, fun t' sleeps => ?_⟩
  · exact inside_move holds.inside (iff_of_false id outside) fun _ _ => Iff.rfl
  · by_cases same : t' = t
    · subst same
      rw [State.Sleeps, move_self] at sleeps
      exact sleeps.elim
    · rw [State.Sleeps, move_other same] at sleeps
      exact holds.sleeps t' sleeps

theorem holds_enter {len : Nat} (holds : Holds s holder xs) (free : 0 < s.sema) :
    Holds { s.move t (.entered len) with sema := s.sema - 1 } (some t) xs := by
  have sema := holds.sema
  have none_ : holder = none := by
    by_contra held
    rw [if_neg held] at sema
    omega
  rw [if_pos none_] at sema
  refine ⟨holds.fifo, holds.accepted, ?_, ?_, fun t' sleeps => ?_⟩
  · refine inside_move holds.inside (iff_of_true trivial rfl) fun t' other => ?_
    rw [none_]
    exact iff_of_false (Option.some_ne_none t').symm fun same => other (Option.some.inj same).symm
  · show s.sema - 1 = _
    rw [sema]
    rfl
  · by_cases same : t' = t
    · subst same
      change (s.move t' (.entered len)).Sleeps t' at sleeps
      rw [State.Sleeps, move_self] at sleeps
      exact sleeps.elim
    · change (s.move t (.entered len)).Sleeps t' at sleeps
      rw [State.Sleeps, move_other same] at sleeps
      exact absurd (holds.sleeper sleeps) (none_ ▸ (Option.some_ne_none t').symm)

/-- Where the thread inside goes on only it can sleep. -/
theorem sleeps_stays (holds : Holds s holder xs) (held : holder = some t)
    (moved : ∀ t', t' ≠ t → (s'.threads t' = s.threads t' ∧ s'.wakeups t' = s.wakeups t'))
    (here : s'.Sleeps t → s'.waitth = some t ∧ s'.ring.size = 0) :
    ∀ t', s'.Sleeps t' → s'.waitth = some t' ∧ s'.ring.size = 0 := by
  intro t' sleeps
  by_cases same : t' = t
  · subst same
    exact here sleeps
  · obtain ⟨threads, wakeups⟩ := moved t' same
    rw [State.Sleeps, threads, wakeups] at sleeps
    exact absurd ((holds.sleeper sleeps).symm.trans held) fun same' => same (Option.some.inj same')

theorem holds_look {len : Nat} (holds : Holds s holder xs) (phase : s.threads t = .entered len)
    (allowed : Allowed s (.look t)) : ∃ xs', Holds (s.section_ t len) holder xs' := by
  have held : holder = some t := (holds.inside t).mp (by rw [phase]; trivial)
  have size := holds.fifo.size
  unfold State.section_
  dsimp only
  by_cases none_ : min len s.ring.size.toNat = 0
  · rw [if_pos none_]
    refine ⟨xs, holds.fifo, holds.accepted, inside_stays holds held trivial, holds.sema, ?_⟩
    refine sleeps_stays holds held (fun t' other => ⟨move_other other _, rfl⟩) fun sleeps => ⟨rfl, ?_⟩
    have pending : s.wakeups t = 0 := by
      change ((s.move t (.registered len)).threads t).sleeps (s.wakeups t) at sleeps
      rwa [move_self] at sleeps
    by_contra some_
    change s.ring.size ≠ 0 at some_
    have nothing : len = 0 := by omega
    exact allowed ⟨nothing ▸ phase, some_, pending⟩
  · rw [if_neg none_]
    have enough : min len s.ring.size.toNat ≤ xs.length := by omega
    obtain ⟨bytes, rest⟩ := holds.fifo.popMany enough
    refine ⟨xs.drop (min len s.ring.size.toNat), rest, ?_, inside_stays holds held trivial, holds.sema, ?_⟩
    · change s.accepted = s.delivered ++ _ ++ _
      rw [bytes, holds.accepted, List.append_assoc, List.take_append_drop]
    · refine sleeps_stays holds held (fun t' other => ⟨move_other other _, rfl⟩) fun sleeps => ?_
      change ((s.move t (.returning _)).threads t).sleeps (s.wakeups t) at sleeps
      rw [move_self] at sleeps
      exact sleeps.elim

theorem holds_sleep {len : Nat} (holds : Holds s holder xs) (phase : s.threads t = .registered len)
    (taken : step s (.sleep t) = some s') : Holds s' holder xs := by
  have held : holder = some t := (holds.inside t).mp (by rw [phase]; trivial)
  simp only [step, phase] at taken
  by_cases pending : 0 < s.wakeups t
  · rw [if_pos pending] at taken
    obtain rfl := Option.some.inj taken
    refine ⟨holds.fifo, holds.accepted, inside_stays holds held trivial, holds.sema, ?_⟩
    refine sleeps_stays holds held (fun t' other => ⟨move_other other _, Function.update_of_ne other _ _⟩) fun sleeps => ?_
    change ((s.move t (.entered len)).threads t).sleeps _ at sleeps
    rw [move_self] at sleeps
    exact sleeps.elim
  · rw [if_neg pending] at taken
    obtain rfl := Option.some.inj taken
    have sleeping : s.Sleeps t := by
      rw [State.Sleeps, phase]
      exact Nat.eq_zero_of_not_pos pending
    refine ⟨holds.fifo, holds.accepted, inside_stays holds held trivial, holds.sema, ?_⟩
    exact sleeps_stays holds held (fun t' other => ⟨move_other other _, rfl⟩) fun _ => holds.sleeps t sleeping

theorem holds_leave {data : Bytes} (holds : Holds s holder xs) (phase : s.threads t = .returning data) :
    Holds { s.move t .outside with sema := s.sema + 1 } none xs := by
  have held : holder = some t := (holds.inside t).mp (by rw [phase]; trivial)
  have sema := holds.sema
  rw [held, if_neg (Option.some_ne_none t)] at sema
  refine ⟨holds.fifo, holds.accepted, ?_, congrArg (· + 1) sema, ?_⟩
  · refine inside_move holds.inside (iff_of_false id (Option.some_ne_none t).symm) fun t' other => ?_
    rw [held]
    exact iff_of_false (fun same => other (Option.some.inj same).symm) (Option.some_ne_none t').symm
  · refine sleeps_stays holds held (fun t' other => ⟨move_other other _, rfl⟩) fun sleeps => ?_
    change ((s.move t .outside).threads t).sleeps _ at sleeps
    rw [move_self] at sleeps
    exact sleeps.elim

/-- A thread that is woken does not sleep, and nothing else changes. -/
theorem wakeup_spec (s : State) (t : Nat) : (s.wakeup t).ring = s.ring ∧ (s.wakeup t).waitth = s.waitth ∧
    (s.wakeup t).sema = s.sema ∧ (s.wakeup t).accepted = s.accepted ∧ (s.wakeup t).delivered = s.delivered ∧
    (∀ t', ((s.wakeup t).threads t').inside ↔ (s.threads t').inside) ∧
    ∀ t', (s.wakeup t).Sleeps t' → s.Sleeps t' ∧ t' ≠ t := by
  unfold State.wakeup
  split
  · next len phase =>
      refine ⟨rfl, rfl, rfl, rfl, rfl, fun t' => ?_, fun t' sleeps => ?_⟩
      · by_cases same : t' = t
        · subst same
          rw [move_self, phase]
          exact Iff.rfl
        · rw [move_other same]
      · by_cases same : t' = t
        · subst same
          rw [State.Sleeps, move_self] at sleeps
          exact sleeps.elim
        · rw [State.Sleeps, move_other same] at sleeps
          exact ⟨sleeps, same⟩
  · next awake =>
      refine ⟨rfl, rfl, rfl, rfl, rfl, fun t' => Iff.rfl, fun t' sleeps => ?_⟩
      change (s.threads t').sleeps (Function.update s.wakeups t (s.wakeups t + 1) t') at sleeps
      by_cases same : t' = t
      · subst same
        rw [Function.update_self] at sleeps
        cases phase : s.threads t' with
        | asleep len => exact absurd phase (awake len)
        | registered len =>
            rw [phase] at sleeps
            exact absurd sleeps (Nat.succ_ne_zero _)
        | outside | waiting | entered | returning =>
            rw [phase] at sleeps
            exact sleeps.elim
      · rw [Function.update_of_ne same] at sleeps
        exact ⟨sleeps, same⟩

theorem holds_wake (holds : Holds s holder xs) (t : Nat) : Holds (s.wakeup t) holder xs := by
  obtain ⟨ring, waitth, sema, accepted, delivered, inside, sleeps⟩ := wakeup_spec s t
  refine ⟨ring ▸ holds.fifo, ?_, fun t' => (inside t').trans (holds.inside t'), sema.trans holds.sema, ?_⟩
  · rw [accepted, delivered]
    exact holds.accepted
  · intro t' asleep
    rw [waitth, ring]
    exact holds.sleeps t' (sleeps t' asleep).1

/-- Whoever sleeps is woken, as its identifier is the one that has been left. -/
theorem notify_spec (s : State) : s.notify.ring = s.ring ∧ s.notify.sema = s.sema ∧ s.notify.accepted = s.accepted ∧
    s.notify.delivered = s.delivered ∧ (∀ t', (s.notify.threads t').inside ↔ (s.threads t').inside) ∧
    ∀ t', s.notify.Sleeps t' → s.Sleeps t' ∧ s.waitth ≠ some t' := by
  unfold State.notify
  cases waits : s.waitth with
  | none => exact ⟨rfl, rfl, rfl, rfl, fun _ => Iff.rfl, fun t' sleeps => ⟨sleeps, (Option.some_ne_none t').symm⟩⟩
  | some t =>
      obtain ⟨ring, -, sema, accepted, delivered, inside, sleeps⟩ := wakeup_spec s t
      refine ⟨ring, sema, accepted, delivered, inside, fun t' asleep => ?_⟩
      obtain ⟨before, other⟩ := sleeps t' asleep
      exact ⟨before, fun same => other (Option.some.inj same).symm⟩

theorem holds_add (holds : Holds s holder xs) (data : Bytes) : ∃ xs', Holds (s.addInputData data) holder xs' := by
  have size := holds.fifo.size
  have room := holds.fifo.room
  have cap : stdinBufsize = 4096 := rfl
  unfold State.addInputData
  generalize took : data.take (stdinBufsize - s.ring.size).toNat = taken
  have short : taken.length ≤ (stdinBufsize - s.ring.size).toNat := took ▸ List.length_take_le _ _
  have fifo := @RingBuffer.Fifo.pushAll _ _ _ _ holds.fifo taken (by omega)
  obtain ⟨ring, sema, accepted, delivered, inside, sleeps⟩ := notify_spec (s.feed taken)
  refine ⟨xs ++ taken, ring.symm ▸ fifo, ?_, fun t' => (inside t').trans (holds.inside t'), sema.trans holds.sema, ?_⟩
  · rw [accepted, delivered]
    change s.accepted ++ taken = s.delivered ++ _
    rw [holds.accepted, List.append_assoc]
  · intro t' asleep
    obtain ⟨before, other⟩ := sleeps t' asleep
    exact absurd (holds.sleeps t' before).1 other

theorem holds_step {label : Label} (holds : Holds s holder xs) (allowed : Allowed s label)
    (taken : step s label = some s') : ∃ holder' xs', Holds s' holder' xs' := by
  cases label with
  | call t len =>
      simp only [step] at taken
      cases phase : s.threads t with
      | outside =>
          simp only [phase] at taken
          obtain rfl := Option.some.inj taken
          exact ⟨holder, xs, holds_call holds phase⟩
      | waiting | entered | registered | asleep | returning => simp [phase] at taken
  | enter t =>
      simp only [step] at taken
      cases phase : s.threads t with
      | waiting len =>
          simp only [phase] at taken
          by_cases free : 0 < s.sema
          · rw [if_pos free] at taken
            obtain rfl := Option.some.inj taken
            exact ⟨some t, xs, holds_enter holds free⟩
          · rw [if_neg free] at taken
            cases taken
      | outside | entered | registered | asleep | returning => simp [phase] at taken
  | look t =>
      simp only [step] at taken
      cases phase : s.threads t with
      | entered len =>
          simp only [phase] at taken
          obtain rfl := Option.some.inj taken
          exact ⟨holder, holds_look holds phase allowed⟩
      | outside | waiting | registered | asleep | returning => simp [phase] at taken
  | sleep t =>
      cases phase : s.threads t with
      | registered len => exact ⟨holder, xs, holds_sleep holds phase taken⟩
      | outside | waiting | entered | asleep | returning => simp [step, phase] at taken
  | leave t =>
      simp only [step] at taken
      cases phase : s.threads t with
      | returning data =>
          simp only [phase] at taken
          obtain rfl := Option.some.inj taken
          exact ⟨none, xs, holds_leave holds phase⟩
      | outside | waiting | entered | registered | asleep => simp [phase] at taken
  | add data =>
      obtain rfl := Option.some.inj taken
      exact ⟨holder, holds_add holds data⟩
  | wake t =>
      obtain rfl := Option.some.inj taken
      exact ⟨holder, xs, holds_wake holds t⟩

theorem safe_of_holds (holds : Holds s holder xs) : Safe s := by
  have size := holds.fifo.size
  refine ⟨⟨by omega, holds.fifo.room⟩, holds.fifo.stop, ?_, fun t sleeps => (holds.sleeps t sleeps).2⟩
  rw [holds.accepted]
  have held := holds.fifo.contents 0
  simp only [Nat.sub_zero, Nat.zero_add, List.drop_zero] at held
  exact congrArg (s.delivered ++ ·) held.symm

/-- A thread that looks for no bytes where there are some falls asleep over them. -/
theorem stuck_of_not_allowed {label : Label} (taken : step s label = some s') (bad : ¬ Allowed s label) : ¬ Safe s' := by
  cases label with
  | look t =>
      obtain ⟨phase, some_, pending⟩ := not_not.mp bad
      simp only [step, phase] at taken
      obtain rfl := Option.some.inj taken
      intro safe
      have nothing : s.section_ t 0 = { s.move t (.registered 0) with waitth := some t } := by
        unfold State.section_
        dsimp only
        rw [if_pos (Nat.zero_min _)]
      rw [nothing] at safe
      refine some_ (safe.sleeps t ?_)
      change ((s.move t (.registered 0)).threads t).sleeps (s.wakeups t)
      rw [move_self]
      exact pending
  | call | enter | sleep | leave | add | wake => exact absurd trivial bad

end Steps

/-- As long as no thread looks for no bytes at all while there are some, the input is delivered in order and wakes those
that wait for it; and it does not longer than that. -/
theorem stdin_safe {s : State} (reachable : (system.guard Allowed).Reachable s) :
    Safe s ∧ ∀ label s', step s label = some s' → (Safe s' ↔ Allowed s label) := by
  obtain ⟨holder, xs, holds⟩ : ∃ holder xs, Holds s holder xs := by
    refine @System.Reachable.invariant _ _ (system.guard Allowed) (fun s => ∃ holder xs, Holds s holder xs) ?_ ?_ s reachable
    · rintro s ⟨buffer, wakeups, rfl⟩
      have empty : RingBuffer.Fifo stdinBufsize ⟨buffer, 0, 0, 0⟩ ([] : Bytes) := .clear ⟨buffer, 0, 0, 0⟩ (by decide)
      have outside (t : Nat) : (Phase.inside .outside) ↔ (none : Option Nat) = some t :=
        iff_of_false id (Option.some_ne_none t).symm
      exact ⟨none, [], empty, rfl, outside, rfl, fun t sleeps => sleeps.elim⟩
    · rintro s a s' ⟨holder, xs, holds⟩ ⟨allowed, taken⟩
      exact holds_step holds allowed taken
  refine ⟨safe_of_holds holds, fun label s' taken => ⟨fun safe => ?_, fun allowed => ?_⟩⟩
  · by_contra bad
    exact stuck_of_not_allowed taken bad safe
  · obtain ⟨holder', xs', holds'⟩ := holds_step holds allowed taken
    exact safe_of_holds holds'

def starting : State := ⟨⟨fun _ => 0, 0, 0, 0⟩, none, 1, fun _ => .outside, fun _ => 0, [], []⟩

theorem starts_starting : Starts starting := ⟨fun _ => 0, fun _ => 0, rfl⟩

theorem call_safe : Safe (starting.move 0 (.waiting 5)) ∧ ∀ label s', step (starting.move 0 (.waiting 5)) label = some s' →
    (Safe s' ↔ Allowed (starting.move 0 (.waiting 5)) label) :=
  stdin_safe (.step (.init starts_starting) (a := .call 0 5) ⟨trivial, rfl⟩)

/-- A letter comes in, and a thread reads no bytes. -/
def nothingRun : List Label := [.add [97], .call 0 0, .enter 0, .look 0]

theorem nothing_stuck : ∃ s, system.Reachable s ∧ ¬ Safe s := by
  obtain ⟨s, run⟩ : ∃ s, System.exec step starting nothingRun = some s := ⟨_, rfl⟩
  have start : system.Reachable starting := .init starts_starting
  refine ⟨s, start.exec (fun t a t' _ taken => taken) run, fun safe => ?_⟩
  obtain rfl := Option.some.inj run
  exact absurd (safe.sleeps 0 rfl) (by decide)

end Psplink.Tty
