import Mathlib.Logic.Function.Basic
import Psplink.Lib.System

/-!
# Mass storage and host mode

`init_usbmass`, `stop_usbmass`, `init_usbhost` and `stop_usbhost` of psplink/util.c start and stop the drivers of the two
modes. Both need the bus driver, and any call of the kernel can fail.
-/

namespace Psplink.Usb
open Psplink.Lib

inductive UsbStates where
  | noStart
  | on
  | off
deriving DecidableEq

inductive Mode where
  | mass
  | host
deriving DecidableEq

inductive Driver where
  | bus
  | stor
  | hostfs
deriving DecidableEq

/-! ## The code -/

/-- The calls whose results the code looks at. -/
inductive Call where
  | start (driver : Driver)
  | stop (driver : Driver)
  | setCapacity
  | activate
  | deactivate

/-- The two flags, and what the kernel has started and activated. -/
structure State where
  state : Mode → UsbStates
  started : Driver → Bool
  active : Option Mode
  loaded : List String

namespace State

variable (ret : Call → Int) (s : State)

/-! A call that fails does nothing. -/

def sceUsbStart (driver : Driver) : State :=
  if ret (.start driver) = 0 then { s with started := Function.update s.started driver true } else s

def sceUsbStop (driver : Driver) : State :=
  if ret (.stop driver) = 0 then { s with started := Function.update s.started driver false } else s

def sceUsbActivate (mode : Mode) : State := if ret .activate = 0 then { s with active := some mode } else s

def sceUsbDeactivate : State := if ret .deactivate = 0 then { s with active := none } else s

def set (mode : Mode) (state : UsbStates) : State := { s with state := Function.update s.state mode state }

def load (mode : Mode) (modules : List String) : State :=
  if s.state mode = .noStart then { s with loaded := s.loaded ++ modules } else s

def massModules : List String :=
  ["flash0:/kd/semawm.prx", "flash0:/kd/usbstor.prx", "flash0:/kd/usbstormgr.prx", "flash0:/kd/usbstorms.prx",
    "flash0:/kd/usbstorboot.prx"]

def initUsbmass : Int × State :=
  if s.state .mass = .on ∨ s.state .host = .on then (0, s)
  else
    let s := (s.load .mass massModules).sceUsbStart ret .bus
    if ret (.start .bus) ≠ 0 then (ret (.start .bus), s)
    else
      let s := s.sceUsbStart ret .stor
      if ret (.start .stor) ≠ 0 then (ret (.start .stor), s)
      else if ret .setCapacity ≠ 0 then (ret .setCapacity, s)
      else
        let s := s.sceUsbActivate ret .mass
        (ret .activate, if ret .activate = 0 then s.set .mass .on else s)

def initUsbhost (bootpath : String) : Int × State :=
  if s.state .mass = .on ∨ s.state .host = .on then (0, s)
  else
    let s := (s.load .host [bootpath ++ "usbhostfs.prx"]).sceUsbStart ret .bus
    if ret (.start .bus) ≠ 0 then (ret (.start .bus), s)
    else
      let s := s.sceUsbStart ret .hostfs
      if ret (.start .hostfs) ≠ 0 then (ret (.start .hostfs), s)
      else
        let s := s.sceUsbActivate ret .host
        (ret .activate, if ret .activate = 0 then s.set .host .on else s)

/-- The stop of a mode with its driver, unless the other mode is on. -/
def stopUsb (mode other : Mode) (driver : Driver) : Int × State :=
  if s.state mode ≠ .on ∨ s.state other = .on then (0, s)
  else (0, (((s.sceUsbDeactivate ret).sceUsbStop ret driver).sceUsbStop ret .bus).set mode .off)

def stopUsbmass : Int × State := s.stopUsb ret .mass .host .stor
def stopUsbhost : Int × State := s.stopUsb ret .host .mass .hostfs

end State

inductive Label where
  | initUsbmass (ret : Call → Int)
  | stopUsbmass (ret : Call → Int)
  | initUsbhost (bootpath : String) (ret : Call → Int)
  | stopUsbhost (ret : Call → Int)

def step (s : State) : Label → Int × State
  | .initUsbmass ret => s.initUsbmass ret
  | .stopUsbmass ret => s.stopUsbmass ret
  | .initUsbhost bootpath ret => s.initUsbhost ret bootpath
  | .stopUsbhost ret => s.stopUsbhost ret

def start : State := ⟨fun _ => .noStart, fun _ => false, none, []⟩

def system : System State Label where
  init s := s = start
  step s a s' := (step s a).2 = s'

/-! ## What should hold -/

def own : Mode → Driver
  | .mass => .stor
  | .host => .hostfs

def State.Runs (s : State) (mode : Mode) : Prop :=
  s.started .bus = true ∧ s.started (own mode) = true ∧ s.active = some mode

structure Safe (s : State) : Prop where
  exclusive : ¬ (s.state .mass = .on ∧ s.state .host = .on)
  flags : ∀ mode, s.state mode = .on ↔ s.Runs mode

def Label.IsInit : Label → Prop
  | .initUsbmass _ | .initUsbhost _ _ => True
  | .stopUsbmass _ | .stopUsbhost _ => False

def Undone (s : State) (label : Label) : Prop :=
  label.IsInit → (step s label).1 ≠ 0 → ∀ driver, (step s label).2.started driver = true → s.started driver = true

def Completes (ret : Call → Int) : Mode → Prop
  | .mass => ret (.start .stor) = 0 ∧ ret .setCapacity = 0 ∧ ret .activate = 0
  | .host => ret (.start .hostfs) = 0 ∧ ret .activate = 0

/-- An init that fails starts only what an earlier stop has left. -/
def InitAllowed (s : State) (mode : Mode) (ret : Call → Int) : Prop :=
  ¬ (s.state .mass = .on ∨ s.state .host = .on) → ret (.start .bus) = 0 →
    Completes ret mode ∨ s.started .bus = true ∧ (ret (.start (own mode)) = 0 → s.started (own mode) = true)

def StopAllowed (s : State) (mode : Mode) (ret : Call → Int) : Prop :=
  s.state mode = .on → ret .deactivate = 0 ∨ ret (.stop (own mode)) = 0 ∨ ret (.stop .bus) = 0

def Allowed (s : State) : Label → Prop
  | .initUsbmass ret => InitAllowed s .mass ret
  | .stopUsbmass ret => StopAllowed s .mass ret
  | .initUsbhost _ ret => InitAllowed s .host ret
  | .stopUsbhost ret => StopAllowed s .host ret

/-! ## What a call does -/

section Calls

variable {s s' : State} {ret : Call → Int} {mode : Mode} {code : Int}

theorem start_eq {driver : Driver} (done : ret (.start driver) = 0) :
    s.sceUsbStart ret driver = { s with started := Function.update s.started driver true } := if_pos done

theorem start_failed {driver : Driver} (failed : ret (.start driver) ≠ 0) : s.sceUsbStart ret driver = s := if_neg failed

theorem load_eq (modules : List String) : ∃ loaded, s.load mode modules = { s with loaded := loaded } := by
  unfold State.load
  split
  · exact ⟨_, rfl⟩
  · exact ⟨s.loaded, rfl⟩

theorem update_true_iff {f : Driver → Bool} {d d' : Driver} :
    Function.update f d true d' = true ↔ d' = d ∨ f d' = true := by
  by_cases same : d' = d
  · rw [same, Function.update_self]
    exact iff_of_true rfl (.inl rfl)
  · rw [Function.update_of_ne same]
    exact (or_iff_right same).symm

/-- An init that finds a mode on, one that fails after it has started some drivers, and one that completes. -/
inductive InitOutcome (s : State) (mode : Mode) (ret : Call → Int) : Int × State → Prop
  | busy : s.state .mass = .on ∨ s.state .host = .on → InitOutcome s mode ret (0, s)
  | failed {code : Int} {s' : State} (new : Driver → Prop) : code ≠ 0 → s'.state = s.state → s'.active = s.active →
      (∀ driver, s'.started driver = true ↔ new driver ∨ s.started driver = true) →
      (InitAllowed s mode ret ↔ ∀ driver, new driver → s.started driver = true) → InitOutcome s mode ret (code, s')
  | done {s' : State} : ¬ (s.state .mass = .on ∨ s.state .host = .on) → InitAllowed s mode ret →
      s'.state = Function.update s.state mode .on → s'.active = some mode → s'.Runs mode → InitOutcome s mode ret (0, s')

theorem InitOutcome.noBus {loaded : List String} (failed : ret (.start .bus) ≠ 0) :
    InitOutcome s mode ret (ret (.start .bus), { s with loaded := loaded }) :=
  .failed (fun _ => False) failed rfl rfl (fun _ => (or_iff_right id).symm)
    (iff_of_true (fun _ done => absurd done failed) fun _ new => new.elim)

theorem InitOutcome.busOnly {loaded : List String} (idle : ¬ (s.state .mass = .on ∨ s.state .host = .on))
    (bus : ret (.start .bus) = 0) (failed : ret (.start (own mode)) ≠ 0) :
    InitOutcome s mode ret (ret (.start (own mode)),
      { s with loaded := loaded, started := Function.update s.started .bus true }) := by
  refine .failed (· = .bus) failed rfl rfl (fun _ => update_true_iff) ⟨fun allowed driver new => ?_, fun old _ _ => ?_⟩
  · rcases allowed idle bus with completes | left
    · cases mode with
      | mass => exact absurd completes.1 failed
      | host => exact absurd completes.1 failed
    · exact new ▸ left.1
  · exact .inr ⟨old .bus rfl, fun done => absurd done failed⟩

theorem InitOutcome.both {loaded : List String} (idle : ¬ (s.state .mass = .on ∨ s.state .host = .on))
    (bus : ret (.start .bus) = 0) (driver : ret (.start (own mode)) = 0) (failed : ¬ Completes ret mode) (error : code ≠ 0) :
    InitOutcome s mode ret (code, { s with
      loaded := loaded
      started := Function.update (Function.update s.started .bus true) (own mode) true }) := by
  refine .failed (fun d => d = own mode ∨ d = .bus) error rfl rfl (fun d => ?_) ⟨fun allowed d new => ?_, fun old _ _ => ?_⟩
  · exact update_true_iff.trans ((or_congr_right update_true_iff).trans or_assoc.symm)
  · obtain ⟨bus, own⟩ := (allowed idle bus).resolve_left failed
    rcases new with rfl | rfl
    · exact own driver
    · exact bus
  · exact .inr ⟨old .bus (.inr rfl), fun _ => old (own mode) (.inl rfl)⟩

theorem InitOutcome.on {loaded : List String} (idle : ¬ (s.state .mass = .on ∨ s.state .host = .on))
    (completes : Completes ret mode) : InitOutcome s mode ret (0, { s with
      loaded := loaded
      started := Function.update (Function.update s.started .bus true) (own mode) true
      active := some mode
      state := Function.update s.state mode .on }) :=
  .done idle (fun _ _ => .inl completes) rfl rfl
    ⟨update_true_iff.mpr (.inr (Function.update_self _ _ _)), Function.update_self _ _ _, rfl⟩

theorem initUsbmass_outcome (s : State) (ret : Call → Int) : InitOutcome s .mass ret (s.initUsbmass ret) := by
  unfold State.initUsbmass
  by_cases idle : s.state .mass = .on ∨ s.state .host = .on
  · rw [if_pos idle]
    exact .busy idle
  rw [if_neg idle]
  obtain ⟨loaded, load⟩ := @load_eq s .mass State.massModules
  rw [load]
  dsimp only
  by_cases bus : ret (.start .bus) = 0
  swap
  · rw [if_pos bus, start_failed bus]
    exact .noBus bus
  rw [if_neg (not_not.mpr bus), start_eq bus]
  by_cases stor : ret (.start .stor) = 0
  swap
  · rw [if_pos stor, start_failed stor]
    exact .busOnly idle bus stor
  rw [if_neg (not_not.mpr stor), start_eq stor]
  by_cases capacity : ret .setCapacity = 0
  swap
  · rw [if_pos capacity]
    exact .both idle bus stor (fun completes => capacity completes.2.1) capacity
  rw [if_neg (not_not.mpr capacity), State.sceUsbActivate]
  by_cases activate : ret .activate = 0
  · rw [if_pos activate, if_pos activate, activate]
    exact .on idle ⟨stor, capacity, activate⟩
  · rw [if_neg activate, if_neg activate]
    exact .both idle bus stor (fun completes => activate completes.2.2) activate

theorem initUsbhost_outcome (s : State) (bootpath : String) (ret : Call → Int) :
    InitOutcome s .host ret (s.initUsbhost ret bootpath) := by
  unfold State.initUsbhost
  by_cases idle : s.state .mass = .on ∨ s.state .host = .on
  · rw [if_pos idle]
    exact .busy idle
  rw [if_neg idle]
  obtain ⟨loaded, load⟩ := @load_eq s .host [bootpath ++ "usbhostfs.prx"]
  rw [load]
  dsimp only
  by_cases bus : ret (.start .bus) = 0
  swap
  · rw [if_pos bus, start_failed bus]
    exact .noBus bus
  rw [if_neg (not_not.mpr bus), start_eq bus]
  by_cases driver : ret (.start .hostfs) = 0
  swap
  · rw [if_pos driver, start_failed driver]
    exact .busOnly idle bus driver
  rw [if_neg (not_not.mpr driver), start_eq driver, State.sceUsbActivate]
  by_cases activate : ret .activate = 0
  · rw [if_pos activate, if_pos activate, activate]
    exact .on idle ⟨driver, activate⟩
  · rw [if_neg activate, if_neg activate]
    exact .both idle bus driver (fun completes => activate completes.2) activate

theorem runs_unique {mode' : Mode} (runs : s.Runs mode) (runs' : s.Runs mode') : mode = mode' :=
  Option.some.inj (runs.2.2.symm.trans runs'.2.2)

theorem safe_of_flags (flags : ∀ mode, s.state mode = .on ↔ s.Runs mode) : Safe s where
  exclusive both := absurd (runs_unique ((flags _).mp both.1) ((flags _).mp both.2)) (by decide)
  flags := flags

theorem runs_congr (started : ∀ driver, s'.started driver = true ↔ s.started driver = true) (active : s'.active = s.active) :
    s'.Runs mode ↔ s.Runs mode := by
  rw [State.Runs, State.Runs, started, started, active]

/-- An init keeps the flags right and leaves nothing, exactly where it is allowed. -/
theorem InitOutcome.safe_iff {out : Int × State} (outcome : InitOutcome s mode ret out) (safe : Safe s) :
    (Safe out.2 ∧ (out.1 ≠ 0 → ∀ driver, out.2.started driver = true → s.started driver = true)) ↔
      InitAllowed s mode ret := by
  cases outcome with
  | busy on => exact iff_of_true ⟨safe, fun error => absurd rfl error⟩ fun idle => absurd on idle
  | @failed code s' new error state active started allowed =>
      rw [allowed]
      refine ⟨fun ⟨_, undone⟩ driver isNew => undone error driver ((started driver).mpr (.inl isNew)), fun old => ?_⟩
      have same (driver : Driver) : s'.started driver = true ↔ s.started driver = true :=
        (started driver).trans (or_iff_right_of_imp (old driver))
      refine ⟨safe_of_flags fun mode' => ?_, fun _ driver => (same driver).mp⟩
      rw [state, runs_congr same active]
      exact safe.flags mode'
  | @done s' idle allowed state active runs =>
      refine iff_of_true ⟨safe_of_flags fun mode' => ?_, fun error => absurd rfl error⟩ allowed
      rw [state]
      by_cases same : mode' = mode
      · rw [same, Function.update_self]
        exact iff_of_true rfl runs
      · rw [Function.update_of_ne same]
        refine iff_of_false (fun on => idle ?_) fun runs' => same (runs_unique runs' runs)
        cases mode' with
        | mass => exact .inl on
        | host => exact .inr on

theorem stop_started {driver d : Driver} : (s.sceUsbStop ret driver).started d = true ↔
    s.started d = true ∧ ¬ (d = driver ∧ ret (.stop driver) = 0) := by
  unfold State.sceUsbStop
  by_cases done : ret (.stop driver) = 0
  · rw [if_pos done]
    by_cases same : d = driver
    · change Function.update s.started driver false d = true ↔ _
      rw [same, Function.update_self]
      exact iff_of_false Bool.false_ne_true fun both => both.2 ⟨rfl, done⟩
    · change Function.update s.started driver false d = true ↔ _
      rw [Function.update_of_ne same]
      exact (and_iff_left fun both => same both.1).symm
  · rw [if_neg done]
    exact (and_iff_left fun both => done both.2).symm

theorem stop_frame (driver : Driver) : (s.sceUsbStop ret driver).active = s.active ∧
    (s.sceUsbStop ret driver).state = s.state := by
  unfold State.sceUsbStop
  split <;> exact ⟨rfl, rfl⟩

theorem deactivate_active : (s.sceUsbDeactivate ret).active = some mode ↔ s.active = some mode ∧ ret .deactivate ≠ 0 := by
  unfold State.sceUsbDeactivate
  by_cases done : ret .deactivate = 0
  · rw [if_pos done]
    exact iff_of_false (Option.some_ne_none mode).symm fun both => both.2 done
  · rw [if_neg done]
    exact (and_iff_left done).symm

theorem deactivate_frame : (s.sceUsbDeactivate ret).started = s.started ∧ (s.sceUsbDeactivate ret).state = s.state := by
  unfold State.sceUsbDeactivate
  split <;> exact ⟨rfl, rfl⟩

def stopped (s : State) (ret : Call → Int) (driver : Driver) : State :=
  ((s.sceUsbDeactivate ret).sceUsbStop ret driver).sceUsbStop ret .bus

theorem stopped_state (driver : Driver) : (stopped s ret driver).state = s.state := by
  rw [stopped, (stop_frame .bus).2, (stop_frame driver).2, deactivate_frame.2]

theorem stopped_active (driver : Driver) :
    (stopped s ret driver).active = some mode ↔ s.active = some mode ∧ ret .deactivate ≠ 0 := by
  rw [stopped, (stop_frame .bus).1, (stop_frame driver).1, deactivate_active]

/-- The drivers of a mode run on only if every call fails. -/
theorem runs_stopped (runs : s.Runs mode) : (stopped s ret (own mode)).Runs mode ↔
    ¬ (ret .deactivate = 0 ∨ ret (.stop (own mode)) = 0 ∨ ret (.stop .bus) = 0) := by
  obtain ⟨bus, driver, active⟩ := runs
  have apart : Driver.bus ≠ own mode := by cases mode <;> decide
  rw [State.Runs, stopped_active, stopped, stop_started, stop_started, stop_started, stop_started, deactivate_frame.1, bus,
    driver, active]
  simp [apart, apart.symm]
  tauto

/-- A stop keeps the flags right exactly if one of its calls succeeds. -/
theorem stop_safe_iff (safe : Safe s) {other : Mode} (others : ∀ mode', mode' ≠ mode ↔ mode' = other) :
    Safe (s.stopUsb ret mode other (own mode)).2 ↔ StopAllowed s mode ret := by
  have apart : other ≠ mode := (others other).mpr rfl
  unfold State.stopUsb
  by_cases off : s.state mode ≠ .on ∨ s.state other = .on
  · rw [if_pos off]
    refine iff_of_true safe fun on => ?_
    have on' := off.resolve_left (not_not.mpr on)
    exact absurd (runs_unique ((safe.flags other).mp on') ((safe.flags mode).mp on)) apart
  · rw [if_neg off]
    obtain ⟨on, off'⟩ := not_or.mp off
    have on := not_not.mp on
    have runs := (safe.flags mode).mp on
    have runs' (mode' : Mode) : ((stopped s ret (own mode)).set mode .off).Runs mode' ↔
      (stopped s ret (own mode)).Runs mode' := Iff.rfl
    have allowed : StopAllowed s mode ret ↔ ¬ (stopped s ret (own mode)).Runs mode := by
      rw [runs_stopped runs, not_not]
      exact ⟨fun allowed => allowed on, fun one _ => one⟩
    rw [allowed]
    refine ⟨fun safe' still => ?_, fun ended => safe_of_flags fun mode' => ?_⟩
    · have on' := (safe'.flags mode).mpr still
      change Function.update (stopped s ret (own mode)).state mode .off mode = .on at on'
      rw [Function.update_self] at on'
      cases on'
    · change Function.update (stopped s ret (own mode)).state mode .off mode' = .on ↔ (stopped s ret (own mode)).Runs mode'
      by_cases same : mode' = mode
      · rw [same, Function.update_self]
        exact iff_of_false (by decide) ended
      · rw [Function.update_of_ne same, stopped_state, (others mode').mp same]
        refine iff_of_false off' fun still => ?_
        have active := ((stopped_active (own mode)).mp still.2.2).1
        exact apart (Option.some.inj (active.symm.trans runs.2.2))

theorem step_iff (safe : Safe s) (label : Label) : Safe (step s label).2 ∧ Undone s label ↔ Allowed s label := by
  cases label with
  | initUsbmass ret =>
      refine Iff.trans (and_congr_right fun _ => forall_prop_of_true trivial) ?_
      exact (initUsbmass_outcome s ret).safe_iff safe
  | initUsbhost bootpath ret =>
      refine Iff.trans (and_congr_right fun _ => forall_prop_of_true trivial) ?_
      exact (initUsbhost_outcome s bootpath ret).safe_iff safe
  | stopUsbmass ret =>
      have others (mode' : Mode) : mode' ≠ .mass ↔ mode' = .host := by cases mode' <;> decide
      exact (and_iff_left fun init => init.elim).trans (stop_safe_iff safe others)
  | stopUsbhost ret =>
      have others (mode' : Mode) : mode' ≠ .host ↔ mode' = .mass := by cases mode' <;> decide
      exact (and_iff_left fun init => init.elim).trans (stop_safe_iff safe others)

end Calls

theorem safe_start : Safe start := safe_of_flags fun _ => by
  have off : UsbStates.noStart ≠ .on := by decide
  exact iff_of_false off fun runs => Bool.false_ne_true runs.1

/-- In every run whose calls are allowed the flags tell what runs, and a call that is not allowed ends that. -/
theorem run_flags {s : State} (reachable : (system.guard Allowed).Reachable s) :
    Safe s ∧ ∀ label, Safe (step s label).2 ∧ Undone s label ↔ Allowed s label := by
  have safe : Safe s := by
    refine @System.Reachable.invariant _ _ (system.guard Allowed) Safe ?_ ?_ s reachable
    · rintro s rfl
      exact safe_start
    · rintro s a s' safe ⟨allowed, rfl⟩
      exact ((step_iff safe a).mpr allowed).1
  exact ⟨safe, step_iff safe⟩

def succeeds : Call → Int := fun _ => 0

theorem mass_flags : Safe (step start (.initUsbmass succeeds)).2 ∧
    ∀ label, Safe (step (step start (.initUsbmass succeeds)).2 label).2 ∧ Undone (step start (.initUsbmass succeeds)).2 label ↔
      Allowed (step start (.initUsbmass succeeds)).2 label :=
  run_flags (.step (.init rfl) (a := .initUsbmass succeeds) ⟨fun _ _ => .inl ⟨rfl, rfl, rfl⟩, rfl⟩)

/-- The driver of the mode fails behind that of the bus. -/
def secondFails : Call → Int
  | .start .stor => -1
  | _ => 0

theorem bus_left : ∃ s label, system.Reachable s ∧ ¬ (Safe (step s label).2 ∧ Undone s label) := by
  refine ⟨start, .initUsbmass secondFails, .init rfl, fun both => ?_⟩
  have old := both.2 trivial (by decide) .bus rfl
  exact Bool.false_ne_true old

end Psplink.Usb
