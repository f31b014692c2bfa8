import Psplink.Config.Entries
import Psplink.Lib.Strtoul

/-!
# Loading the configuration

`configLoad` of psplink/config.c. What a handler does besides setting the context, which is loading a
module or setting options of the disassembler, is left out.
-/

namespace Psplink.Config
open Psplink.Lib Psplink.Util

def defaultBaudrate : BitVec 32 := 115200

structure ConfigContext where
  enableuser : BitVec 32
  cliprompt : Bytes
  path : Bytes
  startsh : Bytes
  resetonexit : BitVec 32
  wifi : BitVec 32
  wifishell : BitVec 32
  sioshell : BitVec 32
  conshell : BitVec 32
  consinterfere : BitVec 32
  pid : BitVec 32
  conscrosscmd : Bytes
  conssquarecmd : Bytes
  constrianglecmd : Bytes
  conscirclecmd : Bytes
  consselectcmd : Bytes
  consstartcmd : Bytes
  consdowncmd : Bytes
  consleftcmd : Bytes
  consupcmd : Bytes
  consrightcmd : Bytes
  pcterm : BitVec 32
  baudrate : BitVec 32
  usbmass : BitVec 32
  usbhost : BitVec 32
  usbshell : BitVec 32
  usbgdb : BitVec 32
  kprintf : BitVec 32

/-- After the `memset`. -/
def ConfigContext.zero : ConfigContext :=
  ⟨0, [], [], [], 0, 0, 0, 0, 0, 0, 0, [], [], [], [], [], [], [], [], [], [], 0, 0, 0, 0, 0, 0, 0⟩

/-! ## The handlers -/

abbrev Handler := ConfigContext → Bytes → BitVec 32 → ConfigContext

/-- `strncpy` to an array of this size and a NUL at its end. -/
def copied (size : Nat) (szVal : Bytes) : Bytes := szVal.take (size - 1)

def configUsbmass : Handler := fun ctx _ iVal => { ctx with usbmass := iVal }
def configUsbhost : Handler := fun ctx _ iVal => { ctx with usbhost := iVal }
def configBaud : Handler := fun ctx _ iVal =>
  { ctx with baudrate := if iVal ∈ [4800, 9600, 19200, 38400, 57600, 115200] then iVal else defaultBaudrate }
def configModload : Handler := fun ctx _ _ => ctx
def configPluser : Handler := fun ctx _ iVal => { ctx with enableuser := iVal }
def configPrompt : Handler := fun ctx szVal _ => { ctx with cliprompt := copied 128 szVal }
def configStartsh : Handler := fun ctx szVal _ => { ctx with startsh := copied 128 szVal }
def configPath : Handler := fun ctx szVal _ => { ctx with path := copied 128 szVal }
def configResetonexit : Handler := fun ctx _ iVal => { ctx with resetonexit := iVal }
def configWifishell : Handler := fun ctx _ iVal =>
  { ctx with wifishell := iVal, wifi := if iVal ≠ 0 ∧ ctx.wifi = 0 then 1 else ctx.wifi }
def configConshell : Handler := fun ctx _ iVal => { ctx with conshell := iVal }
def configConscrosscmd : Handler := fun ctx szVal _ => { ctx with conscrosscmd := copied 64 szVal }
def configConssquarecmd : Handler := fun ctx szVal _ => { ctx with conssquarecmd := copied 64 szVal }
def configConstrianglecmd : Handler := fun ctx szVal _ => { ctx with constrianglecmd := copied 64 szVal }
def configConscirclecmd : Handler := fun ctx szVal _ => { ctx with conscirclecmd := copied 64 szVal }
def configConsselectcmd : Handler := fun ctx szVal _ => { ctx with consselectcmd := copied 64 szVal }
def configConsstartcmd : Handler := fun ctx szVal _ => { ctx with consstartcmd := copied 64 szVal }
def configConsdowncmd : Handler := fun ctx szVal _ => { ctx with consdowncmd := copied 64 szVal }
def configConsleftcmd : Handler := fun ctx szVal _ => { ctx with consleftcmd := copied 64 szVal }
def configConsupcmd : Handler := fun ctx szVal _ => { ctx with consupcmd := copied 64 szVal }
def configConsrightcmd : Handler := fun ctx szVal _ => { ctx with consrightcmd := copied 64 szVal }
def configConsinterfere : Handler := fun ctx _ iVal => { ctx with consinterfere := iVal }
def configSioshell : Handler := fun ctx _ iVal => { ctx with sioshell := iVal }
def configPcterm : Handler := fun ctx _ iVal => { ctx with pcterm := iVal }
def configWifi : Handler := fun ctx _ iVal => { ctx with wifi := iVal }
def configUsbshell : Handler := fun ctx _ iVal => if iVal ≠ 0 then { ctx with usbhost := 1, usbshell := 1 } else ctx
def configUsbgdb : Handler := fun ctx _ iVal => { ctx with usbgdb := iVal }
def configDisopt : Handler := fun ctx _ _ => ctx
def configKprintf : Handler := fun ctx _ iVal => { ctx with kprintf := iVal }
def configPid : Handler := fun ctx _ iVal => { ctx with pid := iVal }

structure PsplinkConfig where
  name : Bytes
  isnum : Bool
  handler : Handler

/-- The table, the part without `USB_ONLY` included. -/
def configNames : List PsplinkConfig :=
  [⟨ascii "usbmass", true, configUsbmass⟩,
   ⟨ascii "usbhost", true, configUsbhost⟩,
   ⟨ascii "baud", true, configBaud⟩,
   ⟨ascii "modload", false, configModload⟩,
   ⟨ascii "pluser", true, configPluser⟩,
   ⟨ascii "prompt", false, configPrompt⟩,
   ⟨ascii "resetonexit", true, configResetonexit⟩,
   ⟨ascii "wifishell", true, configWifishell⟩,
   ⟨ascii "sioshell", true, configSioshell⟩,
   ⟨ascii "pcterm", true, configPcterm⟩,
   ⟨ascii "pid", true, configPid⟩,
   ⟨ascii "startsh", false, configStartsh⟩,
   ⟨ascii "conshell", true, configConshell⟩,
   ⟨ascii "consinterfere", true, configConsinterfere⟩,
   ⟨ascii "conscrosscmd", false, configConscrosscmd⟩,
   ⟨ascii "conssquarecmd", false, configConssquarecmd⟩,
   ⟨ascii "constrianglecmd", false, configConstrianglecmd⟩,
   ⟨ascii "conscirclecmd", false, configConscirclecmd⟩,
   ⟨ascii "consselectcmd", false, configConsselectcmd⟩,
   ⟨ascii "consstartcmd", false, configConsstartcmd⟩,
   ⟨ascii "consdowncmd", false, configConsdowncmd⟩,
   ⟨ascii "consleftcmd", false, configConsleftcmd⟩,
   ⟨ascii "consupcmd", false, configConsupcmd⟩,
   ⟨ascii "consrightcmd", false, configConsrightcmd⟩,
   ⟨ascii "wifi", true, configWifi⟩,
   ⟨ascii "path", false, configPath⟩,
   ⟨ascii "disopt", false, configDisopt⟩,
   ⟨ascii "usbshell", true, configUsbshell⟩,
   ⟨ascii "usbgdb", true, configUsbgdb⟩,
   ⟨ascii "kprintf", true, configKprintf⟩]

/-- The value, if nothing follows it. -/
def number (val : Bytes) : Option (BitVec 32) :=
  let read := Strtoul.strtoul 0 val
  if read.2 = [] then some read.1 else none

/-- The loop over the table, which a value that is not a number leaves. -/
def handleEntry (entry : Entry) : List PsplinkConfig → ConfigContext → ConfigContext
  | [], ctx => ctx
  | config :: configs, ctx =>
      if config.name = entry.1 then
        if config.isnum then
          match number entry.2 with
          | some iVal => handleEntry entry configs (config.handler ctx entry.2 iVal)
          | none => ctx
        else handleEntry entry configs (config.handler ctx entry.2 0)
      else handleEntry entry configs ctx

/-- Always enable at least the sio shell. -/
def enableSioshell (ctx : ConfigContext) : ConfigContext :=
  if ctx.usbshell = 0 ∧ ctx.wifishell = 0 then { ctx with sioshell := 1 } else ctx

def loadEntries (entries : List Entry) : ConfigContext :=
  enableSioshell (entries.foldl (fun ctx entry => handleEntry entry configNames ctx) .zero)

/-- Where the file does not open, there are no entries. -/
def configLoad {content : Bytes} (file : Option (Reads content)) : ConfigContext :=
  loadEntries (match file with
    | some reads => entriesOf reads
    | none => [])

/-- A shell is enabled and so is its transport. -/
def ConfigContext.Reachable (ctx : ConfigContext) : Prop :=
  ctx.sioshell ≠ 0 ∨ (ctx.usbshell ≠ 0 ∧ ctx.usbhost ≠ 0) ∨ (ctx.wifishell ≠ 0 ∧ ctx.wifi ≠ 0)

instance (ctx : ConfigContext) : Decidable ctx.Reachable := inferInstanceAs (Decidable (_ ∨ _ ∨ _))

/-! ## The options that matter -/

inductive ConsoleOption
  | usbhost | usbshell | wifi | wifishell | sioshell
deriving DecidableEq

def ConsoleOption.all : List ConsoleOption := [.usbhost, .usbshell, .wifi, .wifishell, .sioshell]

def ConsoleOption.row : ConsoleOption → PsplinkConfig
  | .usbhost => ⟨ascii "usbhost", true, configUsbhost⟩
  | .usbshell => ⟨ascii "usbshell", true, configUsbshell⟩
  | .wifi => ⟨ascii "wifi", true, configWifi⟩
  | .wifishell => ⟨ascii "wifishell", true, configWifishell⟩
  | .sioshell => ⟨ascii "sioshell", true, configSioshell⟩

/-- The option that the entry sets, and the number it is set to. -/
abbrev Setting := ConsoleOption × BitVec 32

def setting (entry : Entry) : Option Setting :=
  (ConsoleOption.all.find? fun option => option.row.name = entry.1).bind fun option =>
    (number entry.2).map fun iVal => (option, iVal)

def nonzero (v : BitVec 32) : Bool := v ≠ 0

@[simp] theorem nonzero_eq_true {v : BitVec 32} : nonzero v = true ↔ v ≠ 0 := decide_eq_true_iff
@[simp] theorem nonzero_zero : nonzero 0 = false := rfl
@[simp] theorem nonzero_one : nonzero 1 = true := rfl

def sets (option : ConsoleOption) (s : Setting) : Option Bool := if s.1 = option then some (nonzero s.2) else none

def enables (option : ConsoleOption) (s : Setting) : Option Bool :=
  if s.1 = option ∧ nonzero s.2 then some true else none

/-- Enabling a shell turns its transport on. -/
def transport (option shell : ConsoleOption) (s : Setting) : Option Bool := (sets option s).or (enables shell s)

/-- What the last line that says something about it says. -/
def lastTells (tells : Setting → Option Bool) (entries : List Entry) : Bool :=
  ((entries.filterMap setting).filterMap tells).getLast?.getD false

/-- No shell is enabled, or one whose transport is not turned off afterwards. -/
def Settled (entries : List Entry) : Prop :=
  let usbshell := lastTells (enables .usbshell) entries
  let wifishell := lastTells (sets .wifishell) entries
  lastTells (sets .sioshell) entries ∨ (usbshell ∧ lastTells (transport .usbhost .usbshell) entries) ∨
    (wifishell ∧ lastTells (transport .wifi .wifishell) entries) ∨ (usbshell = false ∧ wifishell = false)

theorem foldl_tells {σ : Type} (flag : σ → Bool) {tells : Setting → Option Bool} {step : σ → Entry → σ}
    (one : ∀ s entry, flag (step s entry) = ((setting entry).bind tells).getD (flag s)) (s : σ) (entries : List Entry) :
    flag (entries.foldl step s) = ((entries.filterMap setting).filterMap tells).getLast?.getD (flag s) := by
  rw [List.filterMap_filterMap]
  induction entries generalizing s with
  | nil => rfl
  | cons entry entries ih =>
      rw [List.foldl_cons, ih, one]
      cases told : (setting entry).bind tells with
      | none => simp [told]
      | some b => simp [told, List.getLast?_cons]

/-! ## The table -/

/-- What the handler of the option's row does. -/
def PsplinkConfig.handle (config : PsplinkConfig) (val : Bytes) (ctx : ConfigContext) : ConfigContext :=
  if config.isnum then (number val).elim ctx (config.handler ctx val) else config.handler ctx val 0

theorem handleEntry_of_not_mem {entry : Entry} {configs : List PsplinkConfig} (absent : entry.1 ∉ configs.map (·.name))
    (ctx : ConfigContext) : handleEntry entry configs ctx = ctx := by
  induction configs with
  | nil => rfl
  | cons config configs ih =>
      rw [List.map_cons, List.mem_cons, not_or] at absent
      rw [handleEntry, if_neg (Ne.symm absent.1), ih absent.2]

theorem handleEntry_of_mem {entry : Entry} {configs : List PsplinkConfig} (distinct : (configs.map (·.name)).Nodup)
    {config : PsplinkConfig} (mem : config ∈ configs) (named : config.name = entry.1) (ctx : ConfigContext) :
    handleEntry entry configs ctx = config.handle entry.2 ctx := by
  induction configs with
  | nil => exact absurd mem List.not_mem_nil
  | cons first configs ih =>
      rw [List.map_cons, List.nodup_cons] at distinct
      rw [handleEntry]
      obtain rfl | later := List.mem_cons.mp mem
      · have absent := handleEntry_of_not_mem (named ▸ distinct.1)
        rw [if_pos named, PsplinkConfig.handle]
        split
        · cases number entry.2 with
          | none => rfl
          | some iVal => exact absent _
        · exact absent _
      · have other : first.name ≠ entry.1 := by
          intro same
          exact distinct.1 (List.mem_map.mpr ⟨config, later, named.trans same.symm⟩)
        rw [if_neg other, ih distinct.2 later]

theorem configNames_nodup : (configNames.map (·.name)).Nodup := by decide

def consoleNames : List Bytes := ConsoleOption.all.map (·.row.name)

/-- The shells and their transports. -/
def ConfigContext.console (ctx : ConfigContext) : List (BitVec 32) :=
  [ctx.usbhost, ctx.usbshell, ctx.wifi, ctx.wifishell, ctx.sioshell]

theorem handler_console : ∀ config ∈ configNames, config.name ∉ consoleNames → ∀ ctx val iVal,
    (config.handler ctx val iVal).console = ctx.console := by
  simp only [configNames, List.forall_mem_cons]
  and_intros
  all_goals first
    | exact fun _ _ _ _ => rfl
    | exact fun other => absurd (by decide) other
    | exact fun _ mem => absurd mem List.not_mem_nil

theorem handle_console {config : PsplinkConfig} (mem : config ∈ configNames) (other : config.name ∉ consoleNames)
    (val : Bytes) (ctx : ConfigContext) : (config.handle val ctx).console = ctx.console := by
  have keeps := handler_console config mem other ctx val
  rw [PsplinkConfig.handle]
  split
  · cases number val with
    | none => rfl
    | some iVal => exact keeps iVal
  · exact keeps 0

theorem handleEntry_console {entry : Entry} (other : entry.1 ∉ consoleNames) (ctx : ConfigContext) :
    (handleEntry entry configNames ctx).console = ctx.console := by
  by_cases listed : entry.1 ∈ configNames.map (·.name)
  · obtain ⟨config, mem, named⟩ := List.mem_map.mp listed
    rw [handleEntry_of_mem configNames_nodup mem named]
    exact handle_console mem (named ▸ other) entry.2 ctx
  · rw [handleEntry_of_not_mem listed]

theorem ConsoleOption.row_mem (option : ConsoleOption) : option.row ∈ configNames := by
  cases option
  · exact List.mem_of_getElem? (show configNames[1]? = some _ from rfl)
  · exact List.mem_of_getElem? (show configNames[27]? = some _ from rfl)
  · exact List.mem_of_getElem? (show configNames[24]? = some _ from rfl)
  · exact List.mem_of_getElem? (show configNames[7]? = some _ from rfl)
  · exact List.mem_of_getElem? (show configNames[8]? = some _ from rfl)

theorem ConsoleOption.row_isnum (option : ConsoleOption) : option.row.isnum = true := by cases option <;> rfl

/-- What an entry does to the shells and their transports. -/
theorem handleEntry_setting (ctx : ConfigContext) (entry : Entry) :
    match setting entry with
    | none => (handleEntry entry configNames ctx).console = ctx.console
    | some (option, iVal) => handleEntry entry configNames ctx = option.row.handler ctx entry.2 iVal := by
  cases found : ConsoleOption.all.find? fun option => option.row.name = entry.1 with
  | none =>
      have other : entry.1 ∉ consoleNames := by
        intro mem
        obtain ⟨option, listed, named⟩ := List.mem_map.mp mem
        have := List.find?_eq_none.mp found option listed
        simp [named] at this
      rw [setting, found]
      exact handleEntry_console other ctx
  | some option =>
      have named : option.row.name = entry.1 := by simpa using List.find?_some found
      have handled := handleEntry_of_mem configNames_nodup option.row_mem named ctx
      rw [PsplinkConfig.handle, if_pos option.row_isnum] at handled
      rw [setting, found, handled]
      cases number entry.2 <;> rfl

/-! ## The loop -/

/-- A field that depends on the options as the settings tell. -/
structure Tells (field : ConfigContext → BitVec 32) (tells : Setting → Option Bool) : Prop where
  zero : field .zero = 0
  console : ∀ ctx ctx' : ConfigContext, ctx'.console = ctx.console → field ctx' = field ctx
  handled : ∀ (ctx : ConfigContext) (val : Bytes) (option : ConsoleOption) (iVal : BitVec 32),
    nonzero (field (option.row.handler ctx val iVal)) = (tells (option, iVal)).getD (nonzero (field ctx))

def loaded (entries : List Entry) : ConfigContext :=
  entries.foldl (fun ctx entry => handleEntry entry configNames ctx) .zero

namespace Tells

variable {field : ConfigContext → BitVec 32} {tells : Setting → Option Bool}

theorem entry (t : Tells field tells) (ctx : ConfigContext) (entry : Entry) :
    nonzero (field (handleEntry entry configNames ctx)) =
      ((setting entry).bind tells).getD (nonzero (field ctx)) := by
  have step := handleEntry_setting ctx entry
  cases told : setting entry with
  | none =>
      rw [told] at step
      rw [t.console _ _ step]
      rfl
  | some setting =>
      rw [told] at step
      rw [step]
      exact t.handled ctx entry.2 setting.1 setting.2

theorem loaded (t : Tells field tells) (entries : List Entry) :
    nonzero (field (loaded entries)) = lastTells tells entries := by
  have last := foldl_tells (fun ctx => nonzero (field ctx)) t.entry .zero entries
  rw [t.zero] at last
  exact last

end Tells

theorem tells_sioshell : Tells (·.sioshell) (sets .sioshell) where
  zero := rfl
  console ctx ctx' same := by simp_all [ConfigContext.console]
  handled ctx val option iVal := by
    cases option <;> simp [ConsoleOption.row, sets, configUsbhost, configUsbshell, configWifi, configWifishell,
      configSioshell, apply_ite ConfigContext.sioshell]

theorem tells_usbshell : Tells (·.usbshell) (enables .usbshell) where
  zero := rfl
  console ctx ctx' same := by simp_all [ConfigContext.console]
  handled ctx val option iVal := by
    by_cases zero : iVal = 0#32 <;> cases option <;> simp [zero, ConsoleOption.row, enables, configUsbhost, configUsbshell,
      configWifi, configWifishell, configSioshell]

theorem tells_usbhost : Tells (·.usbhost) (transport .usbhost .usbshell) where
  zero := rfl
  console ctx ctx' same := by simp_all [ConfigContext.console]
  handled ctx val option iVal := by
    by_cases zero : iVal = 0#32 <;> cases option <;> simp [zero, ConsoleOption.row, transport, sets, enables,
      configUsbhost, configUsbshell, configWifi, configWifishell, configSioshell]

theorem tells_wifishell : Tells (·.wifishell) (sets .wifishell) where
  zero := rfl
  console ctx ctx' same := by simp_all [ConfigContext.console]
  handled ctx val option iVal := by
    cases option <;> simp [ConsoleOption.row, sets, configUsbhost, configUsbshell, configWifi, configWifishell,
      configSioshell, apply_ite ConfigContext.wifishell]

theorem tells_wifi : Tells (·.wifi) (transport .wifi .wifishell) where
  zero := rfl
  console ctx ctx' same := by simp_all [ConfigContext.console]
  handled ctx val option iVal := by
    by_cases zero : iVal = 0#32 <;> by_cases off : ctx.wifi = 0#32 <;> cases option <;> simp [zero, off, ConsoleOption.row,
      transport, sets, enables, configUsbhost, configUsbshell, configWifi, configWifishell, configSioshell]

theorem loadEntries_reachable (entries : List Entry) : (loadEntries entries).Reachable ↔ Settled entries := by
  have sioshell := tells_sioshell.loaded entries
  have usbshell := tells_usbshell.loaded entries
  have usbhost := tells_usbhost.loaded entries
  have wifishell := tells_wifishell.loaded entries
  have wifi := tells_wifi.loaded entries
  simp only [Settled, ← sioshell, ← usbshell, ← usbhost, ← wifishell, ← wifi, ← Bool.not_eq_true, nonzero_eq_true,
    not_not]
  change (enableSioshell (loaded entries)).Reachable ↔ _
  rw [enableSioshell]
  split <;> rename_i none <;> simp only [ConfigContext.Reachable]
  · simp [none]
  · rw [or_iff_left none]

/-- After the last line that matters there is a shell with its transport, or none is enabled. -/
theorem configLoad_reachable {content : Bytes} (file : Option (Reads content)) :
    (configLoad file).Reachable ↔ Settled (file.elim [] entriesOf) := by
  cases file with
  | none => exact loadEntries_reachable _
  | some reads => exact loadEntries_reachable _

theorem configLoad_unreachable : ∃ (content : Bytes) (reads : Reads content),
    ¬ (configLoad (some reads)).Reachable := by
  refine ⟨ascii "usbshell=1\nusbhost=0\n", ⟨[ascii "usbshell=1\nusbhost=0\n"], rfl, by decide⟩, ?_⟩
  decide +kernel

end Psplink.Config
