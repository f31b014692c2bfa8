import Psplink.Lib.Printf
import Psplink.Shell.Exec

/-!
# Blocks of arguments

Where psplink and its bootstrap put strings one after the other into an array: `build_args`, `build_bootargs` and
`save_execargs` of psplink/util.c, `build_args` of bootstrap/main.c, and what calls them.
-/

namespace Psplink.Shell.Blocks
open Psplink.Lib Psplink.Lib.CStr

/-! ## The encoders -/

structure Store where
  loc : Nat
  bytes : Bytes

/-- What is written to an array of so many bytes. -/
structure Build where
  room : Nat
  stores : List Store

/-- `strcpy` of one string after the other, from a place on. -/
def appendArgs : Nat → List CStr → List Store
  | _, [] => []
  | loc, arg :: argv => ⟨loc, arg.bytes⟩ :: appendArgs (loc + (arg.text.length + 1)) argv

def buildBootargs (bootfile : CStr) (execfile : Option CStr) (argv : List CStr) : List Store :=
  let loc := bootfile.text.length + 1
  ⟨0, bootfile.bytes⟩ :: match execfile with
    | none => []
    | some execfile => ⟨loc, execfile.bytes⟩ :: appendArgs (loc + (execfile.text.length + 1)) argv

def buildArgs (execfile : CStr) (argv : List CStr) : List Store :=
  ⟨0, execfile.bytes⟩ :: appendArgs (execfile.text.length + 1) argv

def saveExecargs (argv : List CStr) : List Store :=
  appendArgs 0 (argv.take (if argv.length < maxArgs then argv.length else maxArgs - 1))

/-- `build_args` of the bootstrap -/
def bootstrapBuildArgs (bootfile : CStr) (thid : BitVec 32) (execfile : Option CStr) (argv : List CStr) : List Store :=
  let loc := bootfile.text.length + 1
  let loc' := loc + ((hex8 thid).text.length + 1)
  ⟨0, bootfile.bytes⟩ :: ⟨loc, (hex8 thid).bytes⟩ :: match execfile with
    | none => []
    | some execfile => ⟨loc', execfile.bytes⟩ :: appendArgs (loc' + (execfile.text.length + 1)) argv

/-! ## The calls -/

structure Config where
  modloads : List CStr
  usbhost : Bool
  usbmass : Bool
  usbshell : Bool
  enableuser : Bool
  wifi : Int
  wifishell : Bool
  conshell : Bool

/-- What the calls of the kernel and the lookups of paths give. -/
structure World where
  handlepath : CStr → Option CStr
  findinpath : CStr → Option CStr
  loads : CStr → Bool
  starts : CStr → Bool
  isModule : CStr → Bool
  /-- The bootstrap is executed and finds psplink. -/
  psplinkLoads : Bool
  thid : BitVec 32
  config : Config
  /-- The access point that a command names. -/
  ap : Int

/-- What the shell keeps between two lines; `massStarts` and `hostStarts` when a driver would load its modules. -/
structure Session extends GlobalContext where
  ttymode : Bool
  inexec : Bool
  usbgdb : Bool
  wifi : Bool
  gdb : Bool
  massStarts : Bool
  hostStarts : Bool

def cstr (text : String) : CStr := .ofBytes (ascii text)

def argsRoom : Nat := 1024

abbrev Call := CStr × List CStr

def loadStartModule (world : World) (call : Call) : List Build :=
  if world.loads call.1 then [⟨argsRoom, buildArgs call.1 call.2⟩] else []

def loadModules (world : World) (calls : List Call) : List Build := calls.flatMap (loadStartModule world)

def helper (bootpath : Bytes) (name : String) (argv : List CStr) : Call := (.ofBytes (bootpath ++ ascii name), argv)

def flash (names : List String) : List Call := names.map fun name => (cstr name, [])

def loadWifi (bootpath : Bytes) (ap : Int) : List Call :=
  flash ["flash0:/kd/ifhandle.prx", "flash0:/kd/pspnet.prx", "flash0:/kd/pspnet_inet.prx",
    "flash0:/kd/pspnet_apctl.prx", "flash0:/kd/pspnet_resolver.prx"] ++
  [helper bootpath "modnet.prx" [cstr (String.ofList (Lib.decimal ap))]]

def initUsbmass : List Call :=
  flash ["flash0:/kd/semawm.prx", "flash0:/kd/usbstor.prx", "flash0:/kd/usbstormgr.prx", "flash0:/kd/usbstorms.prx",
    "flash0:/kd/usbstorboot.prx"]

def initUsbhost (bootpath : Bytes) : List Call := [helper bootpath "usbhostfs.prx" []]

/-! ## Starting psplink -/

/-- The modules that `initialise` loads once the arguments are saved. -/
def initialise (config : Config) (ctx : GlobalContext) : List Call :=
  config.modloads.map (·, []) ++
  (if config.usbhost then initUsbhost ctx.bootpath else if config.usbmass then initUsbmass else []) ++
  (if config.usbshell then [helper ctx.bootpath "usbshell.prx" []] else []) ++
  (if config.enableuser then [helper ctx.bootpath "psplink_user.prx" []] else []) ++
  (if config.wifi > 0 then
    loadWifi ctx.bootpath config.wifi ++ if config.wifishell then [helper ctx.bootpath "netshell.prx" []] else []
  else []) ++
  (if config.conshell then [helper ctx.bootpath "conshell.prx" []] else []) ++
  if ctx.execfile.text ≠ [] then [(ctx.execfile, ctx.execargv.take ctx.execargc)] else []

/-- `parse_sceargs` saves what comes behind the file to execute. -/
def psplink (world : World) (argp : Bytes) : List Build :=
  let strings := unblock (maxArgs - 1) argp
  (if 2 < strings.length then [⟨argsRoom, saveExecargs (strings.drop 3)⟩] else []) ++
    loadModules world (initialise world.config (parseSceargs argp).context)

/-- `main_thread` of the bootstrap, up to the start of psplink. -/
def bootstrap (world : World) (argp : Bytes) : List Build :=
  match bootstrapParseArgs argp with
  | [] => []
  | bootfile :: rest =>
      if world.psplinkLoads then
        ⟨blockSize, bootstrapBuildArgs bootfile world.thid rest.head? rest.tail⟩ ::
          psplink world (block (bootfile :: hex8 world.thid :: rest))
      else []

/-! ## Lines -/

def execChoice (ctx : Session) (argv : List CStr) : Option (CStr × List CStr) :=
  match argv with
  | [] => if ctx.inexec then some (ctx.execfile, ctx.execargv.take ctx.execargc) else none
  | exe :: args => some (exe, args)

def execCmd (world : World) (ctx : Session) (argv : List CStr) : List Build :=
  match execChoice ctx argv with
  | none => []
  | some (exe, args) =>
      match world.handlepath exe with
      | none => []
      | some file =>
          if ctx.inexec then
            ⟨blockSize, buildBootargs ctx.bootfile (some file) args⟩ ::
              bootstrap world (block (ctx.bootfile :: file :: args))
          else
            loadStartModule world (file, args) ++
              if world.loads file ∧ world.starts file then [⟨argsRoom, saveExecargs args⟩] else []

def ldstartCmd (world : World) (argv : List CStr) : List Build :=
  match argv with
  | [] => []
  | name :: args =>
      match world.handlepath name with
      | none => []
      | some path => loadStartModule world (path, args)

def modstartCmd (world : World) (argv : List CStr) : List Build :=
  match argv with
  | [] => []
  | uid :: args =>
      if world.isModule uid then
        match args with
        | [] => [⟨argsRoom, buildArgs (cstr "unknown") []⟩]
        | name :: args => [⟨argsRoom, buildArgs name args⟩]
      else []

/-- A key comes before the file. -/
def modexecFile (argv : List CStr) : Option CStr :=
  match argv with
  | [] => none
  | first :: args => if first.text.head? = some 64 then args.head? else some first

def modexecCmd (world : World) (argv : List CStr) : List Build :=
  match (modexecFile argv).bind world.handlepath with
  | none => []
  | some path => [⟨argsRoom, buildArgs path argv.tail⟩]

def debugCalls (ctx : Session) (path : CStr) (args : List CStr) : List Call :=
  (if ¬ ctx.usbgdb ∧ ¬ ctx.wifi then loadWifi ctx.bootpath 1 else []) ++
    if ctx.gdb then []
    else [helper ctx.bootpath (if ctx.usbgdb then "usbgdb.prx" else "netgdb.prx") (path :: args)]

def debugCmd (world : World) (ctx : Session) (argv : List CStr) : List Build :=
  match argv with
  | [] => []
  | name :: args =>
      match world.handlepath name with
      | none => []
      | some path => loadModules world (debugCalls ctx path args)

def wifiCalls (world : World) (ctx : Session) : List Call := if ctx.wifi then [] else loadWifi ctx.bootpath world.ap

def wifishellCalls (world : World) (ctx : Session) : List Call :=
  wifiCalls world ctx ++ [helper ctx.bootpath "netshell.prx" []]

def usbmassonCalls (ctx : Session) : List Call := if ctx.massStarts then initUsbmass else []
def usbhostonCalls (ctx : Session) : List Call := if ctx.hostStarts then initUsbhost ctx.bootpath else []

inductive Builder where
  | exec | ldstart | modstart | modexec | debug | wifi | wifishell | usbmon | usbhon
deriving DecidableEq

def builders : List (Builder × String × Option String) :=
  [(.modstart, "modstart", some "mt"), (.modexec, "modexec", some "me"), (.exec, "exec", some "e"),
   (.ldstart, "ldstart", some "ld"), (.debug, "debug", some "d"), (.usbmon, "usbmon", some "umn"),
   (.usbhon, "usbhon", some "uhn"), (.wifi, "wifi", none), (.wifishell, "wifishell", none)]

def findBuilder (cmd : CStr) : Option Builder :=
  (builders.find? fun row => cmd.text = ascii row.2.1 ∨ row.2.2.map ascii = some cmd.text).map Prod.fst

/-- What `shellParse` does with a line: the command of it that builds blocks, and its arguments. -/
def selected (world : World) (ctx : Session) (line : CStr) : Option (Builder × List CStr) :=
  if ctx.ttymode then none
  else
    match parseArgs maxArgs line with
    | none => none
    | some [] => none
    | some (cmd :: argv) =>
        if cmd.text.head? = some 35 then none
        else if 46 ∈ cmd.text then
          -- a file: one in a directory stands as it is, the others are looked for in the path
          match if 47 ∈ cmd.text then some cmd else world.findinpath cmd with
          | none => none
          | some file =>
              let ext := (cmd.text.reverse.takeWhile (· ≠ 46)).reverse
              if ext = ascii "sh" ∨ ext = ascii "SH" then none else some (.ldstart, file :: argv)
        else (findBuilder cmd).map (·, argv)

def run (world : World) (ctx : Session) (argv : List CStr) : Builder → List Build
  | .exec => execCmd world ctx argv
  | .ldstart => ldstartCmd world argv
  | .modstart => modstartCmd world argv
  | .modexec => modexecCmd world argv
  | .debug => debugCmd world ctx argv
  | .wifi => loadModules world (wifiCalls world ctx)
  | .wifishell => loadModules world (wifishellCalls world ctx)
  | .usbmon => loadModules world (usbmassonCalls ctx)
  | .usbhon => loadModules world (usbhostonCalls ctx)

/-- A line for the shell, or the boot of psplink with a block of strings. -/
inductive Event where
  | line (ctx : Session) (line : CStr)
  | boot (argp : Bytes)

/-- The blocks that are built, those of a program that is executed anew included. -/
def builds (world : World) : Event → List Build
  | .line ctx line =>
      match selected world ctx line with
      | none => []
      | some (builder, argv) => run world ctx argv builder
  | .boot argp => bootstrap world argp

/-! ## Strings and their room -/

def weight (strings : List CStr) : Nat := (strings.map fun s => s.text.length + 1).sum

@[simp] theorem weight_nil : weight [] = 0 := rfl

@[simp] theorem weight_cons (s : CStr) (strings : List CStr) :
    weight (s :: strings) = s.text.length + 1 + weight strings := List.sum_cons

theorem weight_take_le (limit : Nat) (strings : List CStr) : weight (strings.take limit) ≤ weight strings := by
  conv_rhs => rw [← List.take_append_drop limit strings, weight, List.map_append, List.sum_append]
  exact Nat.le_add_right _ _

theorem weight_drop_le (count : Nat) (strings : List CStr) : weight (strings.drop count) ≤ weight strings := by
  conv_rhs => rw [← List.take_append_drop count strings, weight, List.map_append, List.sum_append]
  exact Nat.le_add_left _ _

/-- What is written is the block. -/
theorem bytes_appendArgs (loc : Nat) (strings : List CStr) :
    (appendArgs loc strings).flatMap Store.bytes = block strings := by
  induction strings generalizing loc with
  | nil => rfl
  | cons s strings ih => rw [appendArgs, List.flatMap_cons, ih, block_cons]

def Build.InBounds (b : Build) : Prop := ∀ s ∈ b.stores, s.loc + s.bytes.length ≤ b.room

section Encoders

theorem appendArgs_inBounds {room loc : Nat} (argv : List CStr) :
    loc ≤ room ∧ (∀ s ∈ appendArgs loc argv, s.loc + s.bytes.length ≤ room) ↔ loc + weight argv ≤ room := by
  induction argv generalizing loc with
  | nil => exact and_iff_left fun s mem => absurd mem List.not_mem_nil
  | cons arg argv ih =>
      have rest := @ih (loc + (arg.text.length + 1))
      rw [appendArgs, List.forall_mem_cons, length_bytes, rest, weight_cons]
      omega

theorem inBounds_iff (room : Nat) (strings : List CStr) :
    Build.InBounds ⟨room, appendArgs 0 strings⟩ ↔ weight strings ≤ room := by
  have whole := @appendArgs_inBounds room 0 strings
  rw [and_iff_right (Nat.zero_le room), Nat.zero_add] at whole
  exact whole

variable (bootfile execfile : CStr) (thid : BitVec 32) (argv : List CStr)

theorem buildArgs_eq : buildArgs execfile argv = appendArgs 0 (execfile :: argv) := by
  rw [buildArgs, appendArgs, Nat.zero_add]

theorem buildBootargs_eq : buildBootargs bootfile (some execfile) argv = appendArgs 0 (bootfile :: execfile :: argv) := by
  rw [buildBootargs, appendArgs, appendArgs, Nat.zero_add]

theorem bootstrapBuildArgs_eq :
    bootstrapBuildArgs bootfile thid argv.head? argv.tail = appendArgs 0 (bootfile :: hex8 thid :: argv) := by
  cases argv with
  | nil =>
      rw [appendArgs, appendArgs, Nat.zero_add]
      rfl
  | cons execfile argv =>
      rw [appendArgs, appendArgs, appendArgs, Nat.zero_add]
      rfl

theorem saveExecargs_inBounds {room : Nat} (fits : weight argv ≤ room) :
    Build.InBounds ⟨room, saveExecargs argv⟩ :=
  (inBounds_iff room _).mpr ((weight_take_le _ argv).trans fits)

end Encoders

/-! ## Exactly when they fit -/

def CallFits (world : World) (call : Call) : Prop := world.loads call.1 → weight (call.1 :: call.2) ≤ argsRoom

def BootFits (world : World) (argp : Bytes) : Prop :=
  match bootstrapParseArgs argp with
  | [] => True
  | bootfile :: rest =>
      world.psplinkLoads → weight (bootfile :: hex8 world.thid :: rest) ≤ blockSize ∧
        ∀ call ∈ initialise world.config (parseSceargs (block (bootfile :: hex8 world.thid :: rest))).context,
          CallFits world call

def ExecFits (world : World) (ctx : Session) (argv : List CStr) : Prop :=
  ∀ chosen ∈ execChoice ctx argv, ∀ file ∈ world.handlepath chosen.1,
    if ctx.inexec then
      weight (ctx.bootfile :: file :: chosen.2) ≤ blockSize ∧ BootFits world (block (ctx.bootfile :: file :: chosen.2))
    else CallFits world (file, chosen.2)

def LineFits (world : World) (ctx : Session) (argv : List CStr) : Builder → Prop
  | .exec => ExecFits world ctx argv
  | .ldstart => ∀ name ∈ argv.head?, ∀ path ∈ world.handlepath name, CallFits world (path, argv.tail)
  | .modstart => ∀ uid ∈ argv.head?, world.isModule uid → weight argv.tail ≤ argsRoom
  | .modexec => ∀ path ∈ (modexecFile argv).bind world.handlepath, weight (path :: argv.tail) ≤ argsRoom
  | .debug => ∀ name ∈ argv.head?, ∀ path ∈ world.handlepath name,
      ∀ call ∈ debugCalls ctx path argv.tail, CallFits world call
  | .wifi => ∀ call ∈ wifiCalls world ctx, CallFits world call
  | .wifishell => ∀ call ∈ wifishellCalls world ctx, CallFits world call
  | .usbmon => ∀ call ∈ usbmassonCalls ctx, CallFits world call
  | .usbhon => ∀ call ∈ usbhostonCalls ctx, CallFits world call

def Event.Fits (world : World) : Event → Prop
  | .line ctx text => ∀ chosen ∈ selected world ctx text, LineFits world ctx chosen.2 chosen.1
  | .boot argp => BootFits world argp

section Fit

variable {world : World} {ctx : Session}

theorem loadStartModule_fits (call : Call) :
    (∀ b ∈ loadStartModule world call, b.InBounds) ↔ CallFits world call := by
  rw [loadStartModule, CallFits]
  by_cases loads : world.loads call.1
  · rw [if_pos loads, List.forall_mem_singleton, buildArgs_eq, inBounds_iff]
    exact (imp_iff_right loads).symm
  · rw [if_neg loads]
    exact iff_of_true (fun b mem => absurd mem List.not_mem_nil) fun here => absurd here loads

theorem loadModules_fits (calls : List Call) :
    (∀ b ∈ loadModules world calls, b.InBounds) ↔ ∀ call ∈ calls, CallFits world call := by
  simp only [loadModules, List.forall_mem_flatMap, loadStartModule_fits]

/-- What psplink saves was in the block that it is given. -/
theorem psplink_fits {strings : List CStr} (fits : weight strings ≤ blockSize) :
    (∀ b ∈ psplink world (block strings), b.InBounds) ↔
      ∀ call ∈ initialise world.config (parseSceargs (block strings)).context, CallFits world call := by
  have saved : Build.InBounds ⟨argsRoom, saveExecargs ((strings.take (maxArgs - 1)).drop 3)⟩ := by
    have kept := (weight_drop_le 3 _).trans (weight_take_le (maxArgs - 1) strings)
    exact saveExecargs_inBounds _ ((kept.trans fits).trans (by decide))
  rw [psplink, unblock_block, List.forall_mem_append, loadModules_fits]
  refine and_iff_right fun b mem => ?_
  split at mem
  · rw [List.mem_singleton.mp mem]
    exact saved
  · exact absurd mem List.not_mem_nil

theorem bootstrap_fits (argp : Bytes) : (∀ b ∈ bootstrap world argp, b.InBounds) ↔ BootFits world argp := by
  unfold bootstrap BootFits
  cases bootstrapParseArgs argp with
  | nil => exact iff_of_true (fun b mem => absurd mem List.not_mem_nil) trivial
  | cons bootfile rest =>
      dsimp only
      by_cases loads : world.psplinkLoads
      · rw [if_pos loads, imp_iff_right loads, List.forall_mem_cons, bootstrapBuildArgs_eq, inBounds_iff]
        exact and_congr_right psplink_fits
      · rw [if_neg loads]
        exact iff_of_true (fun b mem => absurd mem List.not_mem_nil) fun here => absurd here loads

theorem nothing_fits {p : Build → Prop} : ∀ b ∈ ([] : List Build), p b := fun _ mem => absurd mem List.not_mem_nil

theorem execCmd_fits (argv : List CStr) : (∀ b ∈ execCmd world ctx argv, b.InBounds) ↔ ExecFits world ctx argv := by
  unfold execCmd ExecFits
  cases execChoice ctx argv with
  | none => exact iff_of_true nothing_fits nofun
  | some chosen =>
      obtain ⟨exe, args⟩ := chosen
      simp only [Option.mem_some_iff, forall_eq']
      cases world.handlepath exe with
      | none => exact iff_of_true nothing_fits nofun
      | some file =>
          simp only [Option.mem_some_iff, forall_eq']
          by_cases running : ctx.inexec
          · rw [if_pos running, if_pos running, List.forall_mem_cons, buildBootargs_eq, inBounds_iff, bootstrap_fits]
          · rw [if_neg running, if_neg running, List.forall_mem_append, loadStartModule_fits]
            -- the arguments of a module that has been loaded were in its block
            refine and_iff_left_of_imp fun fits b mem => ?_
            by_cases loaded : world.loads file ∧ world.starts file
            · rw [if_pos loaded] at mem
              rw [List.mem_singleton.mp mem]
              have whole : weight (file :: args) ≤ argsRoom := fits loaded.1
              rw [weight_cons] at whole
              exact saveExecargs_inBounds args (by omega)
            · rw [if_neg loaded] at mem
              exact absurd mem List.not_mem_nil

theorem run_fits (builder : Builder) (argv : List CStr) :
    (∀ b ∈ run world ctx argv builder, b.InBounds) ↔ LineFits world ctx argv builder := by
  cases builder with
  | exec => exact execCmd_fits argv
  | ldstart =>
      cases argv with
      | nil => exact iff_of_true nothing_fits nofun
      | cons name args =>
          simp only [run, ldstartCmd, LineFits, List.head?_cons, List.tail_cons, Option.mem_some_iff, forall_eq']
          cases world.handlepath name with
          | none => exact iff_of_true nothing_fits nofun
          | some path =>
              simp only [Option.mem_some_iff, forall_eq']
              exact loadStartModule_fits (path, args)
  | modstart =>
      cases argv with
      | nil => exact iff_of_true nothing_fits nofun
      | cons uid args =>
          simp only [run, modstartCmd, LineFits, List.head?_cons, List.tail_cons, Option.mem_some_iff, forall_eq']
          by_cases known : world.isModule uid
          · rw [if_pos known, imp_iff_right known]
            cases args with
            | nil =>
                rw [List.forall_mem_singleton, buildArgs_eq, inBounds_iff]
                exact iff_of_true (by decide) (Nat.zero_le _)
            | cons name args => rw [List.forall_mem_singleton, buildArgs_eq, inBounds_iff]
          · rw [if_neg known]
            exact iff_of_true nothing_fits fun here => absurd here known
  | modexec =>
      simp only [run, modexecCmd, LineFits]
      cases (modexecFile argv).bind world.handlepath with
      | none => exact iff_of_true nothing_fits nofun
      | some path => simp only [Option.mem_some_iff, forall_eq', List.forall_mem_singleton, buildArgs_eq, inBounds_iff]
  | debug =>
      cases argv with
      | nil => exact iff_of_true nothing_fits nofun
      | cons name args =>
          simp only [run, debugCmd, LineFits, List.head?_cons, List.tail_cons, Option.mem_some_iff, forall_eq']
          cases world.handlepath name with
          | none => exact iff_of_true nothing_fits nofun
          | some path =>
              simp only [Option.mem_some_iff, forall_eq']
              exact loadModules_fits (debugCalls ctx path args)
  | wifi => exact loadModules_fits (wifiCalls world ctx)
  | wifishell => exact loadModules_fits (wifishellCalls world ctx)
  | usbmon => exact loadModules_fits (usbmassonCalls ctx)
  | usbhon => exact loadModules_fits (usbhostonCalls ctx)

end Fit

/-- Every block that is built fits its array if and only if its strings do with a NUL each. -/
theorem builds_fit (world : World) (event : Event) :
    (∀ b ∈ builds world event, b.InBounds) ↔ event.Fits world := by
  cases event with
  | line ctx text =>
      simp only [builds, Event.Fits]
      cases selected world ctx text with
      | none => exact iff_of_true nothing_fits nofun
      | some chosen =>
          simp only [Option.mem_some_iff, forall_eq']
          exact run_fits chosen.1 chosen.2
  | boot argp => exact bootstrap_fits argp

def quietWorld : World where
  handlepath := some
  findinpath := some
  loads _ := false
  starts _ := false
  isModule _ := false
  psplinkLoads := false
  thid := 0
  config := ⟨[], false, false, false, false, 0, false, false⟩
  ap := 1

/-- A program is running that was given 600 characters. -/
def running : Session where
  toGlobalContext := ⟨cstr "ms0:/boot.pbp", ascii "ms0:/", cstr "host0:/a.prx", 1, [.ofBytes (List.replicate 600 97)]⟩
  ttymode := false
  inexec := true
  usbgdb := false
  wifi := false
  gdb := false
  massStarts := false
  hostStarts := false

theorem exec_overflows : ∃ b ∈ builds quietWorld (.line running (cstr "exec")), ¬ b.InBounds := by
  have chosen : selected quietWorld running (cstr "exec") = some (.exec, []) := by decide +kernel
  rw [builds, chosen]
  refine ⟨⟨blockSize, buildBootargs running.bootfile (some running.execfile) running.execargv⟩, List.mem_cons_self, ?_⟩
  rw [buildBootargs_eq, inBounds_iff]
  decide +kernel

end Psplink.Shell.Blocks
