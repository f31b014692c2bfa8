import Mathlib.Data.List.TakeDrop
import Psplink.Lib.Strtoul
import Psplink.Shell.ParseArgs

/-!
# Executing a program anew

`exec_cmd` of psplink/shell.c restarts psplink with a block of strings. The bootstrap takes it apart
and builds another one, from which the new psplink takes what it executes.
-/

namespace Psplink.Shell
open Psplink.Lib Psplink.Lib.CStr

def maxArgs : Nat := 16
def blockSize : Nat := 512

structure GlobalContext where
  bootfile : CStr
  bootpath : Bytes
  execfile : CStr
  execargc : Nat
  execargv : List CStr
deriving DecidableEq

/-- A block that does not fit is written past the end of the array. -/
def fitting (strings : List CStr) : Option Bytes :=
  if (block strings).length ≤ blockSize then some (block strings) else none

/-! ## The shell -/

def buildBootargs (bootfile : CStr) (execfile : Option CStr) (argv : List CStr) : Option Bytes :=
  fitting (bootfile :: match execfile with
    | none => []
    | some file => file :: argv)

structure Exec where
  file : CStr
  args : List CStr
deriving DecidableEq

/-- `exec_cmd` once a program has been executed; no arguments execute it again. -/
def execCmd (handlepath : CStr → Option CStr) (ctx : GlobalContext) (argv : List CStr) : Option Exec :=
  match argv with
  | [] => (handlepath ctx.execfile).map fun file => ⟨file, ctx.execargv.take ctx.execargc⟩
  | exe :: args => (handlepath exe).map fun file => ⟨file, args⟩

/-- `shellParse` of a line that finds `exec` in the table of commands. -/
def shellParse (line : CStr) : Option (List CStr) :=
  match parseArgs maxArgs line with
  | some (cmd :: argv) => if cmd.text = ascii "exec" ∨ cmd.text = ascii "e" then some argv else none
  | _ => none

/-! ## The bootstrap -/

def hexDigit (n : Nat) : UInt8 := .ofNat (if n < 10 then 48 + n else 55 + n)

def hex8Text (thid : BitVec 32) : Bytes :=
  [28, 24, 20, 16, 12, 8, 4, 0].map fun shift => hexDigit (thid.toNat >>> shift % 16)

theorem hexDigit_ne_zero (n : Nat) : hexDigit (n % 16) ≠ 0 := by
  have bound : n % 16 < 16 := Nat.mod_lt _ (by decide)
  rw [hexDigit, ne_eq, ← UInt8.toNat_inj, UInt8.toNat_ofNat']
  change ¬ _ = 0
  split <;> omega

theorem hex8Text_nulFree (thid : BitVec 32) : 0 ∉ hex8Text thid := by
  intro mem
  obtain ⟨shift, -, nul⟩ := List.mem_map.mp mem
  exact hexDigit_ne_zero _ nul

/-- `%08X`. -/
def hex8 (thid : BitVec 32) : CStr := ⟨hex8Text thid, hex8Text_nulFree thid⟩

def bootstrapParseArgs (argp : Bytes) : List CStr := unblock (maxArgs - 1) argp

def bootstrapBuildArgs (bootfile : CStr) (thid : BitVec 32) (execfile : Option CStr) (argv : List CStr) :
    Option Bytes :=
  fitting (bootfile :: hex8 thid :: match execfile with
    | none => []
    | some file => file :: argv)

def mainThread (thid : BitVec 32) (argp : Bytes) : Option Bytes :=
  match bootstrapParseArgs argp with
  | [] => none
  | bootfile :: rest => bootstrapBuildArgs bootfile thid rest.head? rest.tail

/-! ## The new psplink -/

/-- The count is kept as it is, though only so many arguments have room. -/
def saveExecargs (argv : List CStr) (ctx : GlobalContext) : GlobalContext :=
  { ctx with
    execargv := argv.take (if argv.length < maxArgs then argv.length else maxArgs - 1)
    execargc := argv.length }

/-- Up to the last slash. -/
def directory (path : Bytes) : Bytes := (path.reverse.dropWhile (· ≠ 47)).reverse

structure Started where
  context : GlobalContext
  loaderthid : BitVec 32
deriving DecidableEq

def booted (bootfile : CStr) : GlobalContext := ⟨bootfile, directory bootfile.text, .empty, 0, []⟩

def parseSceargs (argp : Bytes) : Started :=
  match unblock (maxArgs - 1) argp with
  | [] => ⟨⟨.empty, [], .empty, 0, []⟩, 0⟩
  | [bootfile] => ⟨booted bootfile, 0⟩
  | [bootfile, thid] => ⟨booted bootfile, (Strtoul.strtoul 16 thid.text).1⟩
  | bootfile :: thid :: file :: argv =>
      ⟨saveExecargs argv { booted bootfile with execfile := file }, (Strtoul.strtoul 16 thid.text).1⟩

/-! ## From the line to the new psplink -/

/-- What the bootstrap gives the new psplink for this program, unless a block overflows. -/
def reboot (bootfile : CStr) (thid : BitVec 32) (e : Exec) : Option Started :=
  (buildBootargs bootfile (some e.file) e.args).bind fun argp => (mainThread thid argp).map parseSceargs

/-- The program that the line executes and the psplink that is started for it. -/
def restart (handlepath : CStr → Option CStr) (ctx : GlobalContext) (thid : BitVec 32) (line : CStr) :
    Option (Exec × Option Started) :=
  (shellParse line).bind fun argv => (execCmd handlepath ctx argv).map fun e => (e, reboot ctx.bootfile thid e)

def Delivers (e : Exec) (s : Started) : Prop :=
  s.context.execfile = e.file ∧ s.context.execargv.take s.context.execargc = e.args

instance (e : Exec) (s : Started) : Decidable (Delivers e s) := inferInstanceAs (Decidable (_ ∧ _))

theorem reboot_eq {bootfile : CStr} {thid : BitVec 32} {e : Exec}
    (fits : (block (bootfile :: hex8 thid :: e.file :: e.args)).length ≤ blockSize) :
    reboot bootfile thid e = some ⟨saveExecargs (e.args.take 12) { booted bootfile with execfile := e.file },
      (Strtoul.strtoul 16 (hex8 thid).text).1⟩ := by
  have first : (block (bootfile :: e.file :: e.args)).length ≤ blockSize := by
    simp only [block_cons, List.length_append] at fits ⊢
    omega
  have second : (block (bootfile :: hex8 thid :: e.file :: e.args.take 13)).length ≤ blockSize := by
    have fewer := length_block_take_le 13 e.args
    simp only [block_cons, List.length_append] at fits ⊢
    omega
  have boot : mainThread thid (block (bootfile :: e.file :: e.args)) =
      some (block (bootfile :: hex8 thid :: e.file :: e.args.take 13)) := by
    simp only [mainThread, bootstrapParseArgs, unblock_block, maxArgs, List.take_succ_cons, List.head?_cons,
      List.tail_cons, bootstrapBuildArgs, fitting, second, ↓reduceIte]
  have sce : parseSceargs (block (bootfile :: hex8 thid :: e.file :: e.args.take 13)) =
      ⟨saveExecargs (e.args.take 12) { booted bootfile with execfile := e.file },
        (Strtoul.strtoul 16 (hex8 thid).text).1⟩ := by
    simp only [parseSceargs, unblock_block, maxArgs, List.take_succ_cons, List.take_take]
    rfl
  simp only [reboot, buildBootargs, fitting, first, ↓reduceIte, Option.bind_some, boot, Option.map_some, sce]

/-- Few arguments are saved as they are. -/
theorem delivers_saved (bootfile : CStr) (e : Exec) (thid : BitVec 32) {limit : Nat} (room : limit < maxArgs) :
    Delivers e ⟨saveExecargs (e.args.take limit) { booted bootfile with execfile := e.file }, thid⟩ ↔
      e.args.length ≤ limit := by
  have saved : (e.args.take limit).length < maxArgs := Nat.lt_of_le_of_lt (List.length_take_le _ _) room
  simp only [Delivers, saveExecargs, saved, ↓reduceIte, List.take_length, true_and]
  exact List.take_eq_self_iff e.args

/-- The arguments that `exec` passes on arrive if and only if there are at most 12. -/
theorem restart_delivers (handlepath : CStr → Option CStr) (ctx : GlobalContext) (thid : BitVec 32)
    (line : CStr) (e : Exec) (outcome : Option Started) (restarted : restart handlepath ctx thid line = some (e, outcome))
    (fits : (block (ctx.bootfile :: hex8 thid :: e.file :: e.args)).length ≤ blockSize) :
    (∃ s, outcome = some s ∧ Delivers e s) ↔ e.args.length ≤ 12 := by
  obtain ⟨argv, -, same⟩ := Option.bind_eq_some_iff.mp restarted
  obtain ⟨e', -, pair⟩ := Option.map_eq_some_iff.mp same
  obtain ⟨rfl, rfl⟩ := Prod.mk.inj pair
  rw [reboot_eq fits, ← delivers_saved ctx.bootfile e' (Strtoul.strtoul 16 (hex8 thid).text).1
    (show 12 < maxArgs by decide)]
  simp only [Option.some.injEq, exists_eq_left']

def bootstrapFile : CStr := ⟨[98], by decide⟩
def aContext : GlobalContext := ⟨bootstrapFile, [], ⟨[112], by decide⟩, 0, []⟩

/-- `e f a a …`. -/
def execLine (args : Nat) : CStr := .ofBytes ([101, 32, 102] ++ (List.replicate args [32, 97]).flatten)

def execOf (args : Nat) : Exec := ⟨.ofBytes [102], List.replicate args (.ofBytes [97])⟩

theorem restart_execLine : restart some aContext 0 (execLine 12) =
    some (execOf 12, reboot bootstrapFile 0 (execOf 12)) := by
  decide +kernel

theorem restart_delivers_twelve : ∃ s, reboot bootstrapFile 0 (execOf 12) = some s ∧ Delivers (execOf 12) s :=
  (restart_delivers some aContext 0 (execLine 12) (execOf 12) _ restart_execLine (by decide)).mpr (by decide)

theorem restart_loses : ∃ s, restart some aContext 0 (execLine 13) = some (execOf 13, some s) ∧
    (block (bootstrapFile :: hex8 0 :: (execOf 13).file :: (execOf 13).args)).length ≤ blockSize ∧
    ¬ Delivers (execOf 13) s := by
  refine ⟨(reboot bootstrapFile 0 (execOf 13)).get (by decide), ?_, by decide, ?_⟩ <;> decide +kernel

end Psplink.Shell
