import Psplink.Lib.Components
import Psplink.Lib.Packed

/-!
# Paths on the PC side

`gen_path`, the case-insensitive lookup and `make_path` of usbhostfs_pc/main.c. A C string is its
bytes up to the terminator.
-/

namespace Psplink.HostFs
open Psplink.Lib

def pathMax : Nat := 4096
def maxTokens : Nat := 256
def maxHostdrives : Nat := 8

def slash : UInt8 := 47
def backslash : UInt8 := 92
def dot : Bytes := [46]
def dotdot : Bytes := [46, 46]

/-- The tokens of `strtok(path, "/")`, as far as the token array goes. -/
def tokens (path : Bytes) : List Bytes := (components slash path).take (maxTokens - 1)

def genPath (path : Bytes) (dir : Bool) : Bytes :=
  slash :: joinSep slash dir (resolve dot dotdot (tokens path))

/-! ## Case-insensitive lookup -/

/-- `tolower` in the C locale. -/
def toLower (c : UInt8) : UInt8 := if 65 ≤ c ∧ c ≤ 90 then c + 32 else c

def strcasecmpEq (a b : Bytes) : Bool := a.map toLower = b.map toLower

def calcRating : Bytes → Bytes → Int
  | a :: str1, b :: str2 => (if a = b then 1 else 0) + calcRating str1 str2
  | _, _ => 0

/-- The scan of `find_nocase`: the match kept so far with its rating, `-1` before the first. -/
def scanNocase (token : Bytes) : List Bytes → Option Bytes × Int → Option Bytes × Int
  | [], best => best
  | name :: ents, (found, rating) =>
      if strcasecmpEq name token then
        let tmp := calcRating token name
        if tmp > rating then scanNocase token ents (some name, tmp)
        else scanNocase token ents (found, rating)
      else scanNocase token ents (found, rating)

abbrev Readdir := Bytes → Option (List Bytes)

def findNocase (readdir : Readdir) (rootdir relpath token : Bytes) : Option Bytes :=
  if (rootdir ++ relpath).length > pathMax then none
  else match readdir ((rootdir ++ relpath).take (pathMax - 1)) with
    | none => none
    | some ents => (scanNocase token ents (none, -1)).1

def nocaseLoop (readdir : Readdir) (rootdir : Bytes) (dir : Bool) :
    List Bytes → Bytes → Option Bytes
  | [], retpath => some retpath
  | token :: rest, retpath =>
      let closing := if dir || !rest.isEmpty then [slash] else []
      match findNocase readdir rootdir retpath token with
      | some name => nocaseLoop readdir rootdir dir rest (retpath ++ name ++ closing)
      | none =>
          -- A last token without a match may be a file or directory about to be made.
          if rest.isEmpty then nocaseLoop readdir rootdir dir rest (retpath ++ token ++ closing)
          else none

def makeNocase (readdir : Readdir) (rootdir path : Bytes) (dir : Bool) : Bytes :=
  (nocaseLoop readdir rootdir dir (tokens path) [slash]).getD path

/-! ## Composition -/

structure HostDrive where
  rootdir : Bytes
  currdir : Bytes

structure PathOptions where
  nocase : Bool
  msslash : Bool

/-- What `make_path` asks of the system: the mutex and the directories it looks through. -/
structure PathEnv where
  locked : Bool
  readdir : Readdir

def msslashPath (opts : PathOptions) (path : Bytes) : Bytes :=
  if opts.msslash then path.map fun c => if c = backslash then slash else c else path

def makePath (env : PathEnv) (opts : PathOptions) (drives : Nat → HostDrive) (drive : BitVec 32)
    (path : Bytes) (dir : Bool) : Option Bytes :=
  if drive.toNat ≥ maxHostdrives then none
  else if !env.locked then none
  else
    let d := drives drive.toNat
    let hostpath := d.currdir ++ path
    if hostpath.length ≥ pathMax then none
    else
      let hostpath := genPath (msslashPath opts hostpath) dir
      let hostpath :=
        if opts.nocase then makeNocase env.readdir d.rootdir hostpath dir else hostpath
      let retpath := d.rootdir ++ slash :: hostpath
      if retpath.length ≥ pathMax then none
      else some (genPath retpath dir)

end Psplink.HostFs
