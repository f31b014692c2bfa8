import Mathlib.Data.List.Perm.Basic
import Psplink.Shell.Delivery
import Psplink.Util.Handlepath

/-!
# Removing files

`rm_cmd` of psplink/shell.c goes through its arguments and takes the first of them every time.
-/

namespace Psplink.Shell.Remove
open Psplink.Lib Psplink.Util

/-! ## The code -/

/-- Which file a path names, and which of the files that are there can be opened and removed. -/
structure Storage (φ : Type) where
  isdir : Bytes → Bool
  locate : Bytes → φ
  opens : φ → Bool
  removes : φ → Bool

structure Removing (φ : Type) where
  present : φ → Bool
  printed : List Bytes

variable {φ : Type} [DecidableEq φ]

def Storage.drives (storage : Storage φ) (present : φ → Bool) : Drives where
  isdir := storage.isdir
  opens path := present (storage.locate path) && storage.opens (storage.locate path)

/-- The files that are left, unless the call fails. -/
def sceIoRemove (storage : Storage φ) (present : φ → Bool) (path : Bytes) : Option (φ → Bool) :=
  let file := storage.locate path
  if present file && storage.removes file then some (Function.update present file false) else none

def turn (storage : Storage φ) (currdir file : Bytes) (s : Removing φ) : Removing φ :=
  match handlepath (storage.drives s.present) currdir file .file true with
  | none => s
  | some afile =>
      match sceIoRemove storage s.present afile with
      | none => s
      | some present => ⟨present, s.printed ++ [afile]⟩

def loop (storage : Storage φ) (currdir : Bytes) (argv : List Bytes) : Nat → Removing φ → Removing φ
  | 0, s => s
  | left + 1, s => loop storage currdir argv left (turn storage currdir (argv.headD []) s)

def rmCmd (storage : Storage φ) (currdir : Bytes) (argv : List Bytes) (present : φ → Bool) : Int × Removing φ :=
  (cmdOk, loop storage currdir argv argv.length ⟨present, []⟩)

/-! ## What should hold -/

/-- The file that an argument names, if it is there and can be removed. -/
def target (storage : Storage φ) (currdir : Bytes) (present : φ → Bool) (arg : Bytes) : Option φ :=
  ((handlepath (storage.drives present) currdir arg .file true).map storage.locate).filter fun file =>
    present file && storage.removes file

def left (storage : Storage φ) (currdir : Bytes) (argv : List Bytes) (present : φ → Bool) : φ → Bool :=
  (rmCmd storage currdir argv present).2.present

structure RemovesAll (storage : Storage φ) (currdir : Bytes) (argv : List Bytes) (present : φ → Bool) : Prop where
  gone : ∀ arg ∈ argv, ∀ file, target storage currdir present arg = some file →
    left storage currdir argv present file = false
  kept : ∀ file, left storage currdir argv present file ≠ present file →
    ∃ arg ∈ argv, target storage currdir present arg = some file
  order : ∀ argv', argv'.Perm argv → left storage currdir argv' present = left storage currdir argv present

/-! ## The loop -/

section

variable {storage : Storage φ} {currdir arg : Bytes} {argv : List Bytes} {present : φ → Bool} {file : φ}

def without (present : φ → Bool) : Option φ → φ → Bool
  | none => present
  | some file => Function.update present file false

theorem present_turn (s : Removing φ) :
    (turn storage currdir arg s).present = without s.present (target storage currdir s.present arg) := by
  unfold turn target sceIoRemove
  cases handlepath (storage.drives s.present) currdir arg .file true with
  | none => rfl
  | some afile =>
      rw [Option.map_some, Option.filter_some]
      dsimp only
      by_cases goes : (s.present (storage.locate afile) && storage.removes (storage.locate afile)) = true
      · rw [if_pos goes, if_pos goes]
        rfl
      · rw [if_neg goes, if_neg goes]
        rfl

omit [DecidableEq φ] in
theorem present_of_target (found : target storage currdir present arg = some file) : present file = true :=
  (Bool.and_eq_true_iff.mp (Option.filter_eq_some_iff.mp found).2).1

/-- The path does not depend on the files, only whether it is let through. -/
theorem handlepath_file (drives : Drives) : handlepath drives currdir arg .file true =
    (handlepath ⟨fun _ => false, fun _ => true⟩ currdir arg .file true).filter drives.opens := by
  unfold handlepath
  dsimp only
  split
  · rfl
  · cases normalizePath _ with
    | none => rfl
    | some path =>
        simp only [Option.bind_some, Drives.validates, Bool.true_and, Bool.not_true, Bool.false_eq_true, if_false,
          Option.filter_some]
        cases drives.opens path <;> rfl

/-- An argument whose file has been removed names none. -/
theorem target_without (arg : Bytes) :
    target storage currdir (without present (target storage currdir present arg)) arg = none := by
  cases found : target storage currdir present arg with
  | none => exact found
  | some file =>
      unfold target at found ⊢
      rw [handlepath_file] at found ⊢
      cases path : handlepath ⟨fun _ => false, fun _ => true⟩ currdir arg .file true with
      | none => rfl
      | some afile =>
          rw [path, Option.filter_some] at found
          split at found
          · have here : storage.locate afile = file := by
              have := (Option.filter_eq_some_iff.mp found).1
              exact Option.some.inj this
            have closed : (storage.drives (without present (some file))).opens afile = false := by
              simp [Storage.drives, without, here]
            rw [Option.filter_some, closed]
            rfl
          · cases found

theorem present_loop (argv : List Bytes) (count : Nat) (s : Removing φ) :
    (loop storage currdir argv (count + 1) s).present =
      without s.present (target storage currdir s.present (argv.headD [])) := by
  induction count generalizing s with
  | zero => exact present_turn s
  | succ count ih =>
      rw [loop, ih, present_turn, target_without]
      rfl

/-- Only the first argument counts. -/
theorem left_cons (arg : Bytes) (argv : List Bytes) (present : φ → Bool) :
    left storage currdir (arg :: argv) present = without present (target storage currdir present arg) :=
  present_loop (arg :: argv) argv.length ⟨present, []⟩

theorem without_ne {found : Option φ} (removed : without present found file ≠ present file) : found = some file := by
  cases found with
  | none => exact absurd rfl removed
  | some other =>
      by_cases same : file = other
      · rw [same]
      · rw [without, Function.update_of_ne same] at removed
        exact absurd rfl removed

theorem without_inj {arg arg' : Bytes} (same : without present (target storage currdir present arg) =
    without present (target storage currdir present arg')) :
    target storage currdir present arg = target storage currdir present arg' := by
  have names {a b : Bytes} (same : without present (target storage currdir present a) =
      without present (target storage currdir present b)) {file : φ} (found : target storage currdir present a = some file) :
      target storage currdir present b = some file := by
    refine @without_ne _ _ present file _ ?_
    rw [← same, found, without, Function.update_self, present_of_target found]
    exact Bool.false_ne_true
  cases found : target storage currdir present arg with
  | some file => exact (names same found).symm
  | none =>
      cases found' : target storage currdir present arg' with
      | none => rfl
      | some file => exact found.symm.trans (names same.symm found')

end

/-- Files are removed as they should be exactly if all arguments name the same one, or none of them names any. -/
theorem rm_removes_iff (storage : Storage φ) (currdir : Bytes) (argv : List Bytes) (present : φ → Bool) :
    RemovesAll storage currdir argv present ↔
      ∀ arg ∈ argv, ∀ arg' ∈ argv, target storage currdir present arg = target storage currdir present arg' := by
  constructor
  · intro removes
    have first {arg : Bytes} (member : arg ∈ argv) :
        without present (target storage currdir present arg) = left storage currdir argv present := by
      rw [← removes.order _ (List.perm_cons_erase member).symm, left_cons]
    intro arg member arg' member'
    exact without_inj ((first member).trans (first member').symm)
  · intro same
    cases argv with
    | nil => exact ⟨fun _ member => absurd member List.not_mem_nil, fun _ removed => absurd rfl removed,
        fun argv' perm => by rw [List.perm_nil.mp perm]⟩
    | cons first rest =>
        refine ⟨?_, ?_, ?_⟩
        · intro arg member file found
          rw [left_cons, same first List.mem_cons_self arg member, found, without, Function.update_self]
        · intro file removed
          rw [left_cons] at removed
          exact ⟨first, List.mem_cons_self, without_ne removed⟩
        · intro argv' perm
          cases argv' with
          | nil => exact absurd perm.symm (fun perm => List.cons_ne_nil _ _ (List.perm_nil.mp perm))
          | cons first' rest' =>
              have member : first' ∈ first :: rest := perm.subset List.mem_cons_self
              rw [left_cons, left_cons, same first' member first List.mem_cons_self]

def stick : Storage Bytes := ⟨fun _ => false, id, fun _ => true, fun _ => true⟩

/-- `rm b c` in `a:/`, where both are. -/
theorem second_file_left : ¬ RemovesAll stick [97, 58, 47] [[98], [99]] fun _ => true := by
  intro removes
  have gone := removes.gone [99] (by decide) [97, 58, 47, 99] (by decide)
  exact absurd gone (by decide)

end Psplink.Shell.Remove
