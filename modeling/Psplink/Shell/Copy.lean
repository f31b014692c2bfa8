import Mathlib.Data.List.DropRight
import Psplink.Shell.Delivery
import Psplink.Util.Handlepath

/-!
# Copying a file

`cp_cmd` of psplink/shell.c reads the source in blocks and writes them to the destination. What a write returns is not
looked at, and a read that fails ends the copy as the end of the source does.
-/

namespace Psplink.Shell.Copy
open Psplink.Lib Psplink.Util

def blockSize : Nat := 2048

/-! ## The code -/

/-- What the calls of `sceIoOpen`, `sceIoRead` and `sceIoWrite` come to, one after the other. A read returns an error or
so much at most; a write stores so many bytes of its block at most, whatever it returns. -/
structure Device where
  openIn : Bytes → Int
  openOut : Bytes → Int
  reads : Nat → Int
  writes : Nat → Nat

/-- Which file a path names, and what the files hold. -/
structure Files (φ : Type) where
  locate : Bytes → φ
  content : φ → Bytes

/-- `slash` is null where the source has no slash, and an exception ends the command. -/
inductive Outcome (φ : Type) where
  | exception
  | returned (ret : Int) (content : φ → Bytes)

/-- What `strrchr` finds, behind the slash. -/
def baseName (path : Bytes) : Option Bytes := if slash ∈ path then some (path.rtakeWhile (· ≠ slash)) else none

def withSlash (path : Bytes) : Bytes := if path ≠ [] ∧ path.getLast? ≠ some slash then path ++ [slash] else path

/-- In a directory the file keeps its name. -/
def intoDir (drives : Drives) (fsrc fdst : Bytes) : Option Bytes :=
  if drives.isdir fdst then (baseName fsrc).map (withSlash fdst ++ ·) else some fdst

/-- What the read returns with so much left of the source. -/
def sceIoRead (device : Device) (i : Nat) (rest : Bytes) : Int :=
  if device.reads i < 0 then device.reads i else min (device.reads i) (min blockSize rest.length : Nat)

theorem sceIoRead_le (device : Device) (i : Nat) (rest : Bytes) : (sceIoRead device i rest).toNat ≤ rest.length := by
  unfold sceIoRead
  split <;> omega

def copy (device : Device) (i : Nat) (rest out : Bytes) : Bytes :=
  let n := sceIoRead device i rest
  if n ≤ 0 then out
  else copy device (i + 1) (rest.drop n.toNat) (out ++ (rest.take n.toNat).take (device.writes i))
termination_by rest.length
decreasing_by
  have := sceIoRead_le device i rest
  rw [List.length_drop]
  omega

variable {φ : Type} [DecidableEq φ]

/-- The destination is cut before the first read: where it is the source nothing is left to read. -/
def copyFile (device : Device) (files : Files φ) (fsrc fdst : Bytes) : φ → Bytes :=
  let content := Function.update files.content (files.locate fdst) []
  Function.update content (files.locate fdst) (copy device 0 (content (files.locate fsrc)) [])

def cpCmd (device : Device) (drives : Drives) (files : Files φ) (currdir source destination : Bytes) : Outcome φ :=
  match handlepath drives currdir source .file true with
  | none => .returned cmdError files.content
  | some fsrc =>
      match handlepath drives currdir destination .ether false with
      | none => .returned cmdError files.content
      | some fdst =>
          match intoDir drives fsrc fdst with
          | none => .exception
          | some fdst =>
              if device.openIn fsrc < 0 then .returned cmdError files.content
              else if device.openOut fdst < 0 then .returned cmdError files.content
              else .returned cmdOk (copyFile device files fsrc fdst)

/-! ## What should hold -/

def opened (device : Device) (drives : Drives) (currdir source destination : Bytes) : Option (Bytes × Bytes) := do
  let fsrc ← handlepath drives currdir source .file true
  let fdst ← handlepath drives currdir destination .ether false
  let fdst ← intoDir drives fsrc fdst
  if device.openIn fsrc < 0 ∨ device.openOut fdst < 0 then none else some (fsrc, fdst)

/-- Where it returns that it is done the destination holds what the source held. -/
def Faithful (device : Device) (drives : Drives) (files : Files φ) (currdir source destination : Bytes) : Prop :=
  ∀ content, cpCmd device drives files currdir source destination = .returned cmdOk content →
    ∃ fsrc fdst, handlepath drives currdir source .file true = some fsrc ∧
      (handlepath drives currdir destination .ether false).bind (intoDir drives fsrc) = some fdst ∧
      content (files.locate fdst) = files.content (files.locate fsrc)

/-- What is left of the source after so many reads, from a read on. -/
def left (device : Device) (i : Nat) (rest : Bytes) : Nat → Bytes
  | 0 => rest
  | k + 1 => left device (i + 1) (rest.drop (sceIoRead device i rest).toNat) k

/-- Up to the end of the source every read returns something and every write stores its block. -/
def Whole (device : Device) (i : Nat) (rest : Bytes) : Prop :=
  ∀ k, left device i rest k ≠ [] → 0 < device.reads (i + k) ∧
    (sceIoRead device (i + k) (left device i rest k)).toNat ≤ device.writes (i + k)

/-! ## The loop -/

section Loop

variable {device : Device} {i : Nat} {rest : Bytes}

theorem copy_stop (stop : sceIoRead device i rest ≤ 0) (out : Bytes) : copy device i rest out = out := by
  rw [copy]
  exact if_pos stop

theorem copy_next (next : ¬ sceIoRead device i rest ≤ 0) (out : Bytes) : copy device i rest out =
    copy device (i + 1) (rest.drop (sceIoRead device i rest).toNat)
      (out ++ (rest.take (sceIoRead device i rest).toNat).take (device.writes i)) := by
  rw [copy]
  exact if_neg next

theorem copy_append (device : Device) (i : Nat) (rest out : Bytes) :
    copy device i rest out = out ++ copy device i rest [] := by
  refine copy.induct device (fun i rest _ => ∀ out, copy device i rest out = out ++ copy device i rest []) ?_ ?_ i rest [] out
  · intro i rest _ n stop out
    rw [copy_stop stop, copy_stop stop, List.append_nil]
  · intro i rest _ n next ih out
    rw [copy_next next, copy_next next, ih, ih ([] ++ _), List.nil_append, List.append_assoc]

theorem length_copy_le (device : Device) (i : Nat) (rest out : Bytes) :
    (copy device i rest out).length ≤ out.length + rest.length := by
  induction i, rest, out using copy.induct device with
  | case1 i rest out n stop =>
      rw [copy_stop stop]
      exact Nat.le_add_right _ _
  | case2 i rest out n next ih =>
      have read : n.toNat ≤ rest.length := sceIoRead_le device i rest
      rw [copy_next next]
      refine ih.trans ?_
      rw [List.length_append, List.length_take, List.length_take, List.length_drop]
      omega

theorem left_nil (k : Nat) : left device i [] k = [] := by
  induction k generalizing i with
  | zero => rfl
  | succ k ih => rw [left, List.drop_nil, ih]

theorem whole_nil : Whole device i [] := fun k some_ => absurd (left_nil k) some_

theorem whole_iff : Whole device i rest ↔
    (rest ≠ [] → 0 < device.reads i ∧ (sceIoRead device i rest).toNat ≤ device.writes i) ∧
      Whole device (i + 1) (rest.drop (sceIoRead device i rest).toNat) := by
  refine ⟨fun whole => ⟨whole 0, fun k some_ => ?_⟩, fun ⟨first, later⟩ k some_ => ?_⟩
  · have here := whole (k + 1) some_
    rwa [← Nat.add_assoc, Nat.add_right_comm] at here
  · cases k with
    | zero => exact first some_
    | succ k =>
        have there := later k some_
        rwa [← Nat.add_assoc, Nat.add_right_comm]

theorem reads_pos (next : ¬ sceIoRead device i rest ≤ 0) : 0 < device.reads i := by
  by_contra none_
  refine next ?_
  unfold sceIoRead
  split <;> omega

/-- The blocks make up the source exactly if none is missing and each is whole. -/
theorem copy_eq_iff (device : Device) (i : Nat) (rest : Bytes) :
    copy device i rest [] = rest ↔ Whole device i rest := by
  refine copy.induct device (fun i rest _ => copy device i rest [] = rest ↔ Whole device i rest) ?_ ?_ i rest []
  · intro i rest _ n stop
    rw [copy_stop stop]
    refine ⟨fun nothing => nothing ▸ whole_nil, fun whole => ?_⟩
    by_contra some_
    obtain ⟨positive, -⟩ := whole 0 (Ne.symm some_)
    have size := List.length_pos_iff.mpr (Ne.symm some_)
    change sceIoRead device i rest ≤ 0 at stop
    rw [Nat.add_zero] at positive
    rw [sceIoRead, if_neg (by omega)] at stop
    have cap : blockSize = 2048 := rfl
    omega
  · intro i rest _ n next ih
    have read : n.toNat ≤ rest.length := sceIoRead_le device i rest
    have positive := reads_pos next
    have some_ : 0 < n.toNat := Int.lt_toNat.mpr (Int.lt_of_not_ge next)
    have nonempty : rest ≠ [] := List.length_pos_iff.mp (Nat.lt_of_lt_of_le some_ read)
    rw [copy_next next, copy_append, whole_iff, ← ih, List.nil_append]
    change (rest.take n.toNat).take (device.writes i) ++ copy device (i + 1) (rest.drop n.toNat) [] = rest ↔ _
    have behind := length_copy_le device (i + 1) (rest.drop n.toNat) []
    rw [List.length_nil, Nat.zero_add, List.length_drop] at behind
    constructor
    · intro all
      have sizes := congrArg List.length all
      rw [List.length_append, List.length_take, List.length_take] at sizes
      have block : n.toNat ≤ device.writes i := by omega
      refine ⟨fun _ => ⟨positive, block⟩, ?_⟩
      rw [List.take_of_length_le (by rw [List.length_take]; omega)] at all
      refine @List.append_cancel_left _ (rest.take n.toNat) _ _ ?_
      rw [all, List.take_append_drop]
    · rintro ⟨first, later⟩
      obtain ⟨-, block⟩ := first nonempty
      rw [later, List.take_of_length_le (by rw [List.length_take]; exact (Nat.min_le_left _ _).trans block),
        List.take_append_drop]

end Loop

/-! ## The command -/

section Command

variable {device : Device} {drives : Drives} {files : Files φ} {currdir source destination fsrc fdst : Bytes}

theorem opened_iff : opened device drives currdir source destination = some (fsrc, fdst) ↔
    handlepath drives currdir source .file true = some fsrc ∧
      (handlepath drives currdir destination .ether false).bind (intoDir drives fsrc) = some fdst ∧
        ¬ (device.openIn fsrc < 0 ∨ device.openOut fdst < 0) := by
  simp only [opened, Option.bind_eq_bind, Option.bind_eq_some_iff]
  constructor
  · rintro ⟨fsrc', src, fdst', dst, fdst'', into, both⟩
    split at both
    · cases both
    · next opens =>
        cases both
        exact ⟨src, ⟨fdst', dst, into⟩, opens⟩
  · rintro ⟨src, ⟨fdst', dst, into⟩, opens⟩
    exact ⟨fsrc, src, fdst', dst, fdst, into, if_neg opens⟩

theorem cpCmd_ok_iff {content : φ → Bytes} : cpCmd device drives files currdir source destination = .returned cmdOk content ↔
    ∃ fsrc fdst, opened device drives currdir source destination = some (fsrc, fdst) ∧
      copyFile device files fsrc fdst = content := by
  have failed : ¬ Outcome.returned cmdError files.content = .returned cmdOk content := fun same =>
    absurd (Outcome.returned.inj same).1 (by decide)
  have none_ : ¬ ∃ fsrc fdst, none = some (fsrc, fdst) ∧ copyFile device files fsrc fdst = content :=
    fun ⟨_, _, some_, _⟩ => absurd some_ (Option.some_ne_none _).symm
  unfold cpCmd opened
  cases handlepath drives currdir source .file true with
  | none => exact iff_of_false failed none_
  | some fsrc =>
      cases handlepath drives currdir destination .ether false with
      | none => exact iff_of_false failed none_
      | some fdst =>
          cases into : intoDir drives fsrc fdst with
          | none =>
              simp only [into, Option.bind_eq_bind, Option.bind_some, Option.bind_none]
              exact iff_of_false (fun same => by cases same) none_
          | some fdst =>
              simp only [into, Option.bind_eq_bind, Option.bind_some]
              by_cases opensIn : device.openIn fsrc < 0
              · rw [if_pos opensIn, if_pos (.inl opensIn)]
                exact iff_of_false failed none_
              by_cases opensOut : device.openOut fdst < 0
              · rw [if_neg opensIn, if_pos opensOut, if_pos (.inr opensOut)]
                exact iff_of_false failed none_
              rw [if_neg opensIn, if_neg opensOut, if_neg (not_or.mpr ⟨opensIn, opensOut⟩)]
              refine ⟨fun same => ⟨fsrc, fdst, rfl, (Outcome.returned.inj same).2⟩, ?_⟩
              rintro ⟨fsrc', fdst', paths, rfl⟩
              cases paths
              rfl

theorem copyFile_iff : copyFile device files fsrc fdst (files.locate fdst) = files.content (files.locate fsrc) ↔
    (files.locate fsrc ≠ files.locate fdst ∨ files.content (files.locate fsrc) = []) ∧
      Whole device 0 (files.content (files.locate fsrc)) := by
  unfold copyFile
  rw [Function.update_self]
  by_cases same : files.locate fsrc = files.locate fdst
  · rw [same, Function.update_self]
    have nothing : copy device 0 [] [] = [] := (copy_eq_iff device 0 []).mpr whole_nil
    rw [nothing]
    refine ⟨fun empty => ⟨.inr empty.symm, empty ▸ whole_nil⟩, fun both => ?_⟩
    exact (both.1.resolve_left (not_not.mpr rfl)).symm
  · rw [Function.update_of_ne same, copy_eq_iff]
    exact (and_iff_right (.inl same)).symm

theorem whole_of_faithful (faithful : Faithful device drives files currdir source destination)
    (opens : opened device drives currdir source destination = some (fsrc, fdst)) :
    (files.locate fsrc ≠ files.locate fdst ∨ files.content (files.locate fsrc) = []) ∧
      Whole device 0 (files.content (files.locate fsrc)) := by
  obtain ⟨fsrc', fdst', src, dst, same⟩ := faithful _ (cpCmd_ok_iff.mpr ⟨fsrc, fdst, opens, rfl⟩)
  obtain ⟨src', dst', -⟩ := opened_iff.mp opens
  obtain rfl := Option.some.inj (src.symm.trans src')
  obtain rfl := Option.some.inj (dst.symm.trans dst')
  exact copyFile_iff.mp same

end Command

/-- The copy is faithful exactly if the command fails before it, or nothing is lost on the way. -/
theorem cpCmd_faithful_iff (device : Device) (drives : Drives) (files : Files φ) (currdir source destination : Bytes) :
    Faithful device drives files currdir source destination ↔
      ∀ fsrc fdst, opened device drives currdir source destination = some (fsrc, fdst) →
        (files.locate fsrc ≠ files.locate fdst ∨ files.content (files.locate fsrc) = []) ∧
          Whole device 0 (files.content (files.locate fsrc)) := by
  refine ⟨fun faithful fsrc fdst opens => whole_of_faithful faithful opens, fun kept content done => ?_⟩
  obtain ⟨fsrc, fdst, opens, rfl⟩ := cpCmd_ok_iff.mp done
  obtain ⟨src, dst, -⟩ := opened_iff.mp opens
  exact ⟨fsrc, fdst, src, dst, copyFile_iff.mpr (kept fsrc fdst opens)⟩

def fullStick : Device := ⟨fun _ => 3, fun _ => 4, fun _ => 2048, fun _ => 0⟩

def sticks : Drives := ⟨fun _ => false, fun _ => true⟩

/-- A file of one byte with the path `a:/b`. -/
def oneByte : Files Bytes := ⟨id, fun path => if path = [97, 58, 47, 98] then [1] else []⟩

theorem byte_lost : ¬ Faithful fullStick sticks oneByte [97, 58, 47] [98] [99] := by
  intro faithful
  obtain ⟨-, whole⟩ := @whole_of_faithful _ _ _ _ _ _ _ _ [97, 58, 47, 98] [97, 58, 47, 99] faithful (by decide)
  have stored : 1 ≤ 0 := (whole 0 (List.cons_ne_nil 1 [])).2
  exact absurd stored (by decide)

end Psplink.Shell.Copy
