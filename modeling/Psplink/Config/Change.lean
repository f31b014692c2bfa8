import Psplink.Config.Entries

/-!
# Changing the configuration

`configChange` of psplink/config.c, over the outcomes of its steps of input and output.
-/

namespace Psplink.Config
open Psplink.Lib Psplink.Util

def configModeAdd : Int := 1
def configModeDel : Int := 2

/-- What `fdprintf` is given for an entry. -/
def configLine (entry : Entry) : Bytes := entry.1 ++ equals :: doubleQuote :: entry.2 ++ [doubleQuote, newline]

/-- What the loop prints, and what it prints after it. -/
def printed (mode : Int) (newname newval : Bytes) : Bool → List Entry → List Entry
  | found, [] => if mode = configModeAdd ∧ found = false then [(newname, newval)] else []
  | found, entry :: entries =>
      if entry.1 = newname then
        if mode = configModeAdd then (newname, newval) :: printed mode newname newval true entries
        else printed mode newname newval found entries
      else entry :: printed mode newname newval found entries

/-- Whether the steps succeed, and how many bytes at most each `fdprintf` writes. -/
structure Outcomes where
  openTmp : Bool
  openConfig : Bool
  write : Nat → Nat
  remove : Bool
  rename : Bool
  removeTmp : Bool

def written (write : Nat → Nat) : List Bytes → Bytes
  | [] => []
  | text :: texts => text.take (write 0) ++ written (fun i => write (i + 1)) texts

/-- `psplink.ini` and `psplink.ini.tmp`. -/
structure Disk where
  config : Option Bytes
  tmp : Option Bytes

def texts (mode : Int) (newname newval : CStr) (entries : List Entry) : List Bytes :=
  (printed mode newname.text newval.text false entries).map configLine

def configChange (io : Outcomes) (mode : Int) (newname newval : CStr) {content : Bytes} (reads : Reads content)
    (tmp : Option Bytes) : Disk :=
  if mode ≠ configModeAdd ∧ mode ≠ configModeDel then ⟨some content, tmp⟩
  else if io.openTmp = false then ⟨some content, tmp⟩
  else if io.openConfig = false then ⟨some content, if io.removeTmp then none else some []⟩
  else
    let new := written io.write (texts mode newname newval (entriesOf reads))
    if io.remove = false then ⟨some content, some new⟩
    else if io.rename = false then ⟨none, some new⟩
    else ⟨some new, none⟩

/-! ## Writes -/

def Complete (write : Nat → Nat) (texts : List Bytes) : Prop := ∀ i (h : i < texts.length), texts[i].length ≤ write i

instance (write : Nat → Nat) (texts : List Bytes) : Decidable (Complete write texts) :=
  inferInstanceAs (Decidable (∀ i (h : i < texts.length), texts[i].length ≤ write i))

theorem length_written_le (write : Nat → Nat) (texts : List Bytes) :
    (written write texts).length ≤ texts.flatten.length := by
  induction texts generalizing write with
  | nil => exact Nat.le_refl _
  | cons text texts ih =>
      rw [written, List.flatten_cons, List.length_append, List.length_append]
      exact Nat.add_le_add (List.length_take_le' _ _) (ih _)

theorem complete_cons {write : Nat → Nat} {text : Bytes} {texts : List Bytes} :
    Complete write (text :: texts) ↔ text.length ≤ write 0 ∧ Complete (fun i => write (i + 1)) texts := by
  constructor
  · intro complete
    exact ⟨complete 0 (Nat.succ_pos _), fun i bound => complete (i + 1) (Nat.succ_lt_succ bound)⟩
  · rintro ⟨first, later⟩ (- | i) bound
    · exact first
    · exact later i (Nat.lt_of_succ_lt_succ bound)

/-- All is there if and only if each write was complete. -/
theorem written_eq_iff (write : Nat → Nat) (texts : List Bytes) :
    written write texts = texts.flatten ↔ Complete write texts := by
  induction texts generalizing write with
  | nil => exact iff_of_true rfl fun i bound => absurd bound (Nat.not_lt_zero i)
  | cons text texts ih =>
      rw [complete_cons, written, List.flatten_cons, ← ih]
      constructor
      · intro same
        have size := congrArg List.length same
        have rest := length_written_le (fun i => write (i + 1)) texts
        rw [List.length_append, List.length_append, List.length_take] at size
        have all : text.length ≤ write 0 := by omega
        rw [List.take_of_length_le all] at same
        exact ⟨all, List.append_cancel_left same⟩
      · rintro ⟨all, same⟩
        rw [List.take_of_length_le all, same]

/-- What `psplink.ini` is to hold after any failure. -/
def Intact (content : Bytes) (new : Bytes) (disk : Disk) : Prop := disk.config = some content ∨ disk.config = some new

/-- A step fails before the file is removed, or the file is removed, nothing fails after it and what was written
is everything. -/
theorem configChange_intact (io : Outcomes) (mode : Int) (newname newval : CStr) {content : Bytes}
    (reads : Reads content) (tmp : Option Bytes) :
    Intact content (texts mode newname newval (entriesOf reads)).flatten
        (configChange io mode newname newval reads tmp) ↔
      (mode ≠ configModeAdd ∧ mode ≠ configModeDel) ∨ io.openTmp = false ∨ io.openConfig = false ∨
        io.remove = false ∨ (io.rename = true ∧ (Complete io.write (texts mode newname newval (entriesOf reads)) ∨
          written io.write (texts mode newname newval (entriesOf reads)) = content)) := by
  rw [← written_eq_iff, Intact, configChange]
  by_cases valid : mode ≠ configModeAdd ∧ mode ≠ configModeDel
  · simp [valid]
  · rw [if_neg valid, or_iff_right valid]
    cases io.openTmp
    · simp
    · cases io.openConfig
      · simp
      · cases io.remove
        · simp
        · cases io.rename
          · simp
          · simp [or_comm]

/-- The file is removed and the other one cannot be renamed. -/
theorem configChange_loses : ∃ (io : Outcomes) (newname newval : CStr) (content : Bytes) (reads : Reads content),
    ¬ Intact content (texts configModeAdd newname newval (entriesOf reads)).flatten
      (configChange io configModeAdd newname newval reads none) := by
  refine ⟨⟨true, true, fun _ => maxBuffer, true, false, true⟩, .ofBytes (ascii "baud"), .ofBytes (ascii "4800"),
    ascii "usbshell=1\n", ⟨[ascii "usbshell=1\n"], rfl, by decide⟩, ?_⟩
  simp [Intact, configChange, configModeAdd]

end Psplink.Config
