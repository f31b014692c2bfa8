import Mathlib.Tactic.Common

/-!
# Exports of modules

The lookups of psplink/libs.c, over the export tables of the modules that are loaded.
-/

namespace Psplink.Kernel

abbrev Word := BitVec 32

/-- The bytes of a string, without its NUL. -/
abbrev Text := List (BitVec 8)

/-- The NIDs are at the start of `entrytable`, the addresses `stubcount + vstubcount` words behind. -/
structure LibraryEntryTable where
  libname : Option Text
  stubcount : BitVec 16
  vstubcount : BitVec 8
  entrytable : Nat → Word

structure Modules where
  findModuleByUID : Word → Option (List LibraryEntryTable)
  utilsSha1Digest : Text → Option (Fin 20 → BitVec 8)

namespace LibraryEntryTable

def total (entry : LibraryEntryTable) : Nat := entry.stubcount.toNat + entry.vstubcount.toNat

def address (entry : LibraryEntryTable) (count : Nat) : Word := entry.entrytable (count + entry.total)

end LibraryEntryTable

namespace Modules

def libsFindLibrary (m : Modules) (uid : Word) (library : Text) : Option LibraryEntryTable :=
  (m.findModuleByUID uid).bind fun entries => entries.find? fun entry => entry.libname == some library

def libsNameToNid (m : Modules) (name : Text) : Word :=
  match m.utilsSha1Digest name with
  | some digest =>
      (digest 0).setWidth 32 ||| (digest 1).setWidth 32 <<< 8 ||| (digest 2).setWidth 32 <<< 16 |||
        (digest 3).setWidth 32 <<< 24
  | none => 0

/-- Zero: there is no such export. -/
def libsFindExportByNid (m : Modules) (uid : Word) (library : Text) (nid : Word) : Word :=
  match m.libsFindLibrary uid library with
  | some entry =>
      match (List.range entry.stubcount.toNat).find? fun count => entry.entrytable count = nid with
      | some count => entry.address count
      | none => 0
  | none => 0

def libsFindExportByName (m : Modules) (uid : Word) (library name : Text) : Word :=
  m.libsFindExportByNid uid library (m.libsNameToNid name)

/-- A module that is loaded exports a function at this address. -/
def Exports (m : Modules) (addr : Word) : Prop :=
  ∃ uid entries entry, m.findModuleByUID uid = some entries ∧ entry ∈ entries ∧
    ∃ count < entry.stubcount.toNat, entry.address count = addr

theorem exports_of_find {m : Modules} {uid nid : Word} {library : Text}
    (found : m.libsFindExportByNid uid library nid ≠ 0) : m.Exports (m.libsFindExportByNid uid library nid) := by
  unfold libsFindExportByNid at found ⊢
  cases looked : m.libsFindLibrary uid library with
  | none => simp [looked] at found
  | some entry =>
      simp only [looked] at found ⊢
      cases here : (List.range entry.stubcount.toNat).find? fun count => entry.entrytable count = nid with
      | none => simp [here] at found
      | some count =>
          obtain ⟨entries, module, member⟩ := Option.bind_eq_some_iff.mp looked
          have less := List.mem_range.mp (List.mem_of_find?_eq_some here)
          exact ⟨uid, entries, entry, module, List.mem_of_find?_eq_some member, count, less, rfl⟩

end Modules

end Psplink.Kernel
