import Psplink.Kernel.Libs
import Psplink.Lib.Flat
import Psplink.Lib.Walk

/-!
# Library tables

The export and import tables of psplink/libs.c as they stand in memory, and the three loops that go through them. The
step from an entry to the next is a byte of the entry, in words.
-/

namespace Psplink.Kernel
open Psplink.Lib Psplink.Lib.Flat

/-- Where a module has its tables, of `SceModule`. -/
structure ModuleTables where
  entTop : Addr
  entSize : Word
  stubTop : Addr
  stubSize : Word

structure LoadedModules where
  mem : Flat
  findModuleByUID : Word → Option ModuleTables

/-! ## Entries -/

structure ExportEntry extends LibraryEntryTable where
  attrib : BitVec 16
  len : UInt8

structure ModuleImport where
  name : Option Text
  attrib : BitVec 16
  entLen : UInt8
  varCount : UInt8
  funcCount : BitVec 16
  fnids : Addr
  funcs : Addr
  vnids : Addr
  vars : Addr

def textAt (mem : Flat) (pointer : Addr) : Option Text :=
  if pointer = 0 then none else some ((cstrAt mem pointer).map UInt8.toBitVec)

def wordAt (mem : Flat) (words : Addr) (count : Nat) : Word := load Word mem (offset words (4 * count))

def exportEntry (mem : Flat) (entry : Addr) : ExportEntry where
  libname := textAt mem (load Word mem entry)
  attrib := load (BitVec 16) mem (offset entry 6)
  len := mem (offset entry 8)
  vstubcount := (mem (offset entry 9)).toBitVec
  stubcount := load (BitVec 16) mem (offset entry 10)
  entrytable := wordAt mem (load Word mem (offset entry 12))

def moduleImport (mem : Flat) (pImp : Addr) : ModuleImport where
  name := textAt mem (load Word mem pImp)
  attrib := load (BitVec 16) mem (offset pImp 6)
  entLen := mem (offset pImp 8)
  varCount := mem (offset pImp 9)
  funcCount := load (BitVec 16) mem (offset pImp 10)
  fnids := load Word mem (offset pImp 12)
  funcs := load Word mem (offset pImp 16)
  vnids := load Word mem (offset pImp 20)
  vars := load Word mem (offset pImp 24)

/-! ## What is printed -/

/-- A line of the output; `entry` is one of a function or of a variable. -/
inductive TableLine
  | table (top : Addr) (len : Int)
  | library (name : Option Text) (attrib : BitVec 16)
  | functionHeading
  | variableHeading
  | entry (number : Nat) (uid addr : Word)
  | blank

def entryLines (count : Nat) (uid addr : Nat → Word) : List TableLine :=
  (List.range count).map fun i => .entry (i + 1) (uid i) (addr i)

/-- The variables are listed where there are functions. -/
def ModuleImport.lines (mem : Flat) (imp : ModuleImport) : List TableLine :=
  .library imp.name imp.attrib ::
    (if 0 < imp.funcCount.toNat then
      .functionHeading :: entryLines imp.funcCount.toNat (wordAt mem imp.fnids) (fun i => offset imp.funcs (8 * i)) else []) ++
    (if 0 < imp.funcCount.toNat then
      .variableHeading :: entryLines imp.varCount.toNat (wordAt mem imp.vnids) (fun i => offset imp.vars (8 * i)) else []) ++
    [.blank]

def ExportEntry.lines (entry : ExportEntry) : List TableLine :=
  .library entry.libname entry.attrib ::
    (if 0 < entry.stubcount.toNat then
      .functionHeading :: entryLines entry.stubcount.toNat entry.entrytable entry.address else []) ++
    (if 0 < entry.vstubcount.toNat then
      .variableHeading :: entryLines entry.vstubcount.toNat (fun i => entry.entrytable (i + entry.stubcount.toNat))
        (fun i => entry.address (i + entry.stubcount.toNat)) else []) ++
    [.blank]

/-! ## The loops -/

/-- A call after so many turns of its loop; it has not returned yet where there is no result. -/
structure TableCall (ρ : Type) where
  visited : List Int
  printed : List TableLine
  ret : Option ρ

def entryAddr (top : Addr) (i : Int) : Addr := top + BitVec.ofInt 32 i

/-- What the three functions do: a module that is not found has no table. -/
def tableCall {ρ : Type} (pMod : Option ModuleTables) (table : ModuleTables → Table)
    (lines : ModuleTables → List Int → List TableLine) (absent : ρ) (result : ModuleTables → Option Int → ρ) (turns : Nat) :
    TableCall ρ :=
  match pMod with
  | none => ⟨[], [], some absent⟩
  | some pMod =>
      let w := (table pMod).walk turns 0
      ⟨w.visited, lines pMod w.visited, w.ended.map (result pMod)⟩

namespace LoadedModules

variable (m : LoadedModules)

def exports (leaves : ExportEntry → Bool) (pMod : ModuleTables) : Table where
  size := pMod.entSize.toInt
  len i := 4 * (exportEntry m.mem (entryAddr pMod.entTop i)).len.toNat
  leaves i := leaves (exportEntry m.mem (entryAddr pMod.entTop i))

def imports (pMod : ModuleTables) : Table where
  size := pMod.stubSize.toInt
  len i := 4 * (moduleImport m.mem (entryAddr pMod.stubTop i)).entLen.toNat
  leaves _ := false

/-- `library` may be `NULL`, as the name of an entry. -/
def named (library : Option Text) (entry : ExportEntry) : Bool := entry.libname == library

/-- `_libsFindLibrary`, which returns a pointer or `NULL`. -/
def libsFindLibrary (uid : Word) (library : Option Text) : Nat → TableCall Addr :=
  tableCall (m.findModuleByUID uid) (m.exports (named library)) (fun _ _ => []) 0
    fun pMod left => (left.map (entryAddr pMod.entTop)).getD 0

def libsPrintImports (uid : Word) : Nat → TableCall Int :=
  tableCall (m.findModuleByUID uid) m.imports
    (fun pMod visited => .table pMod.stubTop pMod.stubSize.toInt ::
      visited.flatMap fun i => (moduleImport m.mem (entryAddr pMod.stubTop i)).lines m.mem) 0 fun _ _ => 1

def libsPrintEntries (uid : Word) : Nat → TableCall Int :=
  tableCall (m.findModuleByUID uid) (m.exports fun _ => false)
    (fun pMod visited => .table pMod.entTop pMod.entSize.toInt ::
      visited.flatMap fun i => (exportEntry m.mem (entryAddr pMod.entTop i)).lines) 0 fun _ _ => 1

end LoadedModules

/-! ## That they end -/

structure TableCall.Ends {ρ : Type} (call : Nat → TableCall ρ) : Prop where
  ends : ∃ turns, (call turns).ret.isSome
  increasing : ∀ turns, (call turns).visited.Pairwise (· < ·)

section

variable {ρ : Type} {table : ModuleTables → Table} {lines : ModuleTables → List Int → List TableLine} {absent : ρ}
  {result : ModuleTables → Option Int → ρ}

theorem ends_iff (small : ∀ pMod, (table pMod).size < 2 ^ 31) (short : ∀ pMod i, (table pMod).len i ≤ 2 ^ 31)
    (pMod : Option ModuleTables) : TableCall.Ends (tableCall pMod table lines absent result) ↔
      ∀ found, pMod = some found → (table found).Sound := by
  cases pMod with
  | none => exact iff_of_true ⟨⟨0, rfl⟩, fun _ => List.Pairwise.nil⟩ nofun
  | some found =>
      have walks : TableCall.Ends (tableCall (some found) table lines absent result) ↔ (table found).Walks := by
        constructor
        · rintro ⟨⟨turns, ends⟩, increasing⟩
          exact ⟨⟨turns, by rwa [tableCall, Option.isSome_map] at ends⟩, increasing⟩
        · rintro ⟨⟨turns, ends⟩, increasing⟩
          exact ⟨⟨turns, by rwa [tableCall, Option.isSome_map]⟩, increasing⟩
      rw [walks, Table.walks_iff (small found) (short found)]
      exact ⟨fun sound _ same => Option.some.inj same ▸ sound, fun sound => sound found rfl⟩

end

theorem words_le (len : UInt8) : 4 * len.toNat ≤ 2 ^ 31 := by
  have := len.toNat_lt
  omega

theorem size_lt (size : Word) : size.toInt < 2 ^ 31 := by
  have := BitVec.toInt_lt (x := size)
  omega

/-- The walks end and go forward exactly if no entry that they go on from is empty, or so near the end of the 32-bit
integers that the next offset is none. -/
theorem library_walks_iff (m : LoadedModules) (uid : Word) (library : Option Text) :
    (TableCall.Ends (m.libsFindLibrary uid library) ↔
      ∀ pMod, m.findModuleByUID uid = some pMod → (m.exports (LoadedModules.named library) pMod).Sound) ∧
    (TableCall.Ends (m.libsPrintImports uid) ↔ ∀ pMod, m.findModuleByUID uid = some pMod → (m.imports pMod).Sound) ∧
    (TableCall.Ends (m.libsPrintEntries uid) ↔
      ∀ pMod, m.findModuleByUID uid = some pMod → (m.exports (fun _ => false) pMod).Sound) :=
  ⟨ends_iff (fun _ => size_lt _) (fun _ _ => words_le _) _, ends_iff (fun _ => size_lt _) (fun _ _ => words_le _) _,
    ends_iff (fun _ => size_lt _) (fun _ _ => words_le _) _⟩

/-- A table of sixteen bytes that are zeros. -/
def emptyEntry : LoadedModules := ⟨fun _ => 0, fun _ => some ⟨0x08800000, 16, 0x08801000, 0⟩⟩

/-- The entry has no name and a length of zero: the search for `a` stays there. -/
theorem empty_entry_stays : ¬ TableCall.Ends (emptyEntry.libsFindLibrary 1 (some [97])) := by
  intro ends
  have visited : (emptyEntry.libsFindLibrary 1 (some [97]) 2).visited = [0, 0] := by decide +kernel
  have increasing := ends.increasing 2
  rw [visited] at increasing
  exact absurd increasing (by decide)

/-! ## What is found -/

def entryAt (mem : Flat) (top : Addr) (i : Int) : LibraryEntryTable := (exportEntry mem (entryAddr top i)).toLibraryEntryTable

/-- Where the whole table can be read, the search in memory finds the entry that the search in its entries finds. -/
theorem find_library {m : LoadedModules} {k : Modules} {uid : Word} {pMod : ModuleTables} {turns : Nat}
    (found : m.findModuleByUID uid = some pMod) (read : (m.libsPrintEntries uid turns).ret.isSome)
    (entries : k.findModuleByUID uid = some ((m.libsPrintEntries uid turns).visited.map (entryAt m.mem pMod.entTop)))
    (library : Text) : ∃ left : Option Int,
      (m.libsFindLibrary uid (some library) turns).ret = some ((left.map (entryAddr pMod.entTop)).getD 0) ∧
        k.libsFindLibrary uid library = left.map (entryAt m.mem pMod.entTop) := by
  rw [LoadedModules.libsPrintEntries, found, tableCall, Option.isSome_map] at read
  have ended := Table.ended_through (t := m.exports (LoadedModules.named (some library)) pMod) read
  refine ⟨(m.libsPrintEntries uid turns).visited.find? fun i =>
    LoadedModules.named (some library) (exportEntry m.mem (entryAddr pMod.entTop i)), ?_, ?_⟩
  · rw [LoadedModules.libsFindLibrary, LoadedModules.libsPrintEntries, found]
    simp only [tableCall, ended, Option.map_some]
    rfl
  · rw [Modules.libsFindLibrary, entries, Option.bind_some, List.find?_map]
    rfl

/-- A table with one entry, whose name is `a`. -/
def oneEntry : LoadedModules where
  mem x :=
    if x = 0x08800001 then 0x20 else if x = 0x08800002 then 0x80 else if x = 0x08800003 then 0x08
    else if x = 0x08800008 then 4 else if x = 0x08802000 then 97 else 0
  findModuleByUID _ := some ⟨0x08800000, 16, 0x08801000, 0⟩

def oneListed : Modules := ⟨fun _ => some [entryAt oneEntry.mem 0x08800000 0], fun _ => none⟩

theorem find_library_first : (oneEntry.libsFindLibrary 1 (some [97]) 2).ret = some 0x08800000 ∧
    ∃ left : Option Int, (oneEntry.libsFindLibrary 1 (some [97]) 2).ret = some ((left.map (entryAddr 0x08800000)).getD 0) ∧
      oneListed.libsFindLibrary 1 [97] = left.map (entryAt oneEntry.mem 0x08800000) := by
  have visited : (oneEntry.libsPrintEntries 1 2).visited = [0] := by decide +kernel
  have entries : oneListed.findModuleByUID 1 =
      some ((oneEntry.libsPrintEntries 1 2).visited.map (entryAt oneEntry.mem 0x08800000)) := by
    rw [visited]
    rfl
  have read : (oneEntry.libsPrintEntries 1 2).ret.isSome = true := by decide +kernel
  exact ⟨by decide +kernel, find_library (rfl : oneEntry.findModuleByUID 1 = _) read entries [97]⟩

end Psplink.Kernel
