import Psplink.Symbols.Loads

/-!
# Symbol tables

A table as its reader takes it: an extent of addresses for every entry, and a start that its name stands for.
When the two lookups agree with that.
-/

namespace Psplink.Symbols
open Psplink.Lib Psplink.Lib.Flat Psplink.Kernel

/-! ## Extents -/

/-- A file of the list, and a module. -/
structure ModuleFile where
  m : ModuleManager
  s : State
  front : List Block
  b : Block
  back : List Block
  uid : Word
  info : ModuleInfo

namespace ModuleFile

variable (f : ModuleFile)

def count : Nat := (headerAt f.s.mem f.b.data).symcount.toNat

def entry (i : Nat) : SymfileEntry := entryAt f.s.mem f.b.data i

def name (i : Nat) : Bytes := cstrAt f.s.mem (f.entry i).name

/-- A relative entry starts at the text address and its own. -/
def start (i : Nat) : Nat := ((f.entry i).bottom f.info.textAddr).toNat

/-- An entry without a size ends where the next one starts. -/
def stop (i : Nat) : Nat :=
  if (f.entry i).size = 0 then if i + 1 < f.count then f.start (i + 1) else f.start i
  else f.start i + (f.entry i).size.toNat

def Covers (i : Nat) (addr : Word) : Prop := f.start i ≤ addr.toNat ∧ addr.toNat < f.stop i

def InModule (addr : Word) : Prop := f.m.referModuleByAddr addr = (f.uid, f.info)

end ModuleFile

/-- A table that is sorted, for a module that is loaded. -/
structure SymbolTable extends ModuleFile where
  heap : Heap s (front ++ b :: back)
  modname : modnameAt s.mem b.data = info.name
  others : ∀ c ∈ front, modnameAt s.mem c.data ≠ info.name
  byName : m.referModuleByName info.name = (uid, info)
  loaded : uid.slt 0 = false
  noColon : colon ∉ info.name
  inside : headerSize + entrySize * toModuleFile.count ≤ b.size.toNat
  sorted : ∀ i j, i < j → j < toModuleFile.count → toModuleFile.start i ≤ toModuleFile.start j
  apart : ∀ i j, i < j → j < toModuleFile.count → toModuleFile.stop i ≤ toModuleFile.start j
  distinct : ∀ i j, i < toModuleFile.count → j < toModuleFile.count → toModuleFile.name i = toModuleFile.name j → i = j
  covered : ∀ i < toModuleFile.count, ∀ addr, toModuleFile.Covers i addr → toModuleFile.InModule addr

namespace SymbolTable

variable (t : SymbolTable)

/-- The lookups find what the table says. -/
structure Inverts : Prop where
  found : ∀ i < t.count, ∀ addr, t.Covers i addr →
    t.s.symbolFindByAddress t.m addr = some (entryPtr t.b.data i, t.info.textAddr)
  missed : ∀ addr, (t.InModule addr ∨ (t.m.referModuleByAddr addr).1.slt 0 = true) → (∀ i < t.count, ¬ t.Covers i addr) →
    t.s.symbolFindByAddress t.m addr = none
  named : ∀ i < t.count, (t.s.symbolFindByName t.m (t.info.name ++ colon :: t.name i)).1.toNat = t.start i

/-- Where a relative entry follows one without a size, no address of the module lies between its start and the address
in its field. -/
def Rebased : Prop :=
  ∀ i, (t.entry i).size = 0 → i + 1 < t.count → (t.entry (i + 1)).addr < absolute →
    ∀ addr, t.InModule addr → t.start i ≤ addr.toNat →
      (addr.toNat < t.start (i + 1) ↔ addr < (t.entry (i + 1)).addr)

/-- Every extent ends before the address space does. -/
def InSpace : Prop := ∀ i < t.count, t.stop i < 2 ^ 32

/-- What is left of a name where 127 bytes are left of the module's and its own. -/
def cutName (i : Nat) : Bytes := (t.name i).take (126 - t.info.name.length)

/-- The cut name of an entry stands for the same address. -/
def Cut : Prop :=
  ∀ i < t.count, (∃ j < t.count, t.name j = t.cutName i ∧ t.start j = t.start i) ∨
    (∀ j < t.count, t.name j ≠ t.cutName i) ∧ t.start i = 0

/-! ## What the lookups do -/

theorem name_length : t.info.name.length ≤ modnameSize := by
  rw [← t.modname, modnameAt, cstr]
  refine (List.takeWhile_prefix _).length_le.trans ?_
  rw [length_bytesAt]

theorem findSymbolfile_eq : t.s.findSymbolfile t.info.name = t.b.addr := by
  have few := t.heap.few
  rw [List.length_append, List.length_cons] at few
  rw [State.findSymbolfile, if_neg (not_lt.mpr t.name_length), t.heap.chain.head]
  exact findFrom_first t.heap.chain.linked t.heap.chain.nonNull t.others t.modname (by omega)

theorem addr_ne_zero : t.b.addr ≠ 0 := t.heap.chain.nonNull t.b (by simp)

theorem data_eq : (nodeAt t.s.mem t.b.addr).data = t.b.data := t.heap.chain.data (by simp)

/-- The first entry that holds an address. -/
def hit (addr : Word) : Option Nat := (List.range t.count).find? (spans t.s.mem t.b.data t.info.textAddr addr)

theorem byAddress_eq {addr : Word} (inModule : t.InModule addr) :
    t.s.symbolFindByAddress t.m addr = (t.hit addr).map fun i => (entryPtr t.b.data i, t.info.textAddr) := by
  have answer : t.m.referModuleByAddr addr = (t.uid, t.info) := inModule
  simp only [State.symbolFindByAddress, answer, t.loaded, Bool.false_eq_true, if_false, t.findSymbolfile_eq,
    if_neg t.addr_ne_zero, t.data_eq]
  rfl

theorem entryPtr_inj {i j : Nat} (lessI : i < t.count) (lessJ : j < t.count)
    (same : entryPtr t.b.data i = entryPtr t.b.data j) : i = j := by
  have inside : 44 + 12 * t.count ≤ t.b.size.toNat := t.inside
  have large := t.b.size.isLt
  have far {k : Nat} (less : k < t.count) : dist t.b.data (entryPtr t.b.data k) = 44 + 12 * k := by
    have small : 44 + 12 * k < 2 ^ 32 := by omega
    exact dist_offset small
  have dists := congrArg (dist t.b.data) same
  rw [far lessI, far lessJ] at dists
  omega

theorem hit_iff {addr : Word} {i : Nat} (less : i < t.count) (inModule : t.InModule addr) :
    t.s.symbolFindByAddress t.m addr = some (entryPtr t.b.data i, t.info.textAddr) ↔ t.hit addr = some i := by
  rw [t.byAddress_eq inModule]
  constructor
  · intro found
    obtain ⟨j, here, same⟩ := Option.map_eq_some_iff.mp found
    have lessJ := List.mem_range.mp (List.mem_of_find?_eq_some here)
    rw [here, t.entryPtr_inj lessJ less (Prod.mk.inj same).1]
  · intro here
    rw [here]
    rfl

/-! ## Lookup by address -/

def top (i : Nat) : Word := topAt t.s.mem t.b.data t.info.textAddr i

theorem spans_iff (addr : Word) (i : Nat) :
    spans t.s.mem t.b.data t.info.textAddr addr i = true ↔ t.start i ≤ addr.toNat ∧ addr < t.top i :=
  decide_eq_true_iff

theorem top_next {i : Nat} (less : i + 1 < t.count) (unsized : (t.entry i).size = 0) : t.top i = (t.entry (i + 1)).addr := by
  have count : (headerAt t.s.mem t.b.data).symcount.toNat = t.count := rfl
  have one : (1 : Word).toNat = 1 := rfl
  refine if_pos ⟨unsized, ?_⟩
  rw [BitVec.toNat_sub]
  omega

theorem top_own {i : Nat} (less : i < t.count) (own : (t.entry i).size ≠ 0 ∨ ¬ i + 1 < t.count) :
    t.top i = (t.entry i).size + (t.entry i).bottom t.info.textAddr := by
  have count : (headerAt t.s.mem t.b.data).symcount.toNat = t.count := rfl
  have one : (1 : Word).toNat = 1 := rfl
  refine if_neg fun both => ?_
  have below := both.2
  rw [BitVec.toNat_sub] at below
  exact own.elim (fun sized => sized both.1) fun isLast => isLast (by omega)

theorem stop_next {i : Nat} (less : i + 1 < t.count) (unsized : (t.entry i).size = 0) : t.stop i = t.start (i + 1) :=
  (if_pos unsized).trans (if_pos less)

theorem stop_own {i : Nat} (own : (t.entry i).size ≠ 0 ∨ ¬ i + 1 < t.count) :
    t.stop i = t.start i + (t.entry i).size.toNat := by
  unfold ModuleFile.stop
  split
  · next unsized =>
    rw [if_neg (own.resolve_left (not_not.mpr unsized)), unsized]
    rfl
  · rfl

theorem start_absolute {i : Nat} (absolute_ : absolute ≤ (t.entry i).addr) : t.start i = (t.entry i).addr.toNat := by
  rw [ModuleFile.start, SymfileEntry.bottom, if_pos absolute_]

/-- The loop holds an address for an entry's if the entry covers it. -/
theorem spans_iff_covers (rebased : t.Rebased) (inSpace : t.InSpace) {addr : Word} (inModule : t.InModule addr) {i : Nat}
    (less : i < t.count) : spans t.s.mem t.b.data t.info.textAddr addr i = true ↔ t.Covers i addr := by
  rw [t.spans_iff]
  refine and_congr_right fun start => ?_
  by_cases next : (t.entry i).size = 0 ∧ i + 1 < t.count
  · obtain ⟨unsized, more⟩ := next
    rw [t.top_next more unsized, t.stop_next more unsized]
    by_cases absolute_ : absolute ≤ (t.entry (i + 1)).addr
    · rw [t.start_absolute absolute_]
      exact Iff.rfl
    · exact (rebased i unsized more (BitVec.not_le.mp absolute_) addr inModule start).symm
  · have own : (t.entry i).size ≠ 0 ∨ ¬ i + 1 < t.count := not_and_or.mp next
    have space := inSpace i less
    rw [t.stop_own own] at space ⊢
    have startIs : ((t.entry i).bottom t.info.textAddr).toNat = t.start i := rfl
    rw [t.top_own less own, BitVec.lt_def, BitVec.toNat_add, startIs]
    omega

theorem covers_unique {addr : Word} {i j : Nat} (before : i < j) (less : j < t.count) (covers : t.Covers j addr) :
    ¬ t.Covers i addr := fun covers' => absurd (t.apart i j before less) (by
  have stop := covers'.2
  have start := covers.1
  omega)

theorem hit_of_covers (rebased : t.Rebased) (inSpace : t.InSpace) {i : Nat} (less : i < t.count) {addr : Word}
    (covers : t.Covers i addr) : t.hit addr = some i := by
  have inModule := t.covered i less addr covers
  refine List.find?_range_eq_some.mpr ⟨(t.spans_iff_covers rebased inSpace inModule less).mpr covers,
    List.mem_range.mpr less, fun j before => ?_⟩
  have other := mt (t.spans_iff_covers rebased inSpace inModule (before.trans less)).mp
    (t.covers_unique before less covers)
  rw [eq_false_of_ne_true other]
  rfl

theorem hit_eq_none (rebased : t.Rebased) (inSpace : t.InSpace) {addr : Word} (inModule : t.InModule addr)
    (misses : ∀ i < t.count, ¬ t.Covers i addr) : t.hit addr = none := by
  refine List.find?_range_eq_none.mpr fun i less => ?_
  rw [eq_false_of_ne_true (mt (t.spans_iff_covers rebased inSpace inModule less).mp (misses i less))]
  rfl

/-- An entry that the loop would take for an address comes after the one it takes. -/
theorem hit_le {addr : Word} {i j : Nat}
    (holds : spans t.s.mem t.b.data t.info.textAddr addr i = true) (here : t.hit addr = some j) : j ≤ i := by
  have earlier := (List.find?_range_eq_some.mp here).2.2
  by_contra after
  have fails := earlier i (by omega)
  rw [holds] at fails
  cases fails

theorem rebased_of_inverts (inverts : t.Inverts) : t.Rebased := by
  intro i unsized more relative addr inModule start
  have less : i < t.count := by omega
  have covers : t.Covers i addr ↔ addr.toNat < t.start (i + 1) := by
    rw [ModuleFile.Covers, t.stop_next more unsized]
    exact and_iff_right start
  have holds : spans t.s.mem t.b.data t.info.textAddr addr i = true ↔ addr < (t.entry (i + 1)).addr := by
    rw [t.spans_iff, t.top_next more unsized]
    exact and_iff_right start
  rw [← covers, ← holds]
  constructor
  · intro here
    have hit := (t.hit_iff less inModule).mp (inverts.found i less addr here)
    exact (List.find?_range_eq_some.mp hit).1
  · intro taken
    by_contra misses
    by_cases other : ∃ j < t.count, t.Covers j addr
    · obtain ⟨j, lessJ, coversJ⟩ := other
      have hit := (t.hit_iff lessJ inModule).mp (inverts.found j lessJ addr coversJ)
      -- the loop stops at the entry without a size at the latest, which an earlier entry does not reach
      rcases Nat.lt_or_eq_of_le (t.hit_le taken hit) with before | rfl
      · have stop := t.apart j i before less
        have covers := coversJ.2
        omega
      · exact misses coversJ
    · have none := inverts.missed addr (.inl inModule) fun j lessJ coversJ => other ⟨j, lessJ, coversJ⟩
      rw [t.byAddress_eq inModule, Option.map_eq_none_iff] at none
      have fails := List.find?_range_eq_none.mp none i less
      rw [taken] at fails
      cases fails

theorem inSpace_of_inverts (inverts : t.Inverts) : t.InSpace := by
  intro i less
  have large := (t.entry i).size.isLt
  have startIs : ((t.entry i).bottom t.info.textAddr).toNat = t.start i := rfl
  have small : t.start i < 2 ^ 32 := ((t.entry i).bottom t.info.textAddr).isLt
  by_cases next : (t.entry i).size = 0 ∧ i + 1 < t.count
  · rw [t.stop_next next.2 next.1]
    exact ((t.entry (i + 1)).bottom t.info.textAddr).isLt
  · have own : (t.entry i).size ≠ 0 ∨ ¬ i + 1 < t.count := not_and_or.mp next
    by_contra beyond
    rw [t.stop_own own] at beyond
    have covers : t.Covers i ((t.entry i).bottom t.info.textAddr) := by
      rw [ModuleFile.Covers, t.stop_own own, startIs]
      omega
    have hit := (t.hit_iff less (t.covered i less _ covers)).mp (inverts.found i less _ covers)
    have taken := ((t.spans_iff _ i).mp (List.find?_range_eq_some.mp hit).1).2
    rw [t.top_own less own, BitVec.lt_def, BitVec.toNat_add, startIs] at taken
    omega

/-! ## Lookup by name -/

theorem split_name (i : Nat) : colon ∈ (t.info.name ++ colon :: t.name i).take 127 ∧
    ((t.info.name ++ colon :: t.name i).take 127).takeWhile (· ≠ colon) = t.info.name ∧
    ((t.info.name ++ colon :: t.name i).take 127).drop (t.info.name.length + 1) = t.cutName i := by
  have short : t.info.name.length ≤ 28 := t.name_length
  obtain ⟨room, left⟩ : ∃ room, 127 - t.info.name.length = room + 1 := ⟨126 - t.info.name.length, by omega⟩
  have cut : (t.info.name ++ colon :: t.name i).take 127 = t.info.name ++ colon :: t.cutName i := by
    rw [List.take_append, List.take_of_length_le (by omega), left, List.take_succ_cons, cutName]
    congr 3
    omega
  rw [cut]
  refine ⟨by simp, ?_, ?_⟩
  · exact takeWhile_upto t.noColon _
  · rw [List.drop_append, List.drop_eq_nil_of_le (Nat.le_succ _)]
    simp

/-- The entry with the name that is left. -/
def named (i : Nat) : Option Nat := (List.range t.count).find? fun j => t.name j = t.cutName i

theorem byName_eq (i : Nat) : (t.s.symbolFindByName t.m (t.info.name ++ colon :: t.name i)).1.toNat =
    (t.named i).elim 0 t.start := by
  obtain ⟨has, modname, symname⟩ := t.split_name i
  have named : (List.range (headerAt t.s.mem t.b.data).symcount.toNat).find? (fun j =>
      cstrAt t.s.mem (entryAt t.s.mem t.b.data j).name = t.cutName i) = t.named i := rfl
  simp only [State.symbolFindByName, if_pos has, modname, symname, t.byName, t.loaded, Bool.false_eq_true, if_false,
    t.findSymbolfile_eq, if_neg t.addr_ne_zero, t.data_eq, named]
  cases t.named i with
  | none => rfl
  | some j =>
      change (if absolute ≤ (t.entry j).addr then (t.entry j).addr else t.info.textAddr + (t.entry j).addr).toNat = t.start j
      rw [BitVec.add_comm]
      rfl

theorem named_iff (i : Nat) : (t.s.symbolFindByName t.m (t.info.name ++ colon :: t.name i)).1.toNat = t.start i ↔
    (∃ j < t.count, t.name j = t.cutName i ∧ t.start j = t.start i) ∨
      (∀ j < t.count, t.name j ≠ t.cutName i) ∧ t.start i = 0 := by
  rw [t.byName_eq]
  cases here : t.named i with
  | none =>
      have others (j : Nat) (less : j < t.count) : t.name j ≠ t.cutName i := by
        have fails := List.find?_range_eq_none.mp here j less
        simpa using fails
      constructor
      · intro zero
        exact .inr ⟨others, zero.symm⟩
      · rintro (⟨j, less, same, -⟩ | ⟨-, zero⟩)
        · exact absurd same (others j less)
        · exact zero.symm
  | some j =>
      have less := List.mem_range.mp (List.mem_of_find?_eq_some here)
      have same : t.name j = t.cutName i := by simpa using List.find?_some here
      constructor
      · intro start
        exact .inl ⟨j, less, same, start⟩
      · rintro (⟨k, lessK, sameK, start⟩ | ⟨none, -⟩)
        · obtain rfl := t.distinct j k less lessK (same.trans sameK.symm)
          exact start
        · exact absurd same (none j less)

/-- The lookups invert a table if and only if no address of the module lies between what a relative entry is at and
what its field says where an entry without a size comes before it, every extent ends before the address space does,
and no cut name stands for another address. -/
theorem inverts_iff : t.Inverts ↔ t.Rebased ∧ t.InSpace ∧ t.Cut := by
  constructor
  · intro inverts
    exact ⟨t.rebased_of_inverts inverts, t.inSpace_of_inverts inverts, fun i less =>
      (t.named_iff i).mp (inverts.named i less)⟩
  · intro conditions
    obtain ⟨rebased, inSpace, cut⟩ := conditions
    refine ⟨fun i less addr covers => ?_, fun addr known misses => ?_, fun i less => (t.named_iff i).mpr (cut i less)⟩
    · exact (t.hit_iff less (t.covered i less addr covers)).mpr (t.hit_of_covers rebased inSpace less covers)
    · rcases known with inModule | nowhere
      · rw [t.byAddress_eq inModule, t.hit_eq_none rebased inSpace inModule misses]
        rfl
      · rw [State.symbolFindByAddress]
        exact if_pos nowhere

/-- An entry without a size at the text address, and one behind it. -/
def unsizedFile : Bytes :=
  symfileMagic ++ 109 :: List.replicate 27 0 ++ encode (⟨2, 68, 8⟩ : SymfileHeader) ++
    encode (⟨0, 0, 0⟩ : SymfileEntry) ++ encode (⟨4, 0x100, 16⟩ : SymfileEntry) ++ [102, 111, 111, 0, 98, 97, 114, 0]

theorem unsized_fits : nodeSize + roundUp unsizedFile.length ≤ FileLoad.startBlock.room := by decide

def unsizedLoad : FileLoad := FileLoad.firstLoad unsizedFile unsized_fits

def unsizedModule : ModuleFile where
  m := oneModule
  s := relocate unsizedLoad.read unsizedLoad.new
  front := []
  b := unsizedLoad.new
  back := []
  uid := 3
  info := { ModuleInfo.zero with textAddr := 0x08900000, name := [109] }

theorem unsized_intact : Intact unsizedModule.s [unsizedModule.b] := by
  refine FileLoad.intact_relocate (intact_start _) ⟨by decide +kernel, by decide +kernel⟩ ⟨by decide +kernel, fun i less => ?_⟩
  have count : unsizedLoad.symcount = 2 := by decide +kernel
  rcases (by omega : i = 0 ∨ i = 1) with rfl | rfl
  · exact ⟨3, by decide +kernel⟩
  · exact ⟨7, by decide +kernel⟩

theorem unsized_count : unsizedModule.count = 2 := by decide +kernel

theorem unsized_pair {i j : Nat} (before : i < j) (less : j < unsizedModule.count) : i = 0 ∧ j = 1 := by
  rw [unsized_count] at less
  omega

theorem unsized_sorted (i j : Nat) (before : i < j) (less : j < unsizedModule.count) :
    unsizedModule.start i ≤ unsizedModule.start j := by
  obtain ⟨rfl, rfl⟩ := unsized_pair before less
  decide +kernel

theorem unsized_apart (i j : Nat) (before : i < j) (less : j < unsizedModule.count) :
    unsizedModule.stop i ≤ unsizedModule.start j := by
  obtain ⟨rfl, rfl⟩ := unsized_pair before less
  decide +kernel

theorem unsized_distinct (i j : Nat) (lessI : i < unsizedModule.count) (lessJ : j < unsizedModule.count)
    (same : unsizedModule.name i = unsizedModule.name j) : i = j := by
  have differ : unsizedModule.name 0 ≠ unsizedModule.name 1 := by decide +kernel
  rcases Nat.lt_trichotomy i j with before | equal | before
  · obtain ⟨rfl, rfl⟩ := unsized_pair before lessJ
    exact absurd same differ
  · exact equal
  · obtain ⟨rfl, rfl⟩ := unsized_pair before lessI
    exact absurd same.symm differ

theorem unsized_inside : headerSize + entrySize * unsizedModule.count ≤ unsizedModule.b.size.toNat := by decide +kernel

theorem unsized_modname : modnameAt unsizedModule.s.mem unsizedModule.b.data = [109] := by decide +kernel

theorem unsized_noColon : colon ∉ ([109] : Bytes) := by decide

def unsizedTable : SymbolTable where
  toModuleFile := unsizedModule
  heap := unsized_intact.heap
  modname := unsized_modname
  others _ mem := absurd mem List.not_mem_nil
  byName := rfl
  loaded := rfl
  noColon := unsized_noColon
  inside := unsized_inside
  sorted := unsized_sorted
  apart := unsized_apart
  distinct := unsized_distinct
  covered _ _ _ _ := rfl

/-- The entry at the text address covers it, and is not found. -/
theorem unsized_missed : ¬ unsizedTable.Inverts := by
  intro inverts
  have count : unsizedTable.count = 2 := unsized_count
  have covers : unsizedTable.Covers 0 0x08900000 := by
    constructor
    · decide +kernel
    · decide +kernel
  have found := inverts.found 0 (by omega) 0x08900000 covers
  have missed : unsizedTable.s.symbolFindByAddress unsizedTable.m 0x08900000 = none := by decide +kernel
  rw [missed] at found
  cases found

end SymbolTable

end Psplink.Symbols
