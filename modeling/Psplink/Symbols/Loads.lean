import Psplink.Symbols.Lookup

/-!
# Sequences of loads

A load that fails is invisible to the lookups in every sequence of loads, as long as no file is accepted whose
names or entries leave it.
-/

namespace Psplink.Symbols
open Psplink.Lib Psplink.Lib.Flat Psplink.Kernel

/-- A list whose tables lie in their blocks. -/
structure Intact (s : State) (blocks : List Block) : Prop where
  heap : Heap s blocks
  tables : ∀ b ∈ blocks, Table s.mem b

/-- The same files in a well-formed list, the same answers to every lookup, and the same open files. -/
structure Invisible (s s' : State) : Prop where
  list : ∃ blocks, Chain s.mem s.pHead blocks ∧ Chain s'.mem s'.pHead blocks ∧
    ∀ b ∈ blocks, Agree s'.mem s.mem b.data b.size.toNat
  byName : ∀ m name, s'.symbolFindByName m name = s.symbolFindByName m name
  byAddress : ∀ m addr, s'.symbolFindByAddress m addr = s.symbolFindByAddress m addr
  fds : s'.fds = s.fds

section Unchanged

variable {s s' : State} {blocks : List Block} (intact : Intact s blocks) (unchanged : Unchanged s s' blocks)

include intact unchanged

theorem Unchanged.allKept : AllKept s s' blocks where
  chain := intact.heap.chain
  chain' := unchanged.heap.chain
  kept b mem := by
    have high := intact.heap.hi_le mem
    unfold Block.hi at high
    exact ⟨intact.tables b mem, unchanged.data b mem, by omega⟩

theorem Unchanged.still_intact : Intact s' blocks :=
  ⟨unchanged.heap, fun b mem => ((unchanged.allKept intact).kept b mem).table'⟩

theorem Unchanged.invisible : Invisible s s' where
  list := ⟨blocks, intact.heap.chain, unchanged.heap.chain, fun b mem x inside =>
    unchanged.data b mem x (Nat.lt_of_lt_of_le inside (le_roundUp _))⟩
  byName := (unchanged.allKept intact).byName
  byAddress := (unchanged.allKept intact).byAddress
  fds := unchanged.fds

end Unchanged

/-! ## One load -/

namespace State.Answers

/-- A size for which header and data fit the heap, and a file that is the bytes that were read. -/
structure Possible (answers : Answers) (s : State) : Prop where
  fits : ∀ size, answers.stat = some size → ∀ s₀, s.withBlock answers.partition = some s₀ →
    nodeSize + roundUp size.toNat ≤ s₀.room
  file : answers.stat = some (answers.readRet.signExtend 64) → answers.readData.length = answers.readRet.toNat

/-- A file that is accepted has a sum that does not wrap around, and its names lie in the string area. -/
def Sound (answers : Answers) (s : State) : Prop :=
  ∀ s₀, s.withBlock answers.partition = some s₀ → answers.fd.slt 0 = false →
    answers.stat = some (answers.readRet.signExtend 64) →
    Reading.Accepted ⟨s₀, answers.readData⟩ → Reading.SoundFile ⟨s₀, answers.readData⟩

theorem Possible.size {answers : Answers} {s s₀ : State} {blocks : List Block} (possible : answers.Possible s)
    (heap : Heap s blocks) (given : s.withBlock answers.partition = some s₀) {size : BitVec 64}
    (stat : answers.stat = some size) : size.toNat ≤ 65536 := by
  obtain ⟨heap₀, owned, -, -⟩ := withBlock_some heap given
  obtain ⟨-, -, start, -⟩ := heap₀.placed owned
  have fits := possible.fits size stat s₀ given
  have round := le_roundUp size.toNat
  have heapIs : heapSize = 65536 := rfl
  unfold State.room at fits
  omega

theorem cutSize_toNat {size : BitVec 64} (small : size.toNat ≤ 65536) : (cutSize size).toNat = size.toNat := by
  rw [cutSize, BitVec.toNat_setWidth]
  omega

theorem Possible.measured {answers : Answers} {s : State} {blocks : List Block} (possible : answers.Possible s)
    (heap : Heap s blocks) : answers.Measured s := by
  intro size stat s₀ given _
  rw [Fits, cutSize_toNat (possible.size heap given stat)]
  exact possible.fits size stat s₀ given

/-- A count that is the size is not negative. -/
theorem readRet_toNat {ret : Word} (small : (ret.signExtend 64).toNat ≤ 65536) :
    (ret.signExtend 64).toNat = ret.toNat := by
  have large := ret.isLt
  rw [BitVec.toNat_signExtend, BitVec.toNat_setWidth] at small ⊢
  split at small
  · omega
  · rename_i positive
    rw [if_neg positive]
    omega

end State.Answers

/-- A load that succeeds has read a file that is accepted. -/
theorem fileLoad_of_loads {s s₂ : State} {blocks : List Block} {new : Block} {answers : State.Answers}
    (heap : Heap s blocks) (possible : answers.Possible s) (loaded : Loaded s s₂ blocks new answers)
    (loads : (s.symbolLoadSymbols answers).1 = true) :
    ∃ l : FileLoad, l.s = s ∧ l.blocks = blocks ∧ l.answers = answers := by
  obtain ⟨size, stat, -, rfl⟩ := loaded.stat
  cases given : s.withBlock answers.partition with
  | none =>
      rw [State.symbolLoadSymbols, stat] at loads
      simp only [State.allocSymbolfile, given, if_true, Bool.false_eq_true] at loads
  | some s₀ =>
      have small := possible.size heap given stat
      have length := possible.file stat
      have number := State.Answers.readRet_toNat small
      have fits := possible.fits _ stat s₀ given
      rw [number, ← length] at fits
      refine ⟨⟨⟨s₀, answers.readData⟩, s, blocks, heap, answers.partition, given, fits, answers.fd, loaded.opened⟩,
        rfl, rfl, ?_⟩
      obtain ⟨partition, stat', fd, readRet, readData⟩ := answers
      have ret : BitVec.ofNat 32 readData.length = readRet := by
        rw [length, BitVec.ofNat_toNat, BitVec.setWidth_eq]
      have size : BitVec.ofNat 64 readData.length = readRet.signExtend 64 := by
        rw [length, ← number, BitVec.ofNat_toNat, BitVec.setWidth_eq]
      rw [FileLoad.answers]
      dsimp only
      rw [ret, size, ← stat]

namespace FileLoad
open Reading

variable {l : FileLoad}

/-- Relocation writes to the entries of the new table. -/
theorem relocate_outside (inside : 44 + 12 * l.symcount ≤ l.file.length) {x : Addr}
    (outside : ¬ (44 ≤ dist l.data x ∧ dist l.data x < l.file.length)) :
    (relocate l.read l.new).mem x = l.read.mem x := (fixed inside).outside x (by omega)

theorem header_relocated (inside : 44 + 12 * l.symcount ≤ l.file.length) :
    headerAt (relocate l.read l.new).mem l.data = l.header := by
  rw [← l.header_read]
  exact headerAt_congr fun x near => relocate_outside inside (by omega)

/-- What is accepted and sound gets into the list, with a table that lies in its block. -/
theorem intact_relocate (intact : Intact l.s l.blocks) (accepted : l.Accepted) (sound : l.SoundFile) :
    Intact (relocate l.read l.new) (l.blocks ++ [l.new]) := by
  have allocated := l.read_allocated
  have heap := allocated.heap
  have inside := (l.sum_iff accepted).mp sound.sum
  have memNew : l.new ∈ l.blocks ++ [l.new] := by simp
  have size := l.size_toNat
  have round := le_roundUp l.file.length
  have outside {a : Addr} {n : Nat} (apart : Apart a n l.data (roundUp l.file.length)) :
      Agree (relocate l.read l.new).mem l.read.mem a n := fun x here =>
    relocate_outside inside fun there => apart x here (Nat.lt_of_lt_of_le there.2 round)
  have kept (b : Block) (mem : b ∈ l.blocks ++ [l.new]) :
      nodeAt (relocate l.read l.new).mem b.addr = nodeAt l.read.mem b.addr := by
    have apart := heap.header_apart_data memNew mem
    rw [size] at apart
    exact nodeAt_congr (outside apart)
  refine ⟨⟨⟨heap.chain.head, linked_congr kept heap.chain.linked, heap.chain.nonNull⟩, heap.ordered, heap.above,
    heap.below, heap.empty, fun owned => placed_congr (heap.placed owned) rfl rfl⟩, fun b mem => ?_⟩
  rcases List.mem_append.mp mem with mem' | mem'
  · have high := heap.hi_le mem
    have highNew := allocated.hi_new
    unfold Block.hi at high highNew
    have headers (c : Block) (memC : c ∈ l.blocks) : Apart c.addr nodeSize b.data (roundUp b.size.toNat) :=
      heap.header_apart_data mem (List.mem_append_left _ memC)
    have apart : Apart l.new.addr (nodeSize + roundUp l.new.size.toNat) b.data (roundUp b.size.toNat) := fun x here there =>
      allocated.apart_new mem' x (in_of_offset (k := nodeSize) (by omega) (by omega) there) here
    have apart' : Apart b.data (roundUp b.size.toNat) l.data (roundUp l.file.length) := fun x here there =>
      apart x (in_of_offset (k := nodeSize) (by omega) (by omega) (size ▸ there)) here
    have agree := (outside apart').trans (allocated.frame b.data _ headers apart)
    exact (Kept.mk (intact.tables b mem') agree (by omega)).table'
  · obtain rfl := List.mem_singleton.mp mem'
    have valid := l.valid_of_sound accepted sound
    have header := header_relocated inside
    refine ⟨?_, fun i less => ?_⟩
    · rw [size]
      exact (congrArg (fun h : SymfileHeader => 44 + 12 * h.symcount.toNat) header).le.trans inside
    · have less' : i < l.symcount := Nat.lt_of_lt_of_eq less (congrArg (fun h : SymfileHeader => h.symcount.toNat) header)
      obtain ⟨off, last, name, start, -, within, ends⟩ := valid.names i less'
      exact ⟨_, _, name, Nat.add_le_add_left start _, size ▸ within, ends⟩

end FileLoad

theorem load_step {s : State} {blocks : List Block} (intact : Intact s blocks) {answers : State.Answers}
    (possible : answers.Possible s) (sound : answers.Sound s) :
    ((s.symbolLoadSymbols answers).1 = false → Invisible s (s.symbolLoadSymbols answers).2) ∧
      ∃ blocks', Intact (s.symbolLoadSymbols answers).2 blocks' := by
  rcases load_cases intact.heap (possible.measured intact.heap) with ⟨-, unchanged⟩ | ⟨new, s₂, loaded, loads⟩
  · exact ⟨fun _ => unchanged.invisible intact, blocks, unchanged.still_intact intact⟩
  · have succeeds : (s.symbolLoadSymbols answers).1 = true := congrArg Prod.fst loads
    refine ⟨fun fails => absurd (succeeds.symm.trans fails) (by decide), ?_⟩
    obtain ⟨l, rfl, rfl, rfl⟩ := fileLoad_of_loads intact.heap possible loaded succeeds
    change l.result.1 = true at succeeds
    change ∃ blocks', Intact l.result.2 blocks'
    by_cases accepted : l.Accepted
    · obtain ⟨_, stat, -, rfl⟩ := loaded.stat
      have file := sound l.s₀ l.given l.opened stat accepted
      rw [l.result_accepted accepted]
      exact ⟨_, FileLoad.intact_relocate intact accepted file⟩
    · rw [l.result_rejected accepted] at succeeds
      cases succeeds

/-! ## Sequences -/

def AllPossible : State → List State.Answers → Prop
  | _, [] => True
  | s, answers :: loads => answers.Possible s ∧ AllPossible (s.symbolLoadSymbols answers).2 loads

def AllSound : State → List State.Answers → Prop
  | _, [] => True
  | s, answers :: loads => answers.Sound s ∧ AllSound (s.symbolLoadSymbols answers).2 loads

/-- Each load that fails is invisible. -/
def FailuresInvisible : State → List State.Answers → Prop
  | _, [] => True
  | s, answers :: loads =>
      ((s.symbolLoadSymbols answers).1 = false → Invisible s (s.symbolLoadSymbols answers).2) ∧
        FailuresInvisible (s.symbolLoadSymbols answers).2 loads

theorem failures_of_intact {s : State} {blocks : List Block} (intact : Intact s blocks) {loads : List State.Answers}
    (possible : AllPossible s loads) (sound : AllSound s loads) : FailuresInvisible s loads := by
  induction loads generalizing s blocks with
  | nil => trivial
  | cons answers loads ih =>
      obtain ⟨invisible, blocks', intact'⟩ := load_step intact possible.1 sound.1
      exact ⟨invisible, ih intact' possible.2 sound.2⟩

theorem intact_start (mem : Flat) : Intact (.start mem) [] := ⟨heap_start mem, fun _ mem => absurd mem List.not_mem_nil⟩

/-- From an empty list on, each load that fails is invisible where every file that is accepted is sound. -/
theorem failures_invisible (mem : Flat) (loads : List State.Answers) (possible : AllPossible (.start mem) loads)
    (sound : AllSound (.start mem) loads) : FailuresInvisible (.start mem) loads :=
  failures_of_intact (intact_start mem) possible sound

/-- A file that is there and is read. -/
def wholeFile (file : Bytes) : State.Answers :=
  ⟨some kernelBlock, some (BitVec.ofNat 64 file.length), 5, BitVec.ofNat 32 file.length, file⟩

theorem possible_wholeFile {s s₀ : State} {file : Bytes} (given : s.withBlock (some kernelBlock) = some s₀)
    (fits : nodeSize + roundUp file.length ≤ s₀.room) (small : file.length < 2 ^ 31) : (wholeFile file).Possible s where
  fits size stat s₀' given' := by
    obtain rfl := Option.some.inj stat
    obtain rfl := Option.some.inj (given.symm.trans given')
    rwa [BitVec.toNat_ofNat, Nat.mod_eq_of_lt (by omega)]
  file _ := by
    change file.length = (BitVec.ofNat 32 file.length).toNat
    rw [BitVec.toNat_ofNat, Nat.mod_eq_of_lt (by omega)]

/-- A file that is not a symbol file. -/
def noMagic : Bytes := [102, 111, 111, 0]

/-- A load of a file with one symbol, and one that fails. -/
def fooThenFails (name : Addr) : List State.Answers := [wholeFile (FileLoad.oneEntry name 0), wholeFile noMagic]

def afterFoo (name : Addr) : State := (emptyStart.symbolLoadSymbols (wholeFile (FileLoad.oneEntry name 0))).2

theorem afterFoo_fails : ((afterFoo 20).symbolLoadSymbols (wholeFile noMagic)).1 = false := by decide +kernel

theorem possible_first (name : Addr) : (wholeFile (FileLoad.oneEntry name 0)).Possible emptyStart := by
  have length : (FileLoad.oneEntry name 0).length = 60 := rfl
  refine @possible_wholeFile _ FileLoad.startBlock _ rfl ?_ ?_
  · rw [length]
    decide
  · rw [length]
    decide

theorem failures_invisible_foo : FailuresInvisible emptyStart (fooThenFails 0) := by
  refine failures_invisible _ _ ⟨possible_first 0, ?_, trivial⟩ ⟨fun s₀ given _ _ _ => ?_, fun s₀ given _ _ accepted => ?_, trivial⟩
  · exact @possible_wholeFile _ (afterFoo 0) _ rfl (by decide +kernel) (by decide)
  · cases given
    refine ⟨by decide, fun i less => ?_⟩
    obtain rfl := Nat.lt_one_iff.mp less
    exact ⟨3, by decide, by decide, by decide, by decide⟩
  · cases given
    exact absurd accepted.1 (by decide +kernel)

/-- A module `m` at an address in user memory. -/
def oneModule : ModuleManager where
  findModuleByName name := if name = [109] then some 3 else none
  findModuleByAddress _ := some 3
  queryModuleInfo _ info := (0, { info with textAddr := 0x08900000, name := [109] })

/-- A name that begins where the data of the next file are to stand: once that load has failed, `m:foo` is found. -/
theorem failure_visible : AllPossible emptyStart (fooThenFails 20) ∧ ¬ FailuresInvisible emptyStart (fooThenFails 20) := by
  constructor
  · exact ⟨possible_first 20, @possible_wholeFile _ (afterFoo 20) _ rfl (by decide +kernel) (by decide), trivial⟩
  · intro invisible
    have same := (invisible.2.1 afterFoo_fails).byName oneModule (ascii "m:foo")
    change ((afterFoo 20).symbolLoadSymbols (wholeFile noMagic)).2.symbolFindByName oneModule (ascii "m:foo") =
      (afterFoo 20).symbolFindByName oneModule (ascii "m:foo") at same
    exact absurd same (by decide +kernel)

end Psplink.Symbols
