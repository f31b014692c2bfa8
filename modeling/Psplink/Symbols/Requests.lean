import Psplink.Symbols.Heap

/-!
# Requests and failed loads

A load that fails has put its node into the list and taken it out again. Runs of requests, failed loads and
deletions keep the blocks of the list apart and inside the heap as long as no request is let through that
does not fit.
-/

namespace Psplink.Symbols
open Psplink.Lib Psplink.Lib.Flat

/-! ## A load that fails -/

namespace Allocated

variable {s s' : State} {blocks : List Block} {new : Block}

theorem mem_new (allocated : Allocated s s' blocks new) : Placed s' :=
  allocated.heap.placed_of_mem (List.mem_append_right _ (List.mem_singleton_self new))

theorem hi_new (allocated : Allocated s s' blocks new) : new.hi < 2 ^ 32 :=
  allocated.heap.hi_le (List.mem_append_right _ (List.mem_singleton_self new))

theorem node (allocated : Allocated s s' blocks new) : nodeAt s'.mem new.addr = new.node 0 (last 0 blocks) :=
  ((linked_append blocks [new]).mp allocated.heap.chain.linked).2.1

/-- The new block is apart from what the others hold. -/
theorem apart_new (allocated : Allocated s s' blocks new) {b : Block} (mem : b ∈ blocks) :
    Apart b.addr (nodeSize + roundUp b.size.toNat) new.addr (nodeSize + roundUp new.size.toNat) := by
  have before := (List.pairwise_append.mp allocated.heap.ordered).2.2 b mem new (List.mem_singleton_self new)
  have high := allocated.hi_new
  unfold Block.Before Block.hi Block.lo at *
  exact apart_of_le (by omega) (by omega)

/-- What is written to its data changes nothing else. -/
theorem store (allocated : Allocated s s' blocks new) {bs : Bytes} (short : bs.length ≤ new.size.toNat) :
    Allocated s { s' with mem := Flat.store s'.mem new.data bs } blocks new := by
  have heap := allocated.heap
  have memNew : new ∈ blocks ++ [new] := by simp
  have inside : bs.length ≤ roundUp new.size.toNat := short.trans (le_roundUp _)
  have small := allocated.hi_new
  unfold Block.hi at small
  have kept (b : Block) (mem : b ∈ blocks ++ [new]) :
      nodeAt (Flat.store s'.mem new.data bs) b.addr = nodeAt s'.mem b.addr :=
    nodeAt_congr (store_agree ((heap.header_apart_data memNew mem).symm.shrink inside (Nat.le_refl _)))
  refine ⟨⟨⟨heap.chain.head, linked_congr kept heap.chain.linked, heap.chain.nonNull⟩, heap.ordered, heap.above,
    heap.below, heap.empty, fun owned => ?_⟩, fun a n headers apart => ?_, allocated.fds⟩
  · exact placed_congr (heap.placed owned) rfl rfl
  · have data : Apart new.data bs.length a n := fun x here =>
      apart x (in_of_offset (k := nodeSize) (m := bs.length) (by omega) (by omega) here)
    have written : Agree (Flat.store s'.mem new.data bs) s'.mem a n := store_agree data
    exact written.trans (allocated.frame a n headers apart)

end Allocated

/-- The list and the data in it are as they were. -/
structure Unchanged (s s' : State) (blocks : List Block) : Prop where
  heap : Heap s' blocks
  data : ∀ b ∈ blocks, Agree s'.mem s.mem b.data (roundUp b.size.toNat)
  fds : s'.fds = s.fds

theorem Allocated.released {s s' : State} {blocks : List Block} {new : Block} (allocated : Allocated s s' blocks new) :
    Unchanged s (s'.freeSymbolfile new.addr) blocks := by
  have heap := allocated.heap
  obtain ⟨chain, only⟩ := free_chain heap.chain heap.headersApart
  have same := sameHeap_free s' new.addr
  have left (b : Block) (mem : b ∈ blocks) : b ∈ blocks ++ [new] := List.mem_append_left _ mem
  refine ⟨⟨chain, (List.pairwise_append.mp heap.ordered).1, ?_, ?_, ?_, fun _ => ?_⟩, fun b mem => ?_, ?_⟩
  · intro b mem
    rw [same.baseaddr]
    exact heap.above b (left b mem)
  · intro b mem
    rw [same.curraddr]
    exact heap.below b (left b mem)
  · intro none
    rw [same.blockId] at none
    exact (List.append_eq_nil_iff.mp (heap.empty none)).1
  · exact placed_congr allocated.mem_new same.baseaddr same.curraddr
  · have high := heap.hi_le (left b mem)
    unfold Block.hi at high
    have headers (c : Block) (memC : c ∈ blocks) : Apart c.addr nodeSize b.data (roundUp b.size.toNat) :=
      heap.header_apart_data (left b mem) (left c memC)
    have apart : Apart new.addr (nodeSize + roundUp new.size.toNat) b.data (roundUp b.size.toNat) := fun x here there =>
      allocated.apart_new mem x (in_of_offset (k := nodeSize) (by omega) (by omega) there) here
    exact (only b.data _ headers).trans (allocated.frame b.data _ headers apart)
  · rw [same.fds, allocated.fds]

/-- No request that the comparison lets through goes beyond the heap. -/
def Measured (s : State) (size : Word) (partition : Option Partition) : Prop :=
  ∀ s₀, s.withBlock partition = some s₀ →
    size.toNat < s₀.room ∨ 2 ^ 32 ≤ s₀.curraddr.toNat + size.toNat → Fits s₀ size

def State.Answers.Measured (answers : State.Answers) (s : State) : Prop :=
  ∀ size, answers.stat = some size → Symbols.Measured s (State.cutSize size) answers.partition

theorem unchanged_refl {s : State} {blocks : List Block} (heap : Heap s blocks) : Unchanged s s blocks :=
  ⟨heap, fun _ _ _ _ => rfl, rfl⟩

theorem unchanged_withBlock {s s₀ : State} {blocks : List Block} (heap : Heap s₀ blocks) (mem : s₀.mem = s.mem)
    (fds : s₀.fds = s.fds) : Unchanged s s₀ blocks :=
  ⟨heap, fun _ _ _ _ => by rw [mem], fds⟩

theorem free_fds (s : State) (fds : List Word) (p : Addr) :
    { s with fds := fds }.freeSymbolfile p = { s.freeSymbolfile p with fds := fds } := by
  unfold State.freeSymbolfile
  dsimp only
  split_ifs <;> rfl

def Validated (s₁ : State) (new : Block) : Prop :=
  magicAt s₁.mem new.data = symfileMagic ∧ WellSized s₁.mem new.data new.size

/-- The state after the names have been relocated. -/
def relocate (s₁ : State) (new : Block) : State :=
  { s₁ with mem := fixup new.data (new.data + (headerAt s₁.mem new.data).strstart) (2 ^ 32) 0 s₁.mem }

/-- A load that succeeds: the state in which the file has been read, and the file. -/
structure Loaded (s s₁ : State) (blocks : List Block) (new : Block) (answers : State.Answers) : Prop where
  allocated : Allocated s s₁ blocks new
  stat : ∃ size, answers.stat = some size ∧ new.size = State.cutSize size ∧ answers.readRet.signExtend 64 = size
  opened : answers.fd.slt 0 = false
  file : bytesAt s₁.mem new.data (answers.readData.take new.size.toNat).length = answers.readData.take new.size.toNat
  valid : Validated s₁ new

theorem validate_valid {s s₁ : State} {blocks : List Block} {new : Block} (allocated : Allocated s s₁ blocks new)
    (valid : Validated s₁ new) : s₁.validate new.addr = (true, relocate s₁ new) := by
  unfold State.validate
  rw [allocated.node]
  dsimp only [Block.node]
  rw [if_neg (not_not.mpr valid.1)]
  simp only [valid.2, not_true_eq_false, if_false]
  rfl

theorem validate_invalid {s s₁ : State} {blocks : List Block} {new : Block} (allocated : Allocated s s₁ blocks new)
    (invalid : ¬ Validated s₁ new) : s₁.validate new.addr = (false, s₁.freeSymbolfile new.addr) := by
  unfold State.validate
  rw [allocated.node]
  dsimp only [Block.node]
  by_cases magic : magicAt s₁.mem new.data = symfileMagic
  · have sized : ¬ WellSized s₁.mem new.data new.size := fun sized => invalid ⟨magic, sized⟩
    rw [if_neg (not_not.mpr magic)]
    simp only [sized, not_false_eq_true, if_true]
  · exact if_pos magic

theorem fails_unchanged {s s' : State} {blocks : List Block} {result : Bool × State} (is : result = (false, s'))
    (unchanged : Unchanged s s' blocks) : result.1 = false ∧ Unchanged s result.2 blocks := by
  subst is
  exact ⟨rfl, unchanged⟩

section Opened

variable {s s₁ : State} {blocks : List Block} {new : Block} {answers : State.Answers} {size : BitVec 64}

/-- The state once the file has been read into the block. -/
def filled (s₁ : State) (new : Block) (answers : State.Answers) : State :=
  { s₁ with mem := Flat.store s₁.mem new.data (answers.readData.take new.size.toNat) }

theorem filled_allocated (allocated : Allocated s s₁ blocks new) (answers : State.Answers) :
    Allocated s (filled s₁ new answers) blocks new :=
  allocated.store (List.length_take_le _ _)

theorem load_eq (stat : answers.stat = some size)
    (alloc : s.allocSymbolfile (State.cutSize size) answers.partition = (new.addr, s₁))
    (cut : new.size = State.cutSize size) (allocated : Allocated s s₁ blocks new) :
    s.symbolLoadSymbols answers =
      if answers.fd.slt 0 then (false, s₁.freeSymbolfile new.addr)
      else if answers.readRet.signExtend 64 ≠ size then (false, (filled s₁ new answers).freeSymbolfile new.addr)
      else (filled s₁ new answers).validate new.addr := by
  have nonNull : new.addr ≠ 0 := allocated.heap.chain.nonNull new (by simp)
  let opened : State := { filled s₁ new answers with fds := answers.fd :: s₁.fds }
  have closes : opened.closeFd answers.fd = filled s₁ new answers := by
    simp only [State.closeFd, List.erase_cons_head, opened, filled]
  have closes' : (opened.freeSymbolfile new.addr).closeFd answers.fd =
      (filled s₁ new answers).freeSymbolfile new.addr := by
    have fds : ((filled s₁ new answers).freeSymbolfile new.addr).fds = s₁.fds := (sameHeap_free _ new.addr).fds
    rw [free_fds]
    simp only [State.closeFd, List.erase_cons_head]
    rw [← fds]
  rw [← closes', ← closes, State.symbolLoadSymbols, stat]
  simp only [alloc, if_neg nonNull, allocated.node, State.readInto, Block.node]
  rw [← cut]
  rfl

theorem load_of_alloc (stat : answers.stat = some size)
    (alloc : s.allocSymbolfile (State.cutSize size) answers.partition = (new.addr, s₁))
    (cut : new.size = State.cutSize size) (allocated : Allocated s s₁ blocks new) :
    ((s.symbolLoadSymbols answers).1 = false ∧ Unchanged s (s.symbolLoadSymbols answers).2 blocks) ∨
      ∃ s₂, Loaded s s₂ blocks new answers ∧ s.symbolLoadSymbols answers = (true, relocate s₂ new) := by
  have loads := load_eq stat alloc cut allocated
  have full := filled_allocated allocated answers
  by_cases noFile : answers.fd.slt 0 = true
  · exact .inl (fails_unchanged (loads.trans (if_pos noFile)) allocated.released)
  rw [if_neg noFile] at loads
  by_cases read : answers.readRet.signExtend 64 = size
  swap
  · exact .inl (fails_unchanged (loads.trans (if_pos read)) full.released)
  rw [if_neg (not_not.mpr read)] at loads
  by_cases valid : Validated (filled s₁ new answers) new
  swap
  · exact .inl (fails_unchanged (loads.trans (validate_invalid full valid)) full.released)
  have high := full.hi_new
  have inside := le_roundUp new.size.toNat
  have short := List.length_take_le new.size.toNat answers.readData
  unfold Block.hi at high
  have file := @bytesAt_store s₁.mem new.data (answers.readData.take new.size.toNat) (short.trans (by omega))
  exact .inr ⟨_, ⟨full, ⟨size, stat, cut, read⟩, eq_false_of_ne_true noFile, file, valid⟩, loads.trans (validate_valid full valid)⟩

end Opened

theorem load_cases {s : State} {blocks : List Block} (heap : Heap s blocks) {answers : State.Answers}
    (measured : answers.Measured s) :
    ((s.symbolLoadSymbols answers).1 = false ∧ Unchanged s (s.symbolLoadSymbols answers).2 blocks) ∨
      ∃ new s₂, Loaded s s₂ blocks new answers ∧ s.symbolLoadSymbols answers = (true, relocate s₂ new) := by
  cases stat : answers.stat with
  | none =>
      have fails : s.symbolLoadSymbols answers = (false, s) := by rw [State.symbolLoadSymbols, stat]
      exact .inl (fails_unchanged fails (unchanged_refl heap))
  | some size =>
      rcases alloc_cases heap (State.cutSize size) answers.partition with
        ⟨-, nothing⟩ | ⟨s₀, given, heap₀, placed₀, mem, fds, ⟨-, rejected⟩ | ⟨accepted, p, allocates⟩⟩
      · have fails : s.symbolLoadSymbols answers = (false, s) := by
          rw [State.symbolLoadSymbols, stat]
          simp only [nothing, if_true]
        exact .inl (fails_unchanged fails (unchanged_refl heap))
      · have fails : s.symbolLoadSymbols answers = (false, s₀) := by
          rw [State.symbolLoadSymbols, stat]
          simp only [rejected, if_true]
        exact .inl (fails_unchanged fails (unchanged_withBlock heap₀ mem fds))
      · have allocated := allocates (measured size stat s₀ given ((accepts_iff placed₀ _).mp accepted))
        exact (load_of_alloc stat (Prod.ext p rfl) rfl allocated).imp_right fun loaded => ⟨_, loaded⟩

/-! ## Runs of requests -/

inductive Request
  | alloc (size : Word) (partition : Option Partition)
  | failedLoad (answers : State.Answers)
  | deleteAll

namespace Request

def next (s : State) : Request → State
  | alloc size partition => (s.allocSymbolfile size partition).2
  | failedLoad answers => (s.symbolLoadSymbols answers).2
  | deleteAll => s.symbolDeleteAll

/-- The size that is asked for, and what the kernel answers where there is no block yet. -/
def asks : Request → Option (Word × Option Partition)
  | alloc size partition => some (size, partition)
  | failedLoad answers => answers.stat.map fun size => (State.cutSize size, answers.partition)
  | deleteAll => none

/-- A failed load is one that returns zero. -/
def Possible (s : State) : Request → Prop
  | failedLoad answers => (s.symbolLoadSymbols answers).1 = false
  | alloc _ _ | deleteAll => True

/-- A block that is handed out lies in the heap, and nothing happens where there is none to hand out. -/
def Contained (s : State) (r : Request) : Prop :=
  ∀ size partition, r.asks = some (size, partition) →
    ((s.allocSymbolfile size partition).1 ≠ 0 →
      Block.InHeap ⟨(s.allocSymbolfile size partition).1, size⟩ (s.allocSymbolfile size partition).2) ∧
    ((∀ s₀, s.withBlock partition = some s₀ → ¬ Fits s₀ size) →
      (s.allocSymbolfile size partition).1 = 0 ∧ (s.allocSymbolfile size partition).2.mem = s.mem)

/-- No size that is less than the room, or wraps around, needs more than the room. -/
def Measured (s : State) (r : Request) : Prop :=
  ∀ size partition, r.asks = some (size, partition) → Symbols.Measured s size partition

end Request

/-- The blocks of the list have no byte in common. -/
def Listed (s : State) : Prop := ∃ blocks, Chain s.mem s.pHead blocks ∧ blocks.Pairwise Block.Disjoint

def Possible : State → List Request → Prop
  | _, [] => True
  | s, r :: requests => r.Possible s ∧ Possible (r.next s) requests

/-- What holds at each step of a run, and in the end. -/
def Sound : State → List Request → Prop
  | s, [] => Listed s
  | s, r :: requests => Listed s ∧ r.Contained s ∧ Sound (r.next s) requests

def AllMeasured : State → List Request → Prop
  | _, [] => True
  | s, r :: requests => r.Measured s ∧ AllMeasured (r.next s) requests

theorem Heap.listed {s : State} {blocks : List Block} (heap : Heap s blocks) : Listed s := by
  refine ⟨blocks, heap.chain, heap.ordered.imp_of_mem fun {b c} _ memC before => ?_⟩
  have high := heap.hi_le memC
  unfold Block.Before Block.hi Block.lo at *
  exact apart_of_le (by omega) (by omega)

theorem heap_deleteAll (s : State) : Heap s.symbolDeleteAll [] where
  chain := ⟨rfl, trivial, fun _ mem => absurd mem List.not_mem_nil⟩
  ordered := .nil
  above _ mem := absurd mem List.not_mem_nil
  below _ mem := absurd mem List.not_mem_nil
  empty _ := rfl
  placed some_ := absurd rfl some_

theorem heap_next {s : State} {blocks : List Block} (heap : Heap s blocks) {r : Request} (possible : r.Possible s)
    (measured : r.Measured s) : ∃ blocks', Heap (r.next s) blocks' := by
  cases r with
  | alloc size partition =>
      rcases alloc_cases heap size partition with
        ⟨-, nothing⟩ | ⟨s₀, given, heap₀, placed₀, -, -, ⟨-, rejected⟩ | ⟨accepted, -, allocates⟩⟩
      · exact ⟨blocks, by rw [Request.next, nothing]; exact heap⟩
      · exact ⟨blocks, by rw [Request.next, rejected]; exact heap₀⟩
      · exact ⟨_, (allocates (measured size partition rfl s₀ given ((accepts_iff placed₀ size).mp accepted))).heap⟩
  | failedLoad answers =>
      have sizes : answers.Measured s := fun size stat => measured _ _ (by rw [Request.asks, stat]; rfl)
      rcases load_cases heap sizes with unchanged | ⟨new, s₂, -, loads⟩
      · exact ⟨blocks, unchanged.2.heap⟩
      · rw [Request.Possible, loads] at possible
        cases possible
  | deleteAll => exact ⟨[], heap_deleteAll s⟩

theorem contained_iff {s : State} {blocks : List Block} (heap : Heap s blocks) (r : Request) :
    r.Contained s ↔ r.Measured s := by
  refine forall₃_congr fun size partition _ => ?_
  rcases alloc_cases heap size partition with
    ⟨given, nothing⟩ | ⟨s₀, given, heap₀, placed₀, mem, -, ⟨rejected, returns⟩ | ⟨accepted, p, allocates⟩⟩
  · rw [nothing]
    refine iff_of_true ⟨fun some_ => absurd rfl some_, fun _ => ⟨rfl, rfl⟩⟩ fun s₀ given' => ?_
    rw [given] at given'
    cases given'
  · rw [returns]
    refine iff_of_true ⟨fun some_ => absurd rfl some_, fun _ => ⟨rfl, mem⟩⟩ fun s₀' given' passes => ?_
    obtain rfl := Option.some.inj (given.symm.trans given')
    rw [(accepts_iff placed₀ size).mpr passes] at rejected
    cases rejected
  · have passes := (accepts_iff placed₀ size).mp accepted
    constructor
    · intro contained s₀' given' _
      obtain rfl := Option.some.inj (given.symm.trans given')
      by_contra large
      refine curraddr_ne_zero placed₀ (p.symm.trans (contained.2 fun s₀' given' => ?_).1)
      obtain rfl := Option.some.inj (given.symm.trans given')
      exact large
    · intro measured
      have fits := measured s₀ given passes
      refine ⟨fun _ => ?_, fun small => absurd fits (small s₀ given)⟩
      rw [p]
      exact (allocates fits).heap.inHeap (by simp)

theorem sound_iff {s : State} {blocks : List Block} (heap : Heap s blocks) {requests : List Request}
    (possible : Possible s requests) : Sound s requests ↔ AllMeasured s requests := by
  induction requests generalizing s blocks with
  | nil => exact iff_of_true heap.listed trivial
  | cons r requests ih =>
      have rest (measured : r.Measured s) : Sound (r.next s) requests ↔ AllMeasured (r.next s) requests := by
        obtain ⟨blocks', heap'⟩ := heap_next heap possible.1 measured
        exact ih heap' possible.2
      rw [Sound, AllMeasured, contained_iff heap r]
      constructor
      · intro sound
        exact ⟨sound.2.1, (rest sound.2.1).mp sound.2.2⟩
      · intro measured
        exact ⟨heap.listed, measured.1, (rest measured.1).mpr measured.2⟩

/-- From an empty heap on, requests, failed loads and deletions keep the blocks of the list apart and inside the
heap, and leave everything alone where there is no room, if and only if none of them asks for a size that the
comparison takes for smaller than it is. -/
theorem requests_sound_iff (mem : Flat) (requests : List Request) (possible : Possible (.start mem) requests) :
    Sound (.start mem) requests ↔ AllMeasured (.start mem) requests := sound_iff (heap_start mem) possible

theorem block_nonNull : (0x88100000 : Addr) ≠ 0 := by decide

theorem block_fits : (0x88100000 : Addr).toNat + heapSize < 2 ^ 32 := by decide

/-- A block in the kernel's partition. -/
def kernelBlock : Partition := ⟨7, 0x88100000, block_nonNull, block_fits⟩

def emptyStart : State := .start fun _ => 0

theorem requests_sound_start :
    Possible emptyStart [.alloc 8 (some kernelBlock), .failedLoad ⟨none, none, 0, 0, []⟩, .deleteAll] ∧
      Sound emptyStart [.alloc 8 (some kernelBlock), .failedLoad ⟨none, none, 0, 0, []⟩, .deleteAll] := by
  have possible : Possible emptyStart
      [.alloc 8 (some kernelBlock), .failedLoad ⟨none, none, 0, 0, []⟩, .deleteAll] := ⟨trivial, rfl, trivial, trivial⟩
  refine ⟨possible, (requests_sound_iff _ _ possible).mpr ⟨?_, ?_, ?_, trivial⟩⟩
  · intro size partition asks s₀ given _
    cases asks
    cases given
    decide
  · intro size partition asks
    cases asks
  · intro size partition asks
    cases asks

/-- Less than the whole heap is asked for, and sixteen bytes more than the heap are cleared. -/
theorem request_overruns : ¬ Sound emptyStart [.alloc 0xFFFF (some kernelBlock)] := by
  intro sound
  have measured := (contained_iff (heap_start _) _).mp sound.2.1
  have fits := measured 0xFFFF (some kernelBlock) rfl _ rfl (.inl (by decide))
  exact absurd fits (by decide)

end Psplink.Symbols
