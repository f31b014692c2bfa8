import Mathlib.Data.List.Induction
import Mathlib.Data.List.Pairwise
import Psplink.Symbols.Symfile

/-!
# The heap of symbol files

The blocks of the list lie one after another in the heap, each with its header and its data, and the
headers link them in both directions. What a request and its release do to that.
-/

namespace Psplink.Symbols
open Psplink.Lib Psplink.Lib.Flat

/-! ## Sizes -/

def roundUp (n : Nat) : Nat := (n + 3) / 4 * 4

theorem le_roundUp (n : Nat) : n ≤ roundUp n := by
  unfold roundUp
  omega

theorem toNat_and_not_three (x : Word) : (x &&& ~~~(3 : Word)).toNat = x.toNat / 4 * 4 := by
  have cut : x &&& ~~~(3 : Word) = x >>> 2 <<< 2 := by
    rw [BitVec.shiftLeft_ushiftRight]
    rfl
  rw [cut]
  simp only [BitVec.toNat_shiftLeft, BitVec.toNat_ushiftRight, Nat.shiftRight_eq_div_pow, Nat.shiftLeft_eq]
  omega

theorem toNat_totalSize {size : Word} (small : nodeSize + roundUp size.toNat ≤ heapSize) :
    (totalSize size).toNat = nodeSize + roundUp size.toNat := by
  unfold roundUp at small ⊢
  have node : nodeSize = 16 := rfl
  have heap : heapSize = 65536 := rfl
  have three : (3 : Word).toNat = 3 := rfl
  have total := BitVec.toNat_add ((size + 3) &&& ~~~(3 : Word)) (BitVec.ofNat 32 nodeSize)
  have rounded := toNat_and_not_three (size + 3)
  rw [BitVec.toNat_add, three, Nat.mod_eq_of_lt (by omega)] at rounded
  rw [totalSize, total, rounded, BitVec.toNat_ofNat]
  omega

/-! ## Blocks -/

structure Block where
  addr : Addr
  size : Word

namespace Block

def data (b : Block) : Addr := offset b.addr nodeSize

/-- Where the block begins and where it ends. -/
def lo (b : Block) : Nat := b.addr.toNat
def hi (b : Block) : Nat := b.addr.toNat + nodeSize + roundUp b.size.toNat

/-- No byte is in both. -/
def Disjoint (b c : Block) : Prop :=
  Apart b.addr (nodeSize + roundUp b.size.toNat) c.addr (nodeSize + roundUp c.size.toNat)

def Before (b c : Block) : Prop := b.hi ≤ c.lo

end Block

/-- The address of the first block, or of what comes after them. -/
def first (blocks : List Block) (after : Addr) : Addr := blocks.head?.elim after Block.addr

def last (before : Addr) (blocks : List Block) : Addr := blocks.getLast?.elim before Block.addr

def Block.node (b : Block) (pNext pPrev : Addr) : SymbolFile := ⟨pNext, pPrev, b.data, b.size⟩

/-- The headers of the blocks, between the node before them and the one after them. -/
def Linked (mem : Flat) (before : Addr) : List Block → Addr → Prop
  | [], _ => True
  | b :: blocks, after => nodeAt mem b.addr = b.node (first blocks after) before ∧ Linked mem b.addr blocks after

/-- The list that starts at a node. -/
structure Chain (mem : Flat) (head : Addr) (blocks : List Block) : Prop where
  head : head = first blocks 0
  linked : Linked mem 0 blocks 0
  nonNull : ∀ b ∈ blocks, b.addr ≠ 0

theorem linked_append {mem : Flat} {before after : Addr} (front back : List Block) :
    Linked mem before (front ++ back) after ↔
      Linked mem before front (first back after) ∧ Linked mem (last before front) back after := by
  induction front generalizing before with
  | nil => exact ⟨fun linked => ⟨trivial, linked⟩, And.right⟩
  | cons b front ih =>
      have firsts : first (front ++ back) after = first front (first back after) := by
        cases front <;> rfl
      have lasts : last b.addr front = last before (b :: front) := by
        cases front with
        | nil => rfl
        | cons c front => simp [last, List.getLast?_cons]
      rw [List.cons_append, Linked, Linked, ih, firsts, lasts, and_assoc]

theorem linked_congr {mem mem' : Flat} {before after : Addr} {blocks : List Block}
    (same : ∀ b ∈ blocks, nodeAt mem' b.addr = nodeAt mem b.addr) (linked : Linked mem before blocks after) :
    Linked mem' before blocks after := by
  induction blocks generalizing before with
  | nil => trivial
  | cons b blocks ih =>
      exact ⟨(same b List.mem_cons_self).trans linked.1, ih (fun c mem => same c (List.mem_cons_of_mem b mem)) linked.2⟩

theorem first_append (front : List Block) (b : Block) (back : List Block) (after : Addr) :
    first (front ++ b :: back) after = first (front ++ [b]) after := by
  cases front <;> rfl

theorem last_concat (before : Addr) (front : List Block) (b : Block) : last before (front ++ [b]) = b.addr := by
  simp [last]

theorem lastNode_eq {mem : Flat} {before : Addr} {front : List Block} {b : Block} (linked : Linked mem before (front ++ [b]) 0)
    (nonNull : ∀ c ∈ front ++ [b], c.addr ≠ 0) {fuel : Nat} (enough : front.length < fuel) :
    lastNode mem fuel (first (front ++ [b]) 0) = b.addr := by
  induction front generalizing before fuel with
  | nil =>
      obtain ⟨fuel, rfl⟩ := Nat.exists_eq_succ_of_ne_zero (Nat.ne_of_gt enough)
      have here : nodeAt mem b.addr = b.node 0 before := linked.1
      change lastNode mem (fuel + 1) b.addr = b.addr
      rw [lastNode, here]
      exact if_pos rfl
  | cons c front ih =>
      obtain ⟨fuel, rfl⟩ := Nat.exists_eq_succ_of_ne_zero (Nat.ne_of_gt (Nat.zero_lt_of_lt enough))
      obtain ⟨here, rest⟩ := linked
      change lastNode mem (fuel + 1) c.addr = b.addr
      have next : (nodeAt mem c.addr).pNext = first (front ++ [b]) 0 := by rw [here]; rfl
      have more : first (front ++ [b]) 0 ≠ 0 := by
        cases front with
        | nil => exact nonNull b (by simp)
        | cons d front => exact nonNull d (by simp)
      rw [lastNode, next, if_neg more]
      exact ih rest (fun d mem => nonNull d (List.mem_cons_of_mem c mem)) (Nat.lt_of_succ_lt_succ enough)

/-! ## Headers -/

theorem nodeAt_setNode (mem : Flat) (p : Addr) (set : SymbolFile → SymbolFile) :
    nodeAt (setNode mem p set) p = set (nodeAt mem p) := load_save (by decide) mem p _

theorem setNode_agree {mem : Flat} {p a : Addr} {n : Nat} (apart : Apart p nodeSize a n) (set : SymbolFile → SymbolFile) :
    Agree (setNode mem p set) mem a n := save_agree apart

theorem nodeAt_congr {mem mem' : Flat} {p : Addr} (agree : Agree mem mem' p nodeSize) : nodeAt mem p = nodeAt mem' p :=
  load_congr (by decide) agree

theorem nodeAt_setNode_apart {mem : Flat} {p q : Addr} (apart : Apart p nodeSize q nodeSize)
    (set : SymbolFile → SymbolFile) : nodeAt (setNode mem p set) q = nodeAt mem q :=
  nodeAt_congr (setNode_agree apart set)

def HeadersApart (blocks : List Block) : Prop := blocks.Pairwise fun b c => Apart b.addr nodeSize c.addr nodeSize

/-- Nothing but headers of these blocks has changed. -/
def OnlyHeaders (blocks : List Block) (mem mem' : Flat) : Prop :=
  ∀ a n, (∀ b ∈ blocks, Apart b.addr nodeSize a n) → Agree mem' mem a n

theorem headersApart_concat {blocks : List Block} {b : Block} (apart : HeadersApart (blocks ++ [b])) :
    HeadersApart blocks ∧ ∀ c ∈ blocks, Apart c.addr nodeSize b.addr nodeSize := by
  obtain ⟨front, -, cross⟩ := List.pairwise_append.mp apart
  exact ⟨front, fun c mem => cross c mem b (List.mem_singleton_self b)⟩

theorem link_chain {s : State} {blocks : List Block} {new : Block} (chain : Chain s.mem s.pHead blocks)
    (few : blocks.length ≤ maxNodes) (apart : HeadersApart (blocks ++ [new]))
    (fresh : nodeAt s.mem new.addr = new.node 0 0) (nonNull : new.addr ≠ 0) :
    Chain (s.link new.addr).mem (s.link new.addr).pHead (blocks ++ [new]) ∧
      OnlyHeaders (blocks ++ [new]) s.mem (s.link new.addr).mem := by
  induction blocks using List.reverseRecOn with
  | nil =>
      have head : s.pHead = 0 := chain.head
      rw [State.link, if_pos head]
      refine ⟨⟨rfl, ⟨fresh, trivial⟩, ?_⟩, fun _ _ _ _ _ => rfl⟩
      intro b mem
      rwa [List.mem_singleton.mp mem]
  | append_singleton front b _ =>
      obtain ⟨apartFront, newApart⟩ := headersApart_concat apart
      obtain ⟨-, lastApart⟩ := headersApart_concat apartFront
      have bNew : Apart b.addr nodeSize new.addr nodeSize := newApart b (by simp)
      have some_ : s.pHead ≠ 0 := by
        rw [chain.head]
        cases front with
        | nil => exact chain.nonNull b (by simp)
        | cons c front => exact chain.nonNull c (by simp)
      have tail : lastNode s.mem maxNodes s.pHead = b.addr := by
        rw [chain.head]
        refine lastNode_eq chain.linked chain.nonNull ?_
        rwa [List.length_append, List.length_singleton] at few
      obtain ⟨linkedFront, here⟩ := (linked_append front [b]).mp chain.linked
      let mem₁ := setNode s.mem b.addr ({ · with pNext := new.addr })
      let mem₂ := setNode mem₁ new.addr ({ · with pPrev := b.addr })
      have after : s.link new.addr = { s with mem := mem₂ } := by
        rw [State.link, if_neg some_, tail]
      rw [after]
      refine ⟨⟨?_, ?_, ?_⟩, ?_⟩
      · rw [List.append_assoc, List.singleton_append, first_append]
        exact chain.head
      · refine (linked_append (front ++ [b]) [new]).mpr ⟨(linked_append front [b]).mpr ⟨?_, ?_, trivial⟩, ?_, trivial⟩
        · refine linked_congr (fun c mem => ?_) linkedFront
          rw [nodeAt_setNode_apart (newApart c (by simp [mem])).symm, nodeAt_setNode_apart (lastApart c mem).symm]
        · rw [nodeAt_setNode_apart bNew.symm, nodeAt_setNode, here.1]
          rfl
        · rw [nodeAt_setNode, nodeAt_setNode_apart bNew, fresh, last_concat]
          rfl
      · intro c mem
        rcases List.mem_append.mp mem with mem | mem
        · exact chain.nonNull c mem
        · rwa [List.mem_singleton.mp mem]
      · intro a n outside
        have second : Agree mem₂ mem₁ a n := setNode_agree (outside new (by simp)) _
        have first : Agree mem₁ s.mem a n := setNode_agree (outside b (by simp)) _
        exact second.trans first

theorem free_chain {s : State} {blocks : List Block} {new : Block} (chain : Chain s.mem s.pHead (blocks ++ [new]))
    (apart : HeadersApart (blocks ++ [new])) :
    Chain (s.freeSymbolfile new.addr).mem (s.freeSymbolfile new.addr).pHead blocks ∧
      OnlyHeaders blocks s.mem (s.freeSymbolfile new.addr).mem := by
  obtain ⟨apartBlocks, newApart⟩ := headersApart_concat apart
  obtain ⟨linked, node, -⟩ := (linked_append blocks [new]).mp chain.linked
  have nonNull (c : Block) (mem : c ∈ blocks) : c.addr ≠ 0 := chain.nonNull c (List.mem_append_left _ mem)
  induction blocks using List.reverseRecOn with
  | nil =>
      have after : s.freeSymbolfile new.addr = { s with pHead := 0 } := by
        simp only [State.freeSymbolfile, node, Block.node, first, last, List.head?_nil, List.getLast?_nil,
          Option.elim_none, if_true]
      rw [after]
      exact ⟨⟨rfl, trivial, fun c mem => by cases mem⟩, fun _ _ _ _ _ => rfl⟩
  | append_singleton front b _ =>
      obtain ⟨-, lastApart⟩ := headersApart_concat apartBlocks
      have bNew : Apart b.addr nodeSize new.addr nodeSize := newApart b (by simp)
      rw [last_concat] at node
      have some_ : b.addr ≠ 0 := nonNull b (by simp)
      let mem₁ := setNode s.mem b.addr ({ · with pNext := 0 })
      have kept : nodeAt mem₁ new.addr = new.node 0 b.addr := by
        rw [nodeAt_setNode_apart bNew, node]
        rfl
      have after : s.freeSymbolfile new.addr = { s with mem := mem₁ } := by
        simp only [State.freeSymbolfile, node, Block.node, if_neg some_, first, List.head?_nil, Option.elim_none]
        rw [kept]
        exact if_pos rfl
      obtain ⟨linkedFront, here⟩ := (linked_append front [b]).mp linked
      rw [after]
      refine ⟨⟨?_, ?_, nonNull⟩, fun a n outside => ?_⟩
      · have := chain.head
        rwa [List.append_assoc, List.singleton_append, first_append] at this
      · refine (linked_append front [b]).mpr ⟨linked_congr (fun c mem => ?_) linkedFront, ?_, trivial⟩
        · rw [nodeAt_setNode_apart (lastApart c mem).symm]
        · rw [nodeAt_setNode, here.1]
          rfl
      · have agree : Agree mem₁ s.mem a n := setNode_agree (outside b (by simp)) _
        exact agree

/-- Apart from the memory and the head of the list nothing changes. -/
structure SameHeap (s s' : State) : Prop where
  blockId : s'.blockId = s.blockId
  baseaddr : s'.baseaddr = s.baseaddr
  curraddr : s'.curraddr = s.curraddr
  fds : s'.fds = s.fds

theorem sameHeap_link (s : State) (p : Addr) : SameHeap s (s.link p) := by
  unfold State.link
  split
  · exact ⟨rfl, rfl, rfl, rfl⟩
  · exact ⟨rfl, rfl, rfl, rfl⟩

theorem sameHeap_free (s : State) (p : Addr) : SameHeap s (s.freeSymbolfile p) := by
  unfold State.freeSymbolfile
  dsimp only
  split_ifs
  all_goals exact ⟨rfl, rfl, rfl, rfl⟩

/-! ## The invariant -/

/-- What is left of the heap, from `g_curraddr` on. -/
def State.room (s : State) : Nat := s.baseaddr.toNat + heapSize - s.curraddr.toNat

structure Placed (s : State) : Prop where
  nonNull : s.baseaddr ≠ 0
  fits : s.baseaddr.toNat + heapSize < 2 ^ 32
  start : s.baseaddr.toNat ≤ s.curraddr.toNat
  stop : s.curraddr.toNat ≤ s.baseaddr.toNat + heapSize

theorem placed_congr {s s' : State} (placed : Placed s) (base : s'.baseaddr = s.baseaddr)
    (curr : s'.curraddr = s.curraddr) : Placed s' := by
  obtain ⟨nonNull, fits, start, stop⟩ := placed
  rw [← base] at nonNull fits start stop
  rw [← curr] at start stop
  exact ⟨nonNull, fits, start, stop⟩

/-- The blocks of the list lie in order in the part of the heap that has been given out. -/
structure Heap (s : State) (blocks : List Block) : Prop where
  chain : Chain s.mem s.pHead blocks
  ordered : blocks.Pairwise Block.Before
  above : ∀ b ∈ blocks, s.baseaddr.toNat ≤ b.lo
  below : ∀ b ∈ blocks, b.hi ≤ s.curraddr.toNat
  empty : s.blockId = none → blocks = []
  placed : s.blockId ≠ none → Placed s

def State.start (mem : Flat) : State := ⟨mem, none, 0, 0, 0, []⟩

theorem heap_start (mem : Flat) : Heap (.start mem) [] where
  chain := ⟨rfl, trivial, fun _ mem => by cases mem⟩
  ordered := .nil
  above _ mem := by cases mem
  below _ mem := by cases mem
  empty _ := rfl
  placed some_ := absurd rfl some_

namespace Heap

variable {s : State} {blocks : List Block}

theorem placed_of_mem (heap : Heap s blocks) {b : Block} (mem : b ∈ blocks) : Placed s :=
  heap.placed fun none => by
    rw [heap.empty none] at mem
    cases mem

theorem hi_le (heap : Heap s blocks) {b : Block} (mem : b ∈ blocks) : b.hi < 2 ^ 32 := by
  have placed := heap.placed_of_mem mem
  exact ((heap.below b mem).trans placed.stop).trans_lt placed.fits

/-- Blocks in order, between two addresses, and their number. -/
theorem few_of_ordered {lo hi : Nat} (start : lo ≤ hi) {blocks : List Block} (ordered : blocks.Pairwise Block.Before)
    (above : ∀ b ∈ blocks, lo ≤ b.lo) (below : ∀ b ∈ blocks, b.hi ≤ hi) : lo + nodeSize * blocks.length ≤ hi := by
  induction blocks generalizing lo with
  | nil => exact start
  | cons b blocks ih =>
      obtain ⟨before, ordered⟩ := List.pairwise_cons.mp ordered
      have here := above b List.mem_cons_self
      have rest := ih (below b List.mem_cons_self) ordered before fun c mem => below c (List.mem_cons_of_mem b mem)
      have size : b.lo + nodeSize ≤ b.hi := Nat.le_add_right _ _
      rw [List.length_cons, Nat.mul_succ]
      omega

theorem few (heap : Heap s blocks) : blocks.length ≤ maxNodes := by
  cases blocks with
  | nil => exact Nat.zero_le _
  | cons b blocks =>
      have placed := heap.placed_of_mem List.mem_cons_self
      have counted := few_of_ordered placed.start heap.ordered heap.above heap.below
      have stop := placed.stop
      have sizes : heapSize = nodeSize * maxNodes := rfl
      have node : nodeSize = 16 := rfl
      rw [sizes] at stop
      rw [node] at counted stop
      omega

theorem before_or_after (heap : Heap s blocks) {b c : Block} (memB : b ∈ blocks) (memC : c ∈ blocks) :
    b = c ∨ b.Before c ∨ c.Before b := by
  by_cases same : b = c
  · exact .inl same
  · have symm : Std.Symm fun b c : Block => b.Before c ∨ c.Before b := ⟨fun _ _ => Or.symm⟩
    have either : blocks.Pairwise fun b c => b.Before c ∨ c.Before b := heap.ordered.imp Or.inl
    exact .inr (either.forall memB memC same)

theorem header_apart_data (heap : Heap s blocks) {b c : Block} (memB : b ∈ blocks) (memC : c ∈ blocks) :
    Apart c.addr nodeSize b.data (roundUp b.size.toNat) := by
  have highB := heap.hi_le memB
  have highC := heap.hi_le memC
  have data : b.data.toNat = b.addr.toNat + nodeSize := toNat_offset (by unfold Block.hi at highB; omega)
  rcases heap.before_or_after memB memC with rfl | before | before
  · unfold Block.hi at highB
    exact apart_of_le (by omega) (by omega)
  · unfold Block.Before Block.hi Block.lo at *
    exact (apart_of_le (by omega) (by omega)).symm
  · unfold Block.Before Block.hi Block.lo at *
    exact apart_of_le (by omega) (by omega)

theorem headersApart (heap : Heap s blocks) : HeadersApart blocks := by
  refine heap.ordered.imp_of_mem fun {b c} memB memC before => ?_
  have high := heap.hi_le memC
  unfold Block.Before Block.hi Block.lo at *
  exact apart_of_le (by omega) (by omega)

end Heap

/-! ## Requests -/

def Fits (s : State) (size : Word) : Prop := nodeSize + roundUp size.toNat ≤ s.room

instance (s : State) (size : Word) : Decidable (Fits s size) := inferInstanceAs (Decidable (_ ≤ _))

theorem withBlock_some {s s₀ : State} {blocks : List Block} {partition : Option Partition} (heap : Heap s blocks)
    (given : s.withBlock partition = some s₀) :
    Heap s₀ blocks ∧ s₀.blockId ≠ none ∧ s₀.mem = s.mem ∧ s₀.fds = s.fds := by
  unfold State.withBlock at given
  cases owned : s.blockId with
  | some uid =>
      rw [owned] at given
      obtain rfl := Option.some.inj given
      exact ⟨heap, by rw [owned]; exact Option.some_ne_none uid, rfl, rfl⟩
  | none =>
      rw [owned] at given
      obtain ⟨block, -, rfl⟩ := Option.map_eq_some_iff.mp given
      obtain rfl := heap.empty owned
      have none (b : Block) (mem : b ∈ ([] : List Block)) : False := List.not_mem_nil mem
      exact ⟨⟨heap.chain, .nil, fun b mem => (none b mem).elim, fun b mem => (none b mem).elim, fun _ => rfl,
        fun _ => ⟨block.nonNull, block.fits, Nat.le_refl _, Nat.le_add_right _ _⟩⟩, Option.some_ne_none _, rfl, rfl⟩

/-- What the comparison of `alloc_symbolfile` lets through. -/
theorem accepts_iff {s : State} (placed : Placed s) (size : Word) :
    s.accepts size = true ↔ size.toNat < s.room ∨ 2 ^ 32 ≤ s.curraddr.toNat + size.toNat := by
  obtain ⟨-, fits, start, stop⟩ := placed
  have heap : heapSize = 65536 := rfl
  have large := size.isLt
  have limit : (s.baseaddr + BitVec.ofNat 32 heapSize).toNat = s.baseaddr.toNat + heapSize := by
    rw [BitVec.toNat_add, BitVec.toNat_ofNat]
    omega
  rw [State.accepts, BitVec.ult, decide_eq_true_iff, limit, BitVec.toNat_add, State.room]
  omega

theorem curraddr_ne_zero {s : State} (placed : Placed s) : s.curraddr ≠ 0 := by
  obtain ⟨nonNull, -, start, -⟩ := placed
  intro zero
  rw [zero] at start
  exact nonNull (BitVec.eq_of_toNat_eq (Nat.le_zero.mp start))

/-- The state after a request that got a block. -/
structure Allocated (s s' : State) (blocks : List Block) (new : Block) : Prop where
  heap : Heap s' (blocks ++ [new])
  frame : ∀ a n, (∀ b ∈ blocks, Apart b.addr nodeSize a n) →
    Apart new.addr (nodeSize + roundUp new.size.toNat) a n → Agree s'.mem s.mem a n
  fds : s'.fds = s.fds

/-- The block lies in the heap. -/
def Block.InHeap (b : Block) (s : State) : Prop := s.baseaddr.toNat ≤ b.lo ∧ b.hi ≤ s.baseaddr.toNat + heapSize

theorem Heap.inHeap {s : State} {blocks : List Block} (heap : Heap s blocks) {b : Block} (mem : b ∈ blocks) :
    b.InHeap s := ⟨heap.above b mem, (heap.below b mem).trans (heap.placed_of_mem mem).stop⟩

theorem nodeAt_clear (mem : Flat) (p : Addr) {n : Nat} (inside : nodeSize ≤ n) (small : n ≤ 2 ^ 32) :
    nodeAt (clear mem p n) p = ⟨0, 0, 0, 0⟩ := by
  rw [nodeAt, load]
  change decode (bytesAt (clear mem p n) p nodeSize) = _
  rw [bytesAt_clear mem p inside small]
  rfl

theorem carve_agree {s : State} {size : Word} {a : Addr} {n : Nat} (node : Apart s.curraddr nodeSize a n)
    (apart : Apart s.curraddr (totalSize size).toNat a n) : Agree (s.carve size).mem s.mem a n := by
  unfold State.carve
  dsimp only
  exact (setNode_agree node _).trans (clear_agree apart)

theorem node_carve (s : State) (size : Word) : nodeAt (s.carve size).mem s.curraddr =
    { nodeAt (clear s.mem s.curraddr (totalSize size).toNat) s.curraddr with
      size := size, data := offset s.curraddr nodeSize } := by
  unfold State.carve
  dsimp only
  rw [nodeAt_setNode]

section Carve

variable {s : State} {blocks : List Block} {size : Word} (heap : Heap s blocks) (owned : s.blockId ≠ none)
  (fits : Fits s size)

include heap owned fits

theorem total_of_fits : (totalSize size).toNat = nodeSize + roundUp size.toNat ∧
    s.curraddr.toNat + (nodeSize + roundUp size.toNat) ≤ s.baseaddr.toNat + heapSize := by
  obtain ⟨-, -, start, -⟩ := heap.placed owned
  have node : nodeSize = 16 := rfl
  unfold Fits State.room at fits
  exact ⟨toNat_totalSize (by omega), by omega⟩

theorem apart_carved {b : Block} (mem : b ∈ blocks) :
    Apart b.addr nodeSize s.curraddr (nodeSize + roundUp size.toNat) := by
  have below := heap.below b mem
  have inside := (total_of_fits heap owned fits).2
  have space := (heap.placed owned).fits
  unfold Block.hi at below
  exact apart_of_le (by omega) (by omega)

theorem carve_frame {a : Addr} {n : Nat} (apart : Apart s.curraddr (nodeSize + roundUp size.toNat) a n) :
    Agree (s.carve size).mem s.mem a n := by
  have total := (total_of_fits heap owned fits).1
  rw [← total] at apart
  exact carve_agree (apart.shrink (by omega) (Nat.le_refl n)) apart

/-- The node is written and then linked. -/
theorem carve_linked :
    Chain ((s.carve size).link s.curraddr).mem ((s.carve size).link s.curraddr).pHead (blocks ++ [⟨s.curraddr, size⟩]) ∧
      OnlyHeaders (blocks ++ [⟨s.curraddr, size⟩]) (s.carve size).mem ((s.carve size).link s.curraddr).mem := by
  have total := (total_of_fits heap owned fits).1
  let new : Block := ⟨s.curraddr, size⟩
  have before (b : Block) (mem : b ∈ blocks) := apart_carved heap owned fits mem
  have headers : HeadersApart (blocks ++ [new]) := by
    refine List.pairwise_append.mpr ⟨heap.headersApart, List.pairwise_singleton _ _, fun b mem c memC => ?_⟩
    obtain rfl := List.mem_singleton.mp memC
    exact (before b mem).shrink (Nat.le_refl _) (Nat.le_add_right _ _)
  have fresh : nodeAt (s.carve size).mem new.addr = new.node 0 0 := by
    have large := (totalSize size).isLt
    have cleared := nodeAt_clear s.mem s.curraddr (n := (totalSize size).toNat) (by omega) (by omega)
    rw [node_carve, cleared]
    rfl
  have kept (b : Block) (mem : b ∈ blocks) : nodeAt (s.carve size).mem b.addr = nodeAt s.mem b.addr :=
    nodeAt_congr (carve_frame heap owned fits (before b mem).symm)
  have chain : Chain (s.carve size).mem (s.carve size).pHead blocks :=
    ⟨heap.chain.head, linked_congr kept heap.chain.linked, heap.chain.nonNull⟩
  exact @link_chain (s.carve size) blocks new chain heap.few headers fresh (curraddr_ne_zero (heap.placed owned))

/-- The data of the new block are zeros. -/
theorem carve_cleared {x : Addr} (inside : In (offset s.curraddr nodeSize) (roundUp size.toNat) x) :
    ((s.carve size).link s.curraddr).mem x = 0 := by
  obtain ⟨total, stop⟩ := total_of_fits heap owned fits
  have space := (heap.placed owned).fits
  have own : Apart s.curraddr nodeSize (offset s.curraddr nodeSize) (roundUp size.toNat) := by
    have data : (offset s.curraddr nodeSize).toNat = s.curraddr.toNat + nodeSize := toNat_offset (by omega)
    exact apart_of_le (by omega) (by omega)
  have headers (b : Block) (mem : b ∈ blocks ++ [⟨s.curraddr, size⟩]) :
      Apart b.addr nodeSize (offset s.curraddr nodeSize) (roundUp size.toNat) := by
    rcases List.mem_append.mp mem with mem | mem
    · exact fun x here there => apart_carved heap owned fits mem x here (in_of_offset (Nat.le_refl _) (by omega) there)
    · exact List.mem_singleton.mp mem ▸ own
  have linked := (carve_linked heap owned fits).2 _ _ headers x inside
  have zeros : (s.carve size).mem x = 0 := by
    unfold State.carve
    dsimp only
    rw [setNode, save_outside fun here => own x here inside]
    exact clear_inside (in_of_offset (k := nodeSize) (by omega) (by omega) inside)
  exact linked.trans zeros

theorem carve_allocated :
    Allocated s { (s.carve size).link s.curraddr with curraddr := s.curraddr + totalSize size } blocks
      ⟨s.curraddr, size⟩ := by
  have placed := heap.placed owned
  obtain ⟨nonNull, inSpace, start, stop⟩ := placed
  obtain ⟨total, inside⟩ := total_of_fits heap owned fits
  obtain ⟨linked, only⟩ := carve_linked heap owned fits
  have curr : (s.curraddr + totalSize size).toNat = s.curraddr.toNat + (nodeSize + roundUp size.toNat) := by
    rw [BitVec.toNat_add, total]
    omega
  have same := sameHeap_link (s.carve size) s.curraddr
  refine ⟨⟨linked, ?_, ?_, ?_, ?_, ?_⟩, ?_, same.fds⟩
  · exact List.pairwise_append.mpr ⟨heap.ordered, List.pairwise_singleton _ _, fun b mem c memC =>
      List.mem_singleton.mp memC ▸ heap.below b mem⟩
  · intro b mem
    rw [same.baseaddr]
    rcases List.mem_append.mp mem with mem | mem
    · exact heap.above b mem
    · exact List.mem_singleton.mp mem ▸ start
  · intro b mem
    change b.hi ≤ (s.curraddr + totalSize size).toNat
    rw [curr]
    rcases List.mem_append.mp mem with mem | mem
    · exact (heap.below b mem).trans (Nat.le_add_right _ _)
    · rw [List.mem_singleton.mp mem]
      exact (Nat.add_assoc _ _ _).le
  · intro none
    exact absurd (same.blockId.symm.trans none) owned
  · intro _
    refine ⟨?_, ?_, ?_, ?_⟩
    all_goals rw [same.baseaddr]
    · exact nonNull
    · exact inSpace
    · change _ ≤ (s.curraddr + totalSize size).toNat
      rw [curr]
      exact start.trans (Nat.le_add_right _ _)
    · change (s.curraddr + totalSize size).toNat ≤ _
      rw [curr]
      exact inside
  · intro a n outside apart
    refine (only a n fun b mem => ?_).trans (carve_frame heap owned fits apart)
    rcases List.mem_append.mp mem with mem | mem
    · exact outside b mem
    · rw [List.mem_singleton.mp mem]
      exact apart.shrink (Nat.le_add_right _ _) (Nat.le_refl n)

end Carve

/-- What a request does, by what the comparison says of it. -/
theorem alloc_cases {s : State} {blocks : List Block} (heap : Heap s blocks) (size : Word) (partition : Option Partition) :
    (s.withBlock partition = none ∧ s.allocSymbolfile size partition = (0, s)) ∨
    ∃ s₀, s.withBlock partition = some s₀ ∧ Heap s₀ blocks ∧ Placed s₀ ∧ s₀.mem = s.mem ∧ s₀.fds = s.fds ∧
      ((s₀.accepts size = false ∧ s.allocSymbolfile size partition = (0, s₀)) ∨
        s₀.accepts size = true ∧ (s.allocSymbolfile size partition).1 = s₀.curraddr ∧
          (Fits s₀ size → Allocated s (s.allocSymbolfile size partition).2 blocks ⟨s₀.curraddr, size⟩)) := by
  unfold State.allocSymbolfile
  cases given : s.withBlock partition with
  | none => exact .inl ⟨rfl, rfl⟩
  | some s₀ =>
      obtain ⟨heap₀, owned, mem, fds⟩ := withBlock_some heap given
      refine .inr ⟨s₀, rfl, heap₀, heap₀.placed owned, mem, fds, ?_⟩
      cases accepted : s₀.accepts size with
      | false => exact .inl ⟨rfl, by simp only [accepted, Bool.false_eq_true, if_false]⟩
      | true =>
          refine .inr ⟨rfl, by simp only [accepted, if_true], fun fits => ?_⟩
          simp only [accepted, if_true]
          have allocated := carve_allocated heap₀ owned fits
          exact ⟨allocated.heap, mem ▸ allocated.frame, fds ▸ allocated.fds⟩

/-- A request that fits and gets a block: its data are zeros. -/
theorem alloc_cleared {s s₀ : State} {blocks : List Block} {size : Word} {partition : Option Partition}
    (heap : Heap s blocks) (given : s.withBlock partition = some s₀) (accepted : s₀.accepts size = true)
    (fits : Fits s₀ size) {x : Addr} (inside : In (offset s₀.curraddr nodeSize) (roundUp size.toNat) x) :
    (s.allocSymbolfile size partition).2.mem x = 0 := by
  obtain ⟨heap₀, owned, -, -⟩ := withBlock_some heap given
  rw [State.allocSymbolfile, given]
  simp only [accepted, if_true]
  exact carve_cleared heap₀ owned fits inside

end Psplink.Symbols
