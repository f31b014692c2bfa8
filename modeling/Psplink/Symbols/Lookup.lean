import Psplink.Kernel.ModuleInfo
import Psplink.Symbols.Validation

/-!
# Lookups

The lookups of psplink/symbols.c walk the list of files and the bytes of their tables. A load that fails
leaves what they find as it was, as long as every table in the list lies in its file.
-/

namespace Psplink.Symbols
open Psplink.Lib Psplink.Lib.Flat Psplink.Kernel

/-! ## The code -/

/-- The loop of `find_symbolfile`. -/
def findFrom (mem : Flat) (modname : Bytes) : Nat → Addr → Addr
  | 0, _ => 0
  | fuel + 1, p =>
      if p = 0 then 0
      else if modnameAt mem (nodeAt mem p).data = modname then p
      else findFrom mem modname fuel (nodeAt mem p).pNext

/-- Addresses from there on are absolute. -/
abbrev absolute : Word := 0x08000000

def SymfileEntry.bottom (e : SymfileEntry) (ba : Word) : Word :=
  if absolute ≤ e.addr then e.addr else e.addr + ba

/-- `top` of the entry with index `i`. -/
def topAt (mem : Flat) (data : Addr) (ba : Word) (i : Nat) : Word :=
  let e := entryAt mem data i
  if e.size = 0 ∧ i < ((headerAt mem data).symcount - 1).toNat then (entryAt mem data (i + 1)).addr
  else e.size + e.bottom ba

def spans (mem : Flat) (data : Addr) (ba addr : Word) (i : Nat) : Bool :=
  (entryAt mem data i).bottom ba ≤ addr ∧ addr < topAt mem data ba i

def colon : UInt8 := 58

namespace State

def findSymbolfile (s : State) (modname : Bytes) : Addr :=
  if modnameSize < modname.length then 0 else findFrom s.mem modname maxNodes s.pHead

/-- `symbolFindByAddress`: a pointer to the entry, and the base address. -/
def symbolFindByAddress (m : ModuleManager) (s : State) (addr : Word) : Option (Addr × Word) :=
  let (uid, info) := m.referModuleByAddr addr
  if uid.slt 0 then none
  else
    let pFile := s.findSymbolfile info.name
    if pFile = 0 then none
    else
      let data := (nodeAt s.mem pFile).data
      let ba := info.textAddr
      ((List.range (headerAt s.mem data).symcount.toNat).find? (spans s.mem data ba addr)).map fun i =>
        (entryPtr data i, ba)

/-- `symbolFindByName`, of a string without its NUL: the address, and what is stored through `size`. -/
def symbolFindByName (m : ModuleManager) (s : State) (name : Bytes) : Word × Option Word :=
  let symbuf := name.take 127
  if colon ∈ symbuf then
    let modname := symbuf.takeWhile (· ≠ colon)
    let symname := symbuf.drop (modname.length + 1)
    let (uid, info) := m.referModuleByName modname
    if uid.slt 0 then (0, none)
    else
      let pFile := s.findSymbolfile modname
      if pFile = 0 then (0, none)
      else
        let data := (nodeAt s.mem pFile).data
        let found := (List.range (headerAt s.mem data).symcount.toNat).find? fun i =>
          cstrAt s.mem (entryAt s.mem data i).name = symname
        match found with
        | none => (0, none)
        | some i =>
            let e := entryAt s.mem data i
            (if absolute ≤ e.addr then e.addr else info.textAddr + e.addr, some e.size)
  else (0, none)

end State

/-! ## Tables -/

/-- The entries of a table lie in its block, and each name ends in it. -/
structure Table (mem : Flat) (b : Block) : Prop where
  entries : headerSize + entrySize * (headerAt mem b.data).symcount.toNat ≤ b.size.toNat
  names : ∀ i < (headerAt mem b.data).symcount.toNat, ∃ off last, (entryAt mem b.data i).name = offset b.data off ∧
    off ≤ last ∧ last < b.size.toNat ∧ mem (offset b.data last) = 0

/-- A table that two memories have in common. -/
structure Kept (mem mem' : Flat) (b : Block) : Prop where
  table : Table mem b
  agree : Agree mem' mem b.data (roundUp b.size.toNat)
  small : roundUp b.size.toNat ≤ 2 ^ 32

namespace Kept

variable {mem mem' : Flat} {b : Block} (kept : Kept mem mem' b)

include kept

theorem byte {k : Nat} (inside : k < b.size.toNat) : mem' (offset b.data k) = mem (offset b.data k) :=
  kept.agree _ (in_offset kept.small (Nat.lt_of_lt_of_le inside (le_roundUp _)))

theorem front (x : Addr) (near : dist b.data x < headerSize) : mem' x = mem x := by
  have entries := kept.table.entries
  have round := le_roundUp b.size.toNat
  refine kept.agree x ?_
  unfold In
  omega

theorem header : headerAt mem' b.data = headerAt mem b.data := headerAt_congr kept.front

theorem modname : modnameAt mem' b.data = modnameAt mem b.data := by
  have agree : Agree mem' mem (offset b.data 4) modnameSize := fun x inside => by
    rw [in_offset_iff (by decide)] at inside
    exact kept.front x (Nat.lt_of_lt_of_le inside.2 (by decide))
  rw [modnameAt, bytesAt_congr (by decide) agree, modnameAt]

theorem entry {i : Nat} (less : i < (headerAt mem b.data).symcount.toNat) : entryAt mem' b.data i = entryAt mem b.data i := by
  have entries : 44 + 12 * (headerAt mem b.data).symcount.toNat ≤ b.size.toNat := kept.table.entries
  have round := le_roundUp b.size.toNat
  have small := kept.small
  refine entryAt_congr fun x inside => kept.agree x ?_
  rw [in_entry (by omega)] at inside
  unfold In
  omega

theorem name {i : Nat} (less : i < (headerAt mem b.data).symcount.toNat) :
    cstrAt mem' (entryAt mem b.data i).name = cstrAt mem (entryAt mem b.data i).name := by
  obtain ⟨off, last, name, start, inside, ends⟩ := kept.table.names i less
  rw [name]
  have there : offset (offset b.data off) (last - off) = offset b.data last := by
    rw [offset_offset, Nat.add_sub_cancel' start]
  refine cstrAt_congr (k := last - off) ?_ fun j le => ?_
  · rw [there, kept.byte inside, ends]
  · rw [offset_offset]
    exact kept.byte (by omega)

theorem top {ba : Word} {i : Nat} (less : i < (headerAt mem b.data).symcount.toNat) :
    topAt mem' b.data ba i = topAt mem b.data ba i := by
  unfold topAt
  dsimp only
  rw [kept.header, kept.entry less]
  split
  · next between =>
    have next : i + 1 < (headerAt mem b.data).symcount.toNat := by
      have below := between.2
      rw [BitVec.toNat_sub] at below
      have one : (1 : Word).toNat = 1 := rfl
      omega
    rw [kept.entry next]
  · rfl

theorem table' : Table mem' b := by
  obtain ⟨entries, names⟩ := kept.table
  refine ⟨by rw [kept.header]; exact entries, fun i less => ?_⟩
  rw [kept.header] at less
  obtain ⟨off, last, name, start, inside, ends⟩ := names i less
  exact ⟨off, last, by rw [kept.entry less, name], start, inside, by rw [kept.byte inside, ends]⟩

end Kept

theorem find_congr {α : Type} {p q : α → Bool} {as : List α} (same : ∀ a ∈ as, p a = q a) : as.find? p = as.find? q := by
  induction as with
  | nil => rfl
  | cons a as ih =>
      rw [List.find?_cons, List.find?_cons, same a List.mem_cons_self,
        ih fun b mem => same b (List.mem_cons_of_mem a mem)]

/-- Both memories find the same file, which is in the list, or none. -/
theorem findFrom_cases {mem mem' : Flat} {before before' : Addr} {blocks : List Block}
    (linked : Linked mem before blocks 0) (linked' : Linked mem' before' blocks 0) (nonNull : ∀ b ∈ blocks, b.addr ≠ 0)
    (kept : ∀ b ∈ blocks, Kept mem mem' b) (modname : Bytes) (fuel : Nat) :
    (findFrom mem modname fuel (first blocks 0) = 0 ∧ findFrom mem' modname fuel (first blocks 0) = 0) ∨
      ∃ b ∈ blocks, findFrom mem modname fuel (first blocks 0) = b.addr ∧
        findFrom mem' modname fuel (first blocks 0) = b.addr := by
  induction blocks generalizing before before' fuel with
  | nil =>
      cases fuel with
      | zero => exact .inl ⟨rfl, rfl⟩
      | succ fuel => exact .inl ⟨if_pos rfl, if_pos rfl⟩
  | cons b blocks ih =>
      cases fuel with
      | zero => exact .inl ⟨rfl, rfl⟩
      | succ fuel =>
          have nonNull' : b.addr ≠ 0 := nonNull b List.mem_cons_self
          change (findFrom mem modname (fuel + 1) b.addr = 0 ∧ findFrom mem' modname (fuel + 1) b.addr = 0) ∨
            ∃ c ∈ b :: blocks, findFrom mem modname (fuel + 1) b.addr = c.addr ∧
              findFrom mem' modname (fuel + 1) b.addr = c.addr
          have step {memory : Flat} {pPrev : Addr} (node : nodeAt memory b.addr = b.node (first blocks 0) pPrev) :
              findFrom memory modname (fuel + 1) b.addr =
                if modnameAt memory b.data = modname then b.addr else findFrom memory modname fuel (first blocks 0) := by
            rw [findFrom, if_neg nonNull', node]
            rfl
          have same := (kept b List.mem_cons_self).modname
          rw [step linked.1, step linked'.1]
          by_cases here : modnameAt mem b.data = modname
          · rw [if_pos here, if_pos (same.trans here)]
            exact .inr ⟨b, List.mem_cons_self, rfl, rfl⟩
          · rw [if_neg here, if_neg (same ▸ here)]
            have rest := ih linked.2 linked'.2 (fun c mem => nonNull c (List.mem_cons_of_mem b mem))
              (fun c mem => kept c (List.mem_cons_of_mem b mem)) fuel
            rcases rest with none | ⟨c, mem, found⟩
            · exact .inl none
            · exact .inr ⟨c, List.mem_cons_of_mem b mem, found⟩

theorem Chain.data {mem : Flat} {head : Addr} {blocks : List Block} (chain : Chain mem head blocks) {b : Block}
    (member : b ∈ blocks) : (nodeAt mem b.addr).data = b.data := by
  obtain ⟨front, back, rfl⟩ := List.append_of_mem member
  exact congrArg (·.data) ((linked_append front (b :: back)).mp chain.linked).2.1

/-- The first file of a module in the list. -/
theorem findFrom_first {mem : Flat} {before : Addr} {front : List Block} {b : Block} {back : List Block} {modname : Bytes}
    (linked : Linked mem before (front ++ b :: back) 0) (nonNull : ∀ c ∈ front ++ b :: back, c.addr ≠ 0)
    (others : ∀ c ∈ front, modnameAt mem c.data ≠ modname) (here : modnameAt mem b.data = modname) {fuel : Nat}
    (enough : front.length < fuel) : findFrom mem modname fuel (first (front ++ b :: back) 0) = b.addr := by
  induction front generalizing before fuel with
  | nil =>
      obtain ⟨fuel, rfl⟩ := Nat.exists_eq_succ_of_ne_zero (Nat.ne_of_gt enough)
      have node : nodeAt mem b.addr = b.node (first back 0) before := linked.1
      change findFrom mem modname (fuel + 1) b.addr = b.addr
      rw [findFrom, if_neg (nonNull b (by simp)), node]
      exact if_pos here
  | cons c front ih =>
      obtain ⟨fuel, rfl⟩ := Nat.exists_eq_succ_of_ne_zero (Nat.ne_of_gt (Nat.zero_lt_of_lt enough))
      obtain ⟨node, rest⟩ := linked
      change findFrom mem modname (fuel + 1) c.addr = b.addr
      rw [findFrom, if_neg (nonNull c (by simp)), node]
      refine (if_neg (others c List.mem_cons_self)).trans ?_
      exact ih rest (fun d mem => nonNull d (List.mem_cons_of_mem c mem))
        (fun d mem => others d (List.mem_cons_of_mem c mem)) (Nat.lt_of_succ_lt_succ enough)

/-- Every file of the list is in both memories. -/
structure AllKept (s s' : State) (blocks : List Block) : Prop where
  chain : Chain s.mem s.pHead blocks
  chain' : Chain s'.mem s'.pHead blocks
  kept : ∀ b ∈ blocks, Kept s.mem s'.mem b

namespace AllKept

variable {s s' : State} {blocks : List Block} (all : AllKept s s' blocks)

include all

theorem findSymbolfile (modname : Bytes) :
    (s.findSymbolfile modname = 0 ∧ s'.findSymbolfile modname = 0) ∨
      ∃ b ∈ blocks, s.findSymbolfile modname = b.addr ∧ s'.findSymbolfile modname = b.addr := by
  unfold State.findSymbolfile
  by_cases long : modnameSize < modname.length
  · rw [if_pos long, if_pos long]
    exact .inl ⟨rfl, rfl⟩
  · rw [if_neg long, if_neg long, all.chain.head, all.chain'.head]
    exact findFrom_cases all.chain.linked all.chain'.linked all.chain.nonNull all.kept modname maxNodes

theorem byAddress (m : ModuleManager) (addr : Word) : s'.symbolFindByAddress m addr = s.symbolFindByAddress m addr := by
  unfold State.symbolFindByAddress
  generalize m.referModuleByAddr addr = answer
  obtain ⟨uid, info⟩ := answer
  dsimp only
  rcases all.findSymbolfile info.name with ⟨none, none'⟩ | ⟨b, mem, found, found'⟩
  · rw [none, none']
    simp only [if_true]
  · have kept := all.kept b mem
    have same : ∀ i ∈ List.range (headerAt s.mem b.data).symcount.toNat,
        spans s'.mem b.data info.textAddr addr i = spans s.mem b.data info.textAddr addr i := fun i less => by
      have less := List.mem_range.mp less
      rw [spans, spans, kept.entry less, kept.top less]
    rw [found, found', all.chain.data mem, all.chain'.data mem, kept.header, find_congr same]

theorem byName (m : ModuleManager) (name : Bytes) : s'.symbolFindByName m name = s.symbolFindByName m name := by
  unfold State.symbolFindByName
  dsimp only
  generalize (name.take 127).takeWhile (· ≠ colon) = modname
  generalize (name.take 127).drop (modname.length + 1) = symname
  generalize m.referModuleByName modname = answer
  obtain ⟨uid, info⟩ := answer
  dsimp only
  rcases all.findSymbolfile modname with ⟨none, none'⟩ | ⟨b, mem, found, found'⟩
  · rw [none, none']
    simp only [if_true]
  · have kept := all.kept b mem
    have same : ∀ i ∈ List.range (headerAt s.mem b.data).symcount.toNat,
        decide (cstrAt s'.mem (entryAt s'.mem b.data i).name = symname) =
          decide (cstrAt s.mem (entryAt s.mem b.data i).name = symname) := fun i less => by
      have less := List.mem_range.mp less
      rw [kept.entry less, kept.name less]
    rw [found, found', all.chain.data mem, all.chain'.data mem, kept.header, find_congr same]
    cases here : (List.range (headerAt s.mem b.data).symcount.toNat).find? fun i =>
        cstrAt s.mem (entryAt s.mem b.data i).name = symname with
    | none => rfl
    | some i =>
        dsimp only
        rw [kept.entry (List.mem_range.mp (List.mem_of_find?_eq_some here))]

end AllKept

end Psplink.Symbols
