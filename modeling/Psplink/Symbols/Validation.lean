import Psplink.Symbols.Requests

/-!
# Validation of symbol files

`symbolLoadSymbols` compares one sum of sizes with the size of the file and then adds an address to the name
of every entry. When what it accepts is a table whose entries and names lie in the file.
-/

namespace Psplink.Symbols
open Psplink.Lib Psplink.Lib.Flat

/-! ## Relocation -/

def SymfileEntry.moved (e : SymfileEntry) (pString : Addr) : SymfileEntry := { e with name := pString + e.name }

theorem in_entry {data x : Addr} {j : Nat} (fits : 44 + 12 * (j + 1) ≤ 2 ^ 32) :
    In (entryPtr data j) entrySize x ↔ 44 + 12 * j ≤ dist data x ∧ dist data x < 44 + 12 * (j + 1) := by
  have bounds := in_offset_iff (a := data) (x := x) (k := 44 + 12 * j) (m := 12) (by omega)
  rwa [Nat.add_assoc, ← Nat.mul_succ] at bounds

theorem headerAt_congr {mem mem' : Flat} {data : Addr} (same : ∀ x, dist data x < 44 → mem x = mem' x) :
    headerAt mem data = headerAt mem' data := by
  refine load_congr (by decide) fun x inside => same x ?_
  exact ((in_offset_iff (by decide)).mp inside).2

theorem entryAt_congr {mem mem' : Flat} {data : Addr} {j : Nat}
    (agree : Agree mem mem' (entryPtr data j) entrySize) : entryAt mem data j = entryAt mem' data j :=
  load_congr (by decide) agree

/-- What the loop has done from an entry on. -/
structure Fixed (mem mem' : Flat) (data pString : Addr) (i c : Nat) : Prop where
  outside : ∀ x, ¬ (44 + 12 * i ≤ dist data x ∧ dist data x < 44 + 12 * c) → mem' x = mem x
  entries : ∀ j, i ≤ j → j < c →
    bytesAt mem' (entryPtr data j) entrySize = encode ((entryAt mem data j).moved pString)

theorem fixup_fixed {data pString : Addr} {c : Nat} (fits : 44 + 12 * c ≤ 2 ^ 32) {fuel i : Nat}
    (le : i ≤ c) (fuelled : c - i < fuel) {mem : Flat} (count : (headerAt mem data).symcount.toNat = c) :
    Fixed mem (fixup data pString fuel (BitVec.ofNat 32 i) mem) data pString i c := by
  induction fuel generalizing i mem with
  | zero => exact absurd fuelled (Nat.not_lt_zero _)
  | succ fuel ih =>
      have index : (BitVec.ofNat 32 i).toNat = i := by
        rw [BitVec.toNat_ofNat]
        omega
      rw [fixup, BitVec.ult, index, count]
      by_cases more : i < c
      swap
      · rw [if_neg (by simpa using more)]
        exact ⟨fun _ _ => rfl, fun j start stop => absurd (Nat.lt_of_le_of_lt start stop) more⟩
      rw [if_pos (by simpa using more)]
      have inEntry {x : Addr} (j : Nat) (less : j < c) := @in_entry data x j (by omega)
      let mem₁ : Flat := save mem (entryPtr data i) ((entryAt mem data i).moved pString)
      have kept (x : Addr) (out : ¬ In (entryPtr data i) entrySize x) : mem₁ x = mem x := save_outside out
      have header : headerAt mem₁ data = headerAt mem data := headerAt_congr fun x near => kept x (by
        rw [inEntry i more]
        omega)
      have next : BitVec.ofNat 32 i + 1 = BitVec.ofNat 32 (i + 1) := by rw [BitVec.ofNat_add]; rfl
      have counted : (headerAt mem₁ data).symcount.toNat = c := by rw [header, count]
      have fixed := ih more (by omega) counted
      rw [← next] at fixed
      change Fixed mem (fixup data pString fuel (BitVec.ofNat 32 i + 1) mem₁) data pString i c
      refine ⟨fun x out => ?_, fun j start stop => ?_⟩
      · rw [fixed.outside x (by omega), kept x]
        rw [inEntry i more]
        omega
      · rcases Nat.eq_or_lt_of_le start with rfl | later
        · have written : bytesAt mem₁ (entryPtr data i) entrySize = encode ((entryAt mem data i).moved pString) :=
            bytesAt_save (by decide) mem (entryPtr data i) _
          have kept' : Agree (fixup data pString fuel (BitVec.ofNat 32 i + 1) mem₁) mem₁ (entryPtr data i) entrySize :=
            fun x inside => fixed.outside x (by
              rw [inEntry i more] at inside
              omega)
          rw [bytesAt_congr (by decide) kept', written]
        · have same : entryAt mem₁ data j = entryAt mem data j := entryAt_congr fun x inside => kept x (by
            rw [inEntry j stop] at inside
            rw [inEntry i more]
            omega)
          rw [fixed.entries j later stop, same]

/-! ## Files -/

/-- A file that is read in a state whose heap has a block. -/
structure Reading where
  s₀ : State
  file : Bytes

namespace Reading

variable (r : Reading)

def data : Addr := offset r.s₀.curraddr nodeSize

/-- What stands at the data address when the file has been read: the file, zeros up to four bytes, and what was
there before. -/
def image : Flat := Flat.store (clear r.s₀.mem r.data (roundUp r.file.length)) r.data r.file

def header : SymfileHeader := headerAt r.image r.data

def symcount : Nat := r.header.symcount.toNat
def strstart : Nat := r.header.strstart.toNat
def strsize : Nat := r.header.strsize.toNat

/-- The offset in the name field of an entry of the file. -/
def nameOffset (i : Nat) : Nat := (entryAt r.image r.data i).name.toNat

/-- A byte at an offset once the names are addresses. -/
def relocated (x : Nat) : UInt8 :=
  if 44 ≤ x ∧ (x - 44) / 12 < r.symcount then
    (encode ((entryAt r.image r.data ((x - 44) / 12)).moved (r.data + r.header.strstart))).getD ((x - 44) % 12) 0
  else r.image (offset r.data x)

/-- The table that is left in memory: its entries lie in the file, and each name is a string in the string area. -/
structure Valid (mem : Flat) : Prop where
  entries : 44 + 12 * r.symcount ≤ r.file.length
  names : ∀ i < r.symcount, ∃ off last, (entryAt mem r.data i).name = offset r.data (r.strstart + off) ∧
    off ≤ last ∧ last < r.strsize ∧ r.strstart + last < r.file.length ∧ mem (offset r.data (r.strstart + last)) = 0

/-- What is accepted, by its magic and by a sum of 32 bits. -/
def Accepted : Prop :=
  magicAt r.image r.data = symfileMagic ∧ WellSized r.image r.data (BitVec.ofNat 32 r.file.length)

/-- The sum does not wrap around, and each name begins in the string area and ends in it. -/
structure SoundFile : Prop where
  sum : 44 + 12 * r.symcount + r.strsize = r.file.length
  names : ∀ i < r.symcount, ∃ last, r.nameOffset i ≤ last ∧ last < r.strsize ∧ r.strstart + last < r.file.length ∧
    r.relocated (r.strstart + last) = 0

end Reading

/-- A file that fits the heap, opened and read. -/
structure FileLoad extends Reading where
  s : State
  blocks : List Block
  heap : Heap s blocks
  partition : Option Partition
  given : s.withBlock partition = some s₀
  fits : nodeSize + roundUp file.length ≤ s₀.room
  fd : Word
  opened : fd.slt 0 = false

namespace FileLoad
open Reading

variable (l : FileLoad)

def answers : State.Answers where
  partition := l.partition
  stat := some (BitVec.ofNat 64 l.file.length)
  fd := l.fd
  readRet := BitVec.ofNat 32 l.file.length
  readData := l.file

def result : Bool × State := l.s.symbolLoadSymbols l.answers

def new : Block := ⟨l.s₀.curraddr, BitVec.ofNat 32 l.file.length⟩

/-- The state after the block has been handed out. -/
def allocated : State := (l.s.allocSymbolfile (BitVec.ofNat 32 l.file.length) l.partition).2

/-- The state when the file has been read. -/
def read : State := filled l.allocated l.new l.answers

theorem length_le : l.file.length ≤ 65536 := by
  obtain ⟨heap₀, owned, -, -⟩ := withBlock_some l.heap l.given
  obtain ⟨-, -, start, -⟩ := heap₀.placed owned
  have fits := l.fits
  have round := le_roundUp l.file.length
  have heap : heapSize = 65536 := rfl
  unfold State.room at fits
  omega

theorem size_toNat : l.new.size.toNat = l.file.length := by
  have small := l.length_le
  rw [new, BitVec.toNat_ofNat]
  omega

theorem accepted : l.s₀.accepts l.new.size = true := by
  obtain ⟨heap₀, owned, -, -⟩ := withBlock_some l.heap l.given
  refine (accepts_iff (heap₀.placed owned) _).mpr (.inl ?_)
  rw [l.size_toNat]
  have round := le_roundUp l.file.length
  have fits := l.fits
  have node : nodeSize = 16 := rfl
  omega

theorem fits' : Fits l.s₀ l.new.size := by
  rw [Fits, l.size_toNat]
  exact l.fits

theorem alloc_eq : l.s.allocSymbolfile l.new.size l.partition = (l.new.addr, l.allocated) ∧
    Allocated l.s l.allocated l.blocks l.new := by
  rcases alloc_cases l.heap l.new.size l.partition with
    ⟨given, -⟩ | ⟨s₀, given, -, -, -, -, ⟨rejected, -⟩ | ⟨-, p, allocates⟩⟩
  · rw [l.given] at given
    cases given
  · obtain rfl := Option.some.inj (l.given.symm.trans given)
    rw [l.accepted] at rejected
    cases rejected
  · obtain rfl := Option.some.inj (l.given.symm.trans given)
    exact ⟨Prod.ext p rfl, allocates l.fits'⟩

theorem read_allocated : Allocated l.s l.read l.blocks l.new := filled_allocated l.alloc_eq.2 l.answers

theorem signExtend_ofNat {n : Nat} (small : n ≤ 65536) : (BitVec.ofNat 32 n).signExtend 64 = BitVec.ofNat 64 n := by
  have positive : (BitVec.ofNat 32 n).msb = false := by
    rw [BitVec.msb_eq_decide, BitVec.toNat_ofNat]
    exact decide_eq_false (by omega)
  rw [BitVec.signExtend_eq_setWidth_of_msb_false positive]
  apply BitVec.eq_of_toNat_eq
  rw [BitVec.toNat_setWidth, BitVec.toNat_ofNat, BitVec.toNat_ofNat]
  omega

theorem result_eq : l.result = l.read.validate l.new.addr := by
  have cut : l.new.size = State.cutSize (BitVec.ofNat 64 l.file.length) := by
    have small := l.length_le
    apply BitVec.eq_of_toNat_eq
    rw [l.size_toNat, State.cutSize, BitVec.toNat_setWidth, BitVec.toNat_ofNat]
    omega
  have stat : l.answers.stat = some (BitVec.ofNat 64 l.file.length) := rfl
  have loads := load_eq stat (cut ▸ l.alloc_eq.1) cut l.alloc_eq.2
  have noError : ¬ l.answers.fd.slt 0 = true := by
    rw [Bool.not_eq_true]
    exact l.opened
  have whole : l.answers.readRet.signExtend 64 = BitVec.ofNat 64 l.file.length := signExtend_ofNat l.length_le
  rw [result, loads, if_neg noError, if_neg (not_not.mpr whole)]
  rfl

/-- Behind the block there is what was there before. -/
theorem behind {x : Addr} (near : dist l.data x < 44) (outside : ¬ In l.data (roundUp l.file.length) x) :
    l.allocated.mem x = l.s₀.mem x := by
  obtain ⟨heap₀, owned, mem, -⟩ := withBlock_some l.heap l.given
  obtain ⟨-, space, start, stop⟩ := heap₀.placed owned
  have fits := l.fits
  have heapIs : heapSize = 65536 := rfl
  have nodeIs : nodeSize = 16 := rfl
  unfold State.room at fits
  have data : l.data.toNat = l.s₀.curraddr.toNat + nodeSize := toNat_offset (by omega)
  have there := toNat_eq_dist l.data x
  have far : ¬ dist l.data x < roundUp l.file.length := outside
  have size : roundUp l.new.size.toNat = roundUp l.file.length := by rw [l.size_toNat]
  have headers (b : Block) (memB : b ∈ l.blocks) : Apart b.addr nodeSize x 1 := by
    refine apart_one fun here => ?_
    have above := heap₀.above b memB
    have below := heap₀.below b memB
    unfold Block.lo at above
    unfold Block.hi at below
    rw [in_iff (by omega)] at here
    omega
  have new : Apart l.new.addr (nodeSize + roundUp l.new.size.toNat) x 1 := by
    refine apart_one fun here => ?_
    change In l.s₀.curraddr _ x at here
    rw [size, in_iff (by omega)] at here
    omega
  rw [l.alloc_eq.2.frame x 1 headers new x (in_self x), mem]

/-- The image is what validation sees. -/
theorem read_mem {x : Addr} (near : dist l.data x < 44 ∨ In l.data (roundUp l.file.length) x) : l.read.mem x = l.image x := by
  have whole : l.file.take l.new.size.toNat = l.file := by rw [l.size_toNat, List.take_length]
  have stored : l.read.mem x = Flat.store l.allocated.mem l.data l.file x := by
    change Flat.store l.allocated.mem l.new.data (l.file.take l.new.size.toNat) x = _
    rw [whole]
    rfl
  have before : l.allocated.mem x = clear l.s₀.mem l.data (roundUp l.file.length) x := by
    by_cases inside : In l.data (roundUp l.file.length) x
    · rw [clear_inside inside]
      refine alloc_cleared l.heap l.given l.accepted l.fits' ?_
      rw [l.size_toNat]
      exact inside
    · rw [clear_outside inside, l.behind (near.resolve_right inside) inside]
  rw [stored, image, Flat.store, Flat.store, before]

theorem header_read : headerAt l.read.mem l.new.data = l.header := headerAt_congr fun _ near => l.read_mem (.inl near)

theorem validated_iff : Validated l.read l.new ↔ l.Accepted := by
  have magic : magicAt l.read.mem l.new.data = magicAt l.image l.data :=
    bytesAt_congr (by decide) fun x inside => l.read_mem (.inl (Nat.lt_trans inside (by decide)))
  rw [Validated, Accepted, magic, WellSized, l.header_read]
  rfl

theorem result_accepted (accepted : l.Accepted) : l.result = (true, relocate l.read l.new) :=
  l.result_eq.trans (validate_valid l.read_allocated (l.validated_iff.mpr accepted))

theorem result_rejected (rejected : ¬ l.Accepted) : l.result.1 = false := by
  rw [l.result_eq, validate_invalid l.read_allocated (mt l.validated_iff.mp rejected)]

theorem sum_iff (accepted : l.Accepted) :
    44 + 12 * l.symcount + l.strsize = l.file.length ↔ 44 + 12 * l.symcount ≤ l.file.length := by
  have sized : (l.header.symcount * BitVec.ofNat 32 12 + l.header.strsize + BitVec.ofNat 32 44).toNat =
      (BitVec.ofNat 32 l.file.length).toNat := congrArg BitVec.toNat accepted.2
  have small := l.length_le
  have large := l.header.strsize.isLt
  rw [BitVec.toNat_add, BitVec.toNat_add, BitVec.toNat_mul, BitVec.toNat_ofNat, BitVec.toNat_ofNat,
    BitVec.toNat_ofNat] at sized
  unfold symcount strsize
  omega

/-! ### An accepted file whose entries lie in it -/

section Inside

variable {l} (inside : 44 + 12 * l.symcount ≤ l.file.length)

include inside

theorem fixed : Fixed l.read.mem (relocate l.read l.new).mem l.data (l.data + l.header.strstart) 0 l.symcount := by
  have small := l.length_le
  have count : (headerAt l.read.mem l.data).symcount.toNat = l.symcount := congrArg (·.symcount.toNat) l.header_read
  have fixed := @fixup_fixed l.data (l.data + l.header.strstart) l.symcount (by omega) (2 ^ 32) 0 (Nat.zero_le _)
    (by omega) l.read.mem count
  rw [relocate, l.header_read]
  exact fixed

theorem entry_read {i : Nat} (less : i < l.symcount) : entryAt l.read.mem l.data i = entryAt l.image l.data i := by
  have small := l.length_le
  have round := le_roundUp l.file.length
  refine entryAt_congr fun x here => l.read_mem (.inr ?_)
  rw [in_entry (by omega)] at here
  exact Nat.lt_of_lt_of_le here.2 (by omega)

theorem entry_relocated {i : Nat} (less : i < l.symcount) :
    entryAt (relocate l.read l.new).mem l.data i = (entryAt l.image l.data i).moved (l.data + l.header.strstart) := by
  have bytes := (fixed inside).entries i (Nat.zero_le i) less
  rw [entry_read inside less] at bytes
  rw [entryAt, load]
  exact (congrArg decode bytes).trans (Packed.decode_encode_self _)

theorem byte_relocated {x : Nat} (less : x < l.file.length) :
    (relocate l.read l.new).mem (offset l.data x) = l.relocated x := by
  have small := l.length_le
  have round := le_roundUp l.file.length
  have at_ : dist l.data (offset l.data x) = x := dist_offset (by omega)
  unfold relocated
  split
  · next entry =>
    have bytes := (fixed inside).entries ((x - 44) / 12) (Nat.zero_le _) entry.2
    rw [entry_read inside entry.2] at bytes
    have column : (x - 44) % 12 < entrySize := Nat.mod_lt _ (by decide)
    have there : offset (entryPtr l.data ((x - 44) / 12)) ((x - 44) % 12) = offset l.data x := by
      rw [entryPtr, offset_offset]
      congr 1
      simp only [headerSize, entrySize]
      omega
    rw [← bytes, getD_bytesAt column, there]
  · next other =>
    rw [(fixed inside).outside _ (by rw [at_]; omega), l.read_mem (.inr (by rw [In, at_]; omega))]

theorem name_iff {i : Nat} (less : i < l.symcount) {off : Nat} (small : off < 2 ^ 32) :
    (entryAt (relocate l.read l.new).mem l.data i).name = offset l.data (l.strstart + off) ↔ off = l.nameOffset i := by
  have strstart : l.header.strstart = BitVec.ofNat 32 l.strstart := by
    rw [strstart, BitVec.ofNat_toNat, BitVec.setWidth_eq]
  rw [entry_relocated inside less]
  change l.data + l.header.strstart + (entryAt l.image l.data i).name = _ ↔ _
  rw [offset, BitVec.ofNat_add, ← strstart, ← BitVec.add_assoc, BitVec.add_right_inj]
  constructor
  · intro same
    have number := congrArg BitVec.toNat same
    rw [BitVec.toNat_ofNat, Nat.mod_eq_of_lt small] at number
    exact number.symm
  · rintro rfl
    rw [nameOffset, BitVec.ofNat_toNat, BitVec.setWidth_eq]

end Inside

theorem sound_of_valid (accepted : l.Accepted) (valid : l.Valid (relocate l.read l.new).mem) : l.SoundFile := by
  have inside := valid.entries
  have area := l.header.strsize.isLt
  refine ⟨(l.sum_iff accepted).mpr inside, fun i less => ?_⟩
  obtain ⟨off, last, name, start, stop, within, ends⟩ := valid.names i less
  have same := (name_iff inside less (Nat.lt_of_le_of_lt start (stop.trans area))).mp name
  rw [byte_relocated inside within] at ends
  exact ⟨last, same ▸ start, stop, within, ends⟩

theorem valid_of_sound (accepted : l.Accepted) (sound : l.SoundFile) : l.Valid (relocate l.read l.new).mem := by
  have inside := (l.sum_iff accepted).mp sound.sum
  refine ⟨inside, fun i less => ?_⟩
  obtain ⟨last, start, stop, within, ends⟩ := sound.names i less
  rw [← byte_relocated inside within] at ends
  exact ⟨l.nameOffset i, last, (name_iff inside less (BitVec.isLt _)).mpr rfl, start, stop, within, ends⟩

/-- A file is accepted only with a table whose entries and names lie in it, if and only if the sum of an accepted
file does not wrap around and its names stay in the string area. -/
theorem load_valid_iff : (l.result.1 = true → l.Valid l.result.2.mem) ↔ (l.Accepted → l.SoundFile) := by
  by_cases accepted : l.Accepted
  · rw [l.result_accepted accepted]
    simp only [true_imp_iff, accepted]
    exact ⟨l.sound_of_valid accepted, l.valid_of_sound accepted⟩
  · refine iff_of_true (fun loads => ?_) fun accepted' => absurd accepted' accepted
    rw [l.result_rejected accepted] at loads
    cases loads

/-- One entry of a module `m`, with this offset for its name and this address, and the string `foo`. -/
def oneEntry (name : Addr) (addr : Word) : Bytes :=
  symfileMagic ++ 109 :: List.replicate 27 0 ++ encode (⟨1, 56, 4⟩ : SymfileHeader) ++
    encode (⟨name, addr, 4⟩ : SymfileEntry) ++ [102, 111, 111, 0]

/-- The name is to begin 4096 bytes behind a string area of four bytes. -/
def danglingFile : Bytes := oneEntry 0x1000 0

def startBlock : State := { emptyStart with blockId := some 7, baseaddr := 0x88100000, curraddr := 0x88100000 }

/-- The first file that is loaded. -/
def firstLoad (file : Bytes) (fits : nodeSize + roundUp file.length ≤ startBlock.room) : FileLoad where
  s := emptyStart
  blocks := []
  heap := heap_start _
  partition := some kernelBlock
  s₀ := startBlock
  given := rfl
  file := file
  fits := fits
  fd := 5
  opened := rfl

theorem dangling_fits : nodeSize + roundUp danglingFile.length ≤ startBlock.room := by decide

def danglingLoad : FileLoad := firstLoad danglingFile dangling_fits

theorem dangling_accepted : danglingLoad.Accepted := by
  refine ⟨?_, ?_⟩
  · decide
  · decide

theorem dangling_loads : ¬ (danglingLoad.result.1 = true → danglingLoad.Valid danglingLoad.result.2.mem) := by
  intro valid
  rw [danglingLoad.result_accepted dangling_accepted] at valid
  have table := valid rfl
  obtain ⟨off, last, name, start, stop, -⟩ := table.names 0 (by decide)
  have strsize : danglingLoad.strsize = 4 := by decide
  have offset : danglingLoad.nameOffset 0 = 0x1000 := by decide
  have same := (name_iff table.entries (by decide) (by omega)).mp name
  omega

end FileLoad

end Psplink.Symbols
