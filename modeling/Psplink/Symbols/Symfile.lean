import Psplink.Lib.Flat
import Psplink.Lib.CStr

/-!
# Symbol files

psplink/symbols.c over the memory in which it keeps the files. Pointers are addresses of that memory, and
NULL is zero.
-/

namespace Psplink.Symbols
open Psplink.Lib Psplink.Lib.Flat

abbrev Word := BitVec 32

/-! ## Structures -/

structure SymbolFile where
  pNext : Addr
  pPrev : Addr
  data : Addr
  size : Word

instance : Packed SymbolFile :=
  .ofFields (fun f => (f.pNext, f.pPrev, f.data, f.size)) (fun p => ⟨p.1, p.2.1, p.2.2.1, p.2.2.2⟩) fun _ => rfl

/-- After the magic and the name of the module. -/
structure SymfileHeader where
  symcount : Word
  strstart : Word
  strsize : Word

instance : Packed SymfileHeader :=
  .ofFields (fun h => (h.symcount, h.strstart, h.strsize)) (fun p => ⟨p.1, p.2.1, p.2.2⟩) fun _ => rfl

structure SymfileEntry where
  name : Addr
  addr : Word
  size : Word

instance : Packed SymfileEntry :=
  .ofFields (fun e => (e.name, e.addr, e.size)) (fun p => ⟨p.1, p.2.1, p.2.2⟩) fun _ => rfl

abbrev modnameSize : Nat := 28
abbrev headerSize : Nat := 44
abbrev entrySize : Nat := 12
abbrev nodeSize : Nat := 16
abbrev heapSize : Nat := 0x10000

def symfileMagic : Bytes := ascii "SYMS"

def magicAt (mem : Flat) (data : Addr) : Bytes := bytesAt mem data 4

def modnameAt (mem : Flat) (data : Addr) : Bytes := cstr (bytesAt mem (offset data 4) modnameSize)

def headerAt (mem : Flat) (data : Addr) : SymfileHeader := load SymfileHeader mem (offset data (4 + modnameSize))

def entryPtr (data : Addr) (i : Nat) : Addr := offset data (headerSize + entrySize * i)

def entryAt (mem : Flat) (data : Addr) (i : Nat) : SymfileEntry := load SymfileEntry mem (entryPtr data i)

def nodeAt (mem : Flat) (p : Addr) : SymbolFile := load SymbolFile mem p

/-- Assignments to fields of a node. -/
def setNode (mem : Flat) (p : Addr) (set : SymbolFile → SymbolFile) : Flat := save mem p (set (nodeAt mem p))

/-- The loop over the entries, from the one with index `i` on; the count is read each time. -/
def fixup (data pString : Addr) : Nat → Word → Flat → Flat
  | 0, _, mem => mem
  | fuel + 1, i, mem =>
      if i.ult (headerAt mem data).symcount then
        let entry := entryPtr data i.toNat
        fixup data pString fuel (i + 1)
          (save mem entry { load SymfileEntry mem entry with name := pString + (load SymfileEntry mem entry).name })
      else mem

def WellSized (mem : Flat) (data : Addr) (size : Word) : Prop :=
  (headerAt mem data).symcount * BitVec.ofNat 32 entrySize + (headerAt mem data).strsize +
    BitVec.ofNat 32 headerSize = size

instance (mem : Flat) (data : Addr) (size : Word) : Decidable (WellSized mem data size) :=
  inferInstanceAs (Decidable (_ = _))

/-! ## The heap -/

/-- A block of a memory partition. -/
structure Partition where
  uid : Word
  head : Addr
  nonNull : head ≠ 0
  fits : head.toNat + heapSize < 2 ^ 32

structure State where
  mem : Flat
  /-- A negative `g_block_id` is `none`. -/
  blockId : Option Word
  baseaddr : Addr
  curraddr : Addr
  pHead : Addr
  /-- The file descriptors that are open. -/
  fds : List Word

/-- There are fewer nodes than that in a heap. -/
def maxNodes : Nat := heapSize / nodeSize

/-- `while(pFile->pNext)` -/
def lastNode (mem : Flat) : Nat → Addr → Addr
  | 0, p => p
  | fuel + 1, p => if (nodeAt mem p).pNext = 0 then p else lastNode mem fuel (nodeAt mem p).pNext

def totalSize (size : Word) : Word := ((size + 3) &&& ~~~(3 : Word)) + BitVec.ofNat 32 nodeSize

namespace State

/-- Where there is no block yet the kernel is asked for one. -/
def withBlock (s : State) (partition : Option Partition) : Option State :=
  match s.blockId with
  | some _ => some s
  | none => partition.map fun block =>
      { s with blockId := some block.uid, baseaddr := block.head, curraddr := block.head }

/-- The node is linked behind the last one. -/
def link (s : State) (pRet : Addr) : State :=
  if s.pHead = 0 then { s with pHead := pRet }
  else
    let pFile := lastNode s.mem maxNodes s.pHead
    { s with mem := setNode (setNode s.mem pFile ({ · with pNext := pRet })) pRet ({ · with pPrev := pFile }) }

/-- What is cleared, and the fields of the new node. -/
def carve (s : State) (size : Word) : State :=
  let pRet := s.curraddr
  let mem := clear s.mem pRet (totalSize size).toNat
  { s with mem := setNode mem pRet ({ · with size := size, data := offset pRet nodeSize }) }

def accepts (s : State) (size : Word) : Bool :=
  (s.curraddr + size).ult (s.baseaddr + BitVec.ofNat 32 heapSize)

def allocSymbolfile (s : State) (size : Word) (partition : Option Partition) : Addr × State :=
  match s.withBlock partition with
  | none => (0, s)
  | some s =>
      if s.accepts size then
        (s.curraddr, { (s.carve size).link s.curraddr with curraddr := s.curraddr + totalSize size })
      else (0, s)

/-- `free_symbolfile`, of a node. -/
def freeSymbolfile (s : State) (pSym : Addr) : State :=
  let node := nodeAt s.mem pSym
  let s :=
    if node.pPrev = 0 then { s with pHead := node.pNext }
    else { s with mem := setNode s.mem node.pPrev ({ · with pNext := node.pNext }) }
  if (nodeAt s.mem pSym).pNext = 0 then s
  else { s with mem := setNode s.mem (nodeAt s.mem pSym).pNext ({ · with pPrev := (nodeAt s.mem pSym).pPrev }) }

def symbolDeleteAll (s : State) : State := { s with blockId := none, pHead := 0 }

/-! ## Loading -/

/-- What the kernel and the file system answer to one load. -/
structure Answers where
  partition : Option Partition
  stat : Option (BitVec 64)
  fd : Word
  readRet : Word
  readData : Bytes

/-- Where `st_size` is passed on it is cut to 32 bits. -/
def cutSize (size : BitVec 64) : Word := size.setWidth 32

/-- `sceIoRead` stores no more than it is asked for. -/
def readInto (s : State) (data : Addr) (size : Word) (answers : Answers) : State :=
  { s with mem := store s.mem data (answers.readData.take size.toNat) }

def closeFd (s : State) (fd : Word) : State := { s with fds := s.fds.erase fd }

/-- Once the file has been read. -/
def validate (s : State) (pFile : Addr) : Bool × State :=
  let data := (nodeAt s.mem pFile).data
  if magicAt s.mem data ≠ symfileMagic then (false, s.freeSymbolfile pFile)
  else if ¬ WellSized s.mem data (nodeAt s.mem pFile).size then (false, s.freeSymbolfile pFile)
  else (true, { s with mem := fixup data (data + (headerAt s.mem data).strstart) (2 ^ 32) 0 s.mem })

def symbolLoadSymbols (s : State) (answers : Answers) : Bool × State :=
  match answers.stat with
  | none => (false, s)
  | some size =>
      let (pFile, s) := s.allocSymbolfile (cutSize size) answers.partition
      if pFile = 0 then (false, s)
      else if answers.fd.slt 0 then (false, s.freeSymbolfile pFile)
      else
        let s := { s with fds := answers.fd :: s.fds }
        let s := s.readInto (nodeAt s.mem pFile).data (cutSize size) answers
        if answers.readRet.signExtend 64 ≠ size then (false, (s.freeSymbolfile pFile).closeFd answers.fd)
        else (s.closeFd answers.fd).validate pFile

end State

end Psplink.Symbols
