import Psplink.Lib.Packed

/-!
# The buffered reader

`fdgetc` and `fdgets` of psplink/util.c over the results that `sceIoRead` gives. A `char` is signed.
-/

namespace Psplink.Util
open Psplink.Lib

abbrev maxBuffer : Nat := 4096
def newline : UInt8 := 10

/-- What the calls of `sceIoRead` return until the end of a file of this content. -/
structure Reads (content : Bytes) where
  chunks : List Bytes
  whole : chunks.flatten = content
  sizes : ∀ chunk ∈ chunks, chunk ≠ [] ∧ chunk.length ≤ maxBuffer

/-- `fd` holds the results of the calls that are still to come. -/
structure PspFile where
  fd : List Bytes
  readBuf : Nat → UInt8
  readSize : Nat
  readPos : Nat

def sceIoRead (fd : List Bytes) : Bytes × List Bytes :=
  match fd with
  | [] => ([], [])
  | chunk :: rest => (chunk, rest)

def openfile (fd : List Bytes) : PspFile := ⟨fd, fun _ => 0, 0, 0⟩

def charInt (b : UInt8) : Int := b.toBitVec.toInt

namespace PspFile

def refill (f : PspFile) : PspFile :=
  { fd := (sceIoRead f.fd).2
    readBuf := fun i => (sceIoRead f.fd).1.getD i (f.readBuf i)
    readSize := (sceIoRead f.fd).1.length
    readPos := 0 }

def fdgetc (f : PspFile) : Int × PspFile :=
  let f := if f.readSize = 0 then f.refill else f
  if f.readPos < f.readSize then (charInt (f.readBuf f.readPos), { f with readPos := f.readPos + 1 })
  else (-1, f)

/-- The loop of `fdgets` with room for so many characters, up to what it has stored. -/
def fdgetsLoop : Nat → PspFile → Bytes × PspFile
  | 0, f => ([], f)
  | room + 1, f =>
      let (ch, f) := f.fdgetc
      if ch = -1 then ([], f)
      else if ch = newline.toNat then ([.ofInt ch], f)
      else
        let (rest, f) := fdgetsLoop room f
        (.ofInt ch :: rest, f)

def fdgets (max : Nat) (f : PspFile) : Bytes × PspFile := fdgetsLoop (max - 1) f

/-! ## Successive calls -/

def fdgetcs : Nat → PspFile → List Int
  | 0, _ => []
  | n + 1, f => f.fdgetc.1 :: fdgetcs n f.fdgetc.2

def fdgetss (max : Nat → Nat) : Nat → PspFile → List Bytes
  | 0, _ => []
  | n + 1, f => (f.fdgets (max 0)).1 :: fdgetss (fun i => max (i + 1)) n (f.fdgets (max 0)).2

end PspFile

def GetcExact (content : Bytes) (f : PspFile) : Prop :=
  ∀ n, f.fdgetcs n =
    (content.map fun b => (b.toNat : Int)).take n ++ List.replicate (n - content.length) (-1)

def GetsExact (content : Bytes) (f : PspFile) : Prop :=
  ∀ max : Nat → Nat, (∀ i, 2 ≤ max i) → ∃ calls, ∀ n, calls ≤ n → (f.fdgetss max n).flatten = content

/-! ## What is served -/

/-- The characters that are returned before the end of the file is. -/
def Serves (f : PspFile) (rest : Bytes) : Prop :=
  if f.readSize = 0 then f.readPos = 0 ∧ (∀ chunk ∈ f.fd, chunk ≠ []) ∧ f.fd.headD [] = rest
  else f.readPos + rest.length = f.readSize ∧ ∀ i (h : i < rest.length), f.readBuf (f.readPos + i) = rest[i]

theorem charInt_eq (b : UInt8) : charInt b = if b.toNat < 128 then (b.toNat : Int) else b.toNat - 256 := by
  rw [charInt, BitVec.toInt_eq_toNat_cond]
  change (if 2 * b.toNat < 2 ^ 8 then (b.toNat : Int) else (b.toNat : Int) - (2 ^ 8 : Nat)) = _
  split <;> split <;> omega

theorem toNat_lt_256 (b : UInt8) : b.toNat < 256 := b.toNat_lt

theorem charInt_ofInt (b : UInt8) : UInt8.ofInt (charInt b) = b := by
  have bound := toNat_lt_256 b
  rw [← UInt8.toNat_inj, charInt_eq, UInt8.ofInt, UInt8.toNat_ofNat']
  split <;> omega

theorem charInt_eq_neg_one (b : UInt8) : charInt b = -1 ↔ b = 255 := by
  have bound := toNat_lt_256 b
  rw [← UInt8.toNat_inj, charInt_eq]
  change _ ↔ b.toNat = 255
  split <;> omega

theorem charInt_eq_newline (b : UInt8) : charInt b = (newline.toNat : Int) ↔ b = newline := by
  have bound := toNat_lt_256 b
  rw [← UInt8.toNat_inj, charInt_eq]
  change _ = (10 : Int) ↔ b.toNat = 10
  split <;> omega

theorem charInt_eq_toNat (b : UInt8) : charInt b = (b.toNat : Int) ↔ b < 128 := by
  rw [charInt_eq, UInt8.lt_iff_toNat_lt]
  change _ ↔ b.toNat < 128
  split <;> omega

namespace Serves

variable {f : PspFile} {rest : Bytes} {b : UInt8}

theorem opened {fd : List Bytes} (sizes : ∀ chunk ∈ fd, chunk ≠ []) : Serves (openfile fd) (fd.headD []) := by
  simp only [Serves, openfile, ↓reduceIte]
  exact ⟨trivial, sizes, trivial⟩

/-- After the refill, if there is one, the buffer has what is left. -/
theorem filled (serves : Serves f rest) :
    let f' := if f.readSize = 0 then f.refill else f
    f'.readPos + rest.length = f'.readSize ∧
      (∀ i (h : i < rest.length), f'.readBuf (f'.readPos + i) = rest[i]) ∧
      (f'.readSize = 0 → f'.readPos = 0 ∧ f'.fd = []) := by
  rw [Serves] at serves
  split at serves
  · rename_i empty
    obtain ⟨pos, sizes, head⟩ := serves
    simp only [empty, ↓reduceIte, PspFile.refill]
    cases fd : f.fd with
    | nil =>
        rw [fd] at head
        subst head
        simp [sceIoRead]
    | cons chunk chunks =>
        rw [fd] at head sizes
        subst head
        refine ⟨Nat.zero_add _, ?_, ?_⟩
        · intro i bound
          rw [List.headD_cons] at bound
          simp [sceIoRead, bound]
        · intro none
          exact absurd (List.length_eq_zero_iff.mp none) (sizes chunk List.mem_cons_self)
  · rename_i some
    simp only [some, ↓reduceIte, false_implies, and_true]
    exact serves

theorem fdgetc_cons (serves : Serves f (b :: rest)) :
    f.fdgetc.1 = charInt b ∧ Serves f.fdgetc.2 rest := by
  obtain ⟨size, buf, -⟩ := serves.filled
  simp only [PspFile.fdgetc]
  generalize (if f.readSize = 0 then f.refill else f) = f' at size buf
  rw [List.length_cons] at size
  rw [if_pos (by omega)]
  have here := buf 0 (Nat.zero_lt_succ _)
  refine ⟨congrArg charInt here, ?_⟩
  rw [Serves, if_neg (by dsimp only; omega)]
  refine ⟨by dsimp only; omega, ?_⟩
  intro i bound
  have next := buf (i + 1) (Nat.succ_lt_succ bound)
  rw [← Nat.add_assoc, Nat.add_right_comm] at next
  exact next

theorem fdgetc_nil (serves : Serves f []) : f.fdgetc.1 = -1 ∧ Serves f.fdgetc.2 [] := by
  obtain ⟨size, -, empty⟩ := serves.filled
  simp only [PspFile.fdgetc]
  generalize (if f.readSize = 0 then f.refill else f) = f' at size empty
  rw [List.length_nil] at size
  rw [if_neg (by omega)]
  refine ⟨rfl, ?_⟩
  rw [Serves]
  split
  · rename_i none
    obtain ⟨pos, fd⟩ := empty none
    simp [pos, fd]
  · exact ⟨size, nofun⟩

theorem fdgetcs (serves : Serves f rest) (n : Nat) :
    f.fdgetcs n = (rest.map charInt).take n ++ List.replicate (n - rest.length) (-1) := by
  induction n generalizing f rest with
  | zero => simp [PspFile.fdgetcs]
  | succ n ih =>
      rw [PspFile.fdgetcs]
      cases rest with
      | nil =>
          obtain ⟨ch, after⟩ := serves.fdgetc_nil
          rw [ch, ih after]
          simp [List.replicate_succ]
      | cons b rest =>
          obtain ⟨ch, after⟩ := serves.fdgetc_cons
          rw [ch, ih after]
          simp

end Serves

/-! ## Lines -/

/-- A line with room for so many characters and what is left after it; a byte of 255 reads as the end. -/
def lineOf : Nat → Bytes → Bytes × Bytes
  | 0, rest => ([], rest)
  | _ + 1, [] => ([], [])
  | room + 1, b :: rest =>
      if b = 255 then ([], rest)
      else if b = newline then ([b], rest)
      else (b :: (lineOf room rest).1, (lineOf room rest).2)

theorem lineOf_length_le (room : Nat) (rest : Bytes) : (lineOf room rest).2.length ≤ rest.length := by
  fun_induction lineOf room rest with
  | case5 room b rest _ _ ih => exact Nat.le_succ_of_le ih
  | _ => simp

theorem lineOf_length_lt (room : Nat) (b : UInt8) (rest : Bytes) :
    (lineOf (room + 1) (b :: rest)).2.length < (b :: rest).length := by
  simp only [lineOf, List.length_cons]
  have tail := lineOf_length_le room rest
  split
  · exact Nat.lt_succ_self _
  · split
    · exact Nat.lt_succ_self _
    · exact Nat.lt_succ_of_le tail

/-- What a line leaves out are the bytes of 255. -/
theorem lineOf_filter (room : Nat) (rest : Bytes) :
    (lineOf room rest).1 ++ (lineOf room rest).2.filter (· ≠ 255) = rest.filter (· ≠ 255) := by
  fun_induction lineOf room rest with
  | case5 room b rest keep _ ih => simp only [List.cons_append, ih, keep, ne_eq, not_false_eq_true,
      decide_true, List.filter_cons_of_pos]
  | case4 room rest keep => simp [keep]
  | _ => simp

namespace Serves

variable {f : PspFile} {rest : Bytes}

theorem fdgetsLoop (serves : Serves f rest) (room : Nat) :
    (f.fdgetsLoop room).1 = (lineOf room rest).1 ∧ Serves (f.fdgetsLoop room).2 (lineOf room rest).2 := by
  induction room generalizing f rest with
  | zero => exact ⟨rfl, serves⟩
  | succ room ih =>
      cases rest with
      | nil =>
          obtain ⟨ch, after⟩ := serves.fdgetc_nil
          simp only [PspFile.fdgetsLoop, lineOf, ch, ↓reduceIte]
          exact ⟨trivial, after⟩
      | cons b rest =>
          obtain ⟨ch, after⟩ := serves.fdgetc_cons
          obtain ⟨line, left⟩ := ih after
          simp only [PspFile.fdgetsLoop, lineOf, ch, charInt_eq_neg_one, charInt_eq_newline, charInt_ofInt]
          split
          · exact ⟨rfl, after⟩
          · split
            · exact ⟨rfl, after⟩
            · exact ⟨congrArg (b :: ·) line, left⟩

/-- Each call consumes a byte at least, so as many calls as there are bytes give them all. -/
theorem fdgetss (serves : Serves f rest) {max : Nat → Nat} (room : ∀ i, 2 ≤ max i) {n : Nat}
    (calls : rest.length ≤ n) : (f.fdgetss max n).flatten = rest.filter (· ≠ 255) := by
  induction n generalizing f rest max with
  | zero =>
      rw [List.length_eq_zero_iff.mp (Nat.le_zero.mp calls)]
      rfl
  | succ n ih =>
      obtain ⟨line, left⟩ := serves.fdgetsLoop (max 0 - 1)
      obtain ⟨k, size⟩ : ∃ k, max 0 - 1 = k + 1 := ⟨max 0 - 2, by have := room 0; omega⟩
      have fewer : (lineOf (max 0 - 1) rest).2.length ≤ n := by
        rw [size]
        cases rest with
        | nil => exact Nat.zero_le _
        | cons b rest => exact Nat.le_of_lt_succ (Nat.lt_of_lt_of_le (lineOf_length_lt k b rest) calls)
      rw [PspFile.fdgetss, List.flatten_cons, PspFile.fdgets, ih left (fun i => room (i + 1)) fewer, line,
        lineOf_filter]

theorem getcExact_iff (serves : Serves f rest) {content : Bytes} (start : rest <+: content) :
    GetcExact content f ↔ rest = content ∧ ∀ b ∈ content, b < 128 := by
  constructor
  · intro exact
    have same := exact content.length
    rw [serves.fdgetcs, Nat.sub_self, List.replicate_zero, List.append_nil,
      List.take_of_length_le (by simpa using start.length_le), List.take_of_length_le (by simp)] at same
    have all : content.length - rest.length = 0 := by
      by_contra some
      have minus : (-1 : Int) ∈ content.map fun b => (b.toNat : Int) := by
        rw [← same]
        exact List.mem_append_right _ (List.mem_replicate.mpr ⟨some, rfl⟩)
      obtain ⟨b, -, negative⟩ := List.mem_map.mp minus
      omega
    have whole := start.eq_of_length (by have := start.length_le; omega)
    subst whole
    rw [all, List.replicate_zero, List.append_nil] at same
    refine ⟨rfl, ?_⟩
    intro b mem
    exact (charInt_eq_toNat b).mp (List.map_inj_left.mp same b mem)
  · rintro ⟨rfl, ascii⟩ n
    rw [serves.fdgetcs, List.map_congr_left fun b mem => (charInt_eq_toNat b).mpr (ascii b mem)]

theorem getsExact_iff (serves : Serves f rest) {content : Bytes} (start : rest <+: content) :
    GetsExact content f ↔ rest = content ∧ 255 ∉ content := by
  constructor
  · intro exact
    obtain ⟨calls, same⟩ := exact (fun _ => 2) fun _ => Nat.le_refl _
    have kept := same (max calls rest.length) (Nat.le_max_left ..)
    rw [serves.fdgetss (fun _ => Nat.le_refl _) (Nat.le_max_right ..)] at kept
    have fewer := List.length_filter_le (· ≠ (255 : UInt8)) rest
    rw [kept] at fewer
    have whole := start.eq_of_length (Nat.le_antisymm start.length_le fewer)
    subst whole
    refine ⟨rfl, ?_⟩
    intro mem
    have := List.filter_eq_self.mp kept 255 mem
    simp at this
  · rintro ⟨rfl, no255⟩ max room
    refine ⟨rest.length, ?_⟩
    intro n calls
    rw [serves.fdgetss room calls, List.filter_eq_self]
    intro b mem
    exact decide_eq_true fun eq => no255 (eq ▸ mem)

end Serves

/-! ## The reader against the file -/

theorem Reads.serves {content : Bytes} (reads : Reads content) :
    Serves (openfile reads.chunks) (reads.chunks.headD []) :=
  Serves.opened fun chunk mem => (reads.sizes chunk mem).1

theorem Reads.head_prefix {content : Bytes} (reads : Reads content) : reads.chunks.headD [] <+: content := by
  obtain ⟨chunks, rfl, -⟩ := reads
  cases chunks with
  | nil => exact List.nil_prefix
  | cons chunk chunks => exact List.prefix_append ..

theorem reader_exact (content : Bytes) (reads : Reads content) :
    (GetcExact content (openfile reads.chunks) ∧ GetsExact content (openfile reads.chunks)) ↔
      reads.chunks.headD [] = content ∧ ∀ b ∈ content, b < 128 := by
  rw [reads.serves.getcExact_iff reads.head_prefix, reads.serves.getsExact_iff reads.head_prefix]
  constructor
  · exact And.left
  · intro holds
    refine ⟨holds, holds.1, ?_⟩
    intro mem
    exact absurd (holds.2 255 mem) (by decide)

/-- The first call returns one byte of two. -/
theorem reader_stops : ∃ (content : Bytes) (reads : Reads content),
    ¬ (GetcExact content (openfile reads.chunks) ∧ GetsExact content (openfile reads.chunks)) := by
  refine ⟨[97, 98], ⟨[[97], [98]], rfl, by decide⟩, ?_⟩
  intro holds
  exact absurd (holds.1 2) (by decide)

end Psplink.Util
