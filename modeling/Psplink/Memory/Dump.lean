import Psplink.Lib.Printf
import Psplink.Memory.Search

/-!
# Memory dumps

`memdump_cmd` of psplink/shell.c with the rows that it prints. How the rows are read off the screen is said in `readDump`.
-/

namespace Psplink.Memory
open Psplink.Lib Psplink.Lib.Flat Psplink.Util Psplink.Address

/-! ## The code -/

inductive DumpType
  | byte
  | half
  | word

def DumpType.width : DumpType → Nat
  | .byte => 1
  | .half => 2
  | .word => 4

def maxMemdumpSize : Nat := 256

/-- The bytes of a column, the most significant first. -/
def printValue (row : Nat → Word) (width i : Nat) : List Char :=
  (List.range width).reverse.flatMap fun j => zeroPadded 2 (hexadecimal (row (i + j)).toNat)

def printColumn (row : Nat → Word) (rowSize width k : Nat) : List Char :=
  (if width * k < rowSize then printValue row width (width * k) else List.replicate (2 * width) '-') ++ [' ']

def printable (b : Word) : Char := if 32 ≤ b ∧ b < 127 then Char.ofNat b.toNat else '.'

/-- `row` has what the array holds; the first `rowSize` of it are the row. -/
def printRow (row : Nat → Word) (rowSize : Nat) (addr : Addr) (type : DumpType) : List Char :=
  zeroPadded 8 (lowercaseHex addr.toNat) ++ " - ".toList ++
    (List.range (16 / type.width)).flatMap (printColumn row rowSize type.width) ++ "- ".toList ++
    (List.range 16).map fun i => if i < rowSize then printable (row i) else '.'

def printRows (mem : Flat) (type : DumpType) : (sizeLeft : Nat) → (row : Nat → Word) → (rowSize : Nat) → Addr →
    List (List Char)
  | 0, _, _, _ => []
  | sizeLeft + 1, row, rowSize, addr =>
      let row := Function.update row rowSize ((mem (offset addr rowSize)).toBitVec.setWidth 32)
      if rowSize + 1 = 16 then printRow row 16 addr type :: printRows mem type sizeLeft row 0 (offset addr 16)
      else printRows mem type sizeLeft row (rowSize + 1) addr

def dumpHeading : DumpType → List (List Char)
  | .word => [
      "         - 00       04       08       0c       - 0123456789abcdef".toList,
      "-----------------------------------------------------------------".toList]
  | .half => [
      "         - 00   02   04   06   08   0a   0c   0e   - 0123456789abcdef".toList,
      "---------------------------------------------------------------------".toList]
  | .byte => [
      "         - 00 01 02 03 04 05 06 07 08 09 0a 0b 0c 0d 0e 0f - 0123456789abcdef".toList,
      "-----------------------------------------------------------------------------".toList]

def printLines (lines : List (List Char)) : List Char := lines.flatMap fun line => line ++ ['\n']

/-- `stack` is what the array holds before the first row. -/
def printMemdump (mem : Flat) (stack : Nat → Word) (addr : Addr) (size : Nat) (type : DumpType) : List Char :=
  printLines (dumpHeading type ++ printRows mem type (min size maxMemdumpSize) stack 0 addr)

/-- The static variables of the command. -/
structure Memdump where
  addr : Addr
  type : DumpType

/-- What the model leaves open: what the stack holds, and what a failed decoding leaves in the address. -/
structure Leftovers where
  stack : Nat → Word
  failed : CStr → Word

def typeArg (argv : List CStr) (type : DumpType) : DumpType :=
  if 1 < argv.length then
    if (arg argv 1).text.head? = some 119 then .word
    else if (arg argv 1).text.head? = some 104 then .half
    else if (arg argv 1).text.head? = some 98 then .byte
    else type
  else type

def dumpFrom (left : Leftovers) (env : Env) (s : Memdump) : Int × List Char × Memdump :=
  let sizeLeft := env.memValidate s.addr (memAttribRead ||| memAttribByte)
  if 0 < sizeLeft then (Shell.cmdOk, printMemdump env.mem left.stack s.addr sizeLeft s.type, s)
  else (Shell.cmdOk, printLines ["Invalid memory address ".toList ++ lowercaseHex s.addr.toNat], s)

def memdumpCmd (left : Leftovers) (env : Env) (argv : List CStr) (s : Memdump) : Int × List Char × Memdump :=
  if 0 < argv.length then
    if (arg argv 0).text.head? = some 45 then
      dumpFrom left env ⟨s.addr - BitVec.ofNat 32 maxMemdumpSize, typeArg argv s.type⟩
    else
      match memDecode env (arg argv 0) with
      | some addr => dumpFrom left env ⟨addr, typeArg argv s.type⟩
      | none =>
          (Shell.cmdError, printLines ["Error, invalid memory address ".toList ++
            (arg argv 0).text.map fun c => Char.ofNat c.toNat], { s with addr := left.failed (arg argv 0) })
  else if s.addr = 0 then (Shell.cmdError, [], s)
  else dumpFrom left env { s with addr := s.addr + BitVec.ofNat 32 maxMemdumpSize }

/-! ## Reading a dump -/

structure DumpRow where
  addr : Nat
  values : List Nat
  text : List Char

/-- The columns stand where the heading has them. -/
def readRow (width : Nat) (line : List Char) : DumpRow where
  addr := hexValue (line.take 8)
  values := (List.range (16 / width)).map fun k => hexValue ((line.drop (11 + (2 * width + 1) * k)).take (2 * width))
  text := line.drop (13 + (2 * width + 1) * (16 / width))

def readDump (width : Nat) (screen : List Char) : List DumpRow := ((components '\n' screen).drop 2).map (readRow width)

/-- What is in memory. -/
def shownRow (mem : Flat) (width : Nat) (a : Addr) : DumpRow where
  addr := a.toNat
  values := (List.range (16 / width)).map fun k => ofLE (bytesAt mem (offset a (width * k)) width)
  text := (bytesAt mem a 16).map fun b => printable (b.toBitVec.setWidth 32)

/-! ## Rows -/

/-- The row that starts at an address. -/
def rowOf (mem : Flat) (a : Addr) (i : Nat) : Word := (mem (offset a i)).toBitVec.setWidth 32

theorem toNat_rowOf (mem : Flat) (a : Addr) (i : Nat) : (rowOf mem a i).toNat = (mem (offset a i)).toNat := by
  have small := (mem (offset a i)).toNat_lt
  have same : (mem (offset a i)).toBitVec.toNat = (mem (offset a i)).toNat := rfl
  rw [rowOf, BitVec.toNat_setWidth, same]
  omega

theorem DumpType.whole (type : DumpType) : type.width * (16 / type.width) = 16 ∧ 0 < type.width ∧ type.width ≤ 4 := by
  cases type <;> decide

theorem printRow_congr {row row' : Nat → Word} (same : ∀ i < 16, row i = row' i) (addr : Addr) (type : DumpType) :
    printRow row 16 addr type = printRow row' 16 addr type := by
  have columns : ∀ k < 16 / type.width, printColumn row 16 type.width k = printColumn row' 16 type.width k := by
    intro k bound
    have inside : type.width * k + type.width ≤ 16 := by
      rw [← Nat.mul_succ, ← type.whole.1]
      exact Nat.mul_le_mul_left _ bound
    have value : printValue row type.width (type.width * k) = printValue row' type.width (type.width * k) := by
      apply List.flatMap_congr
      intro j mem
      have small : j < type.width := List.mem_range.mp (List.mem_reverse.mp mem)
      rw [same _ (by omega)]
    rw [printColumn, printColumn, value]
  have text : (List.range 16).map (fun i => if i < 16 then printable (row i) else '.') =
      (List.range 16).map (fun i => if i < 16 then printable (row' i) else '.') := by
    apply List.map_congr_left
    intro i mem
    rw [same i (List.mem_range.mp mem)]
  rw [printRow, printRow, text, List.flatMap_congr fun k mem => columns k (List.mem_range.mp mem)]

/-- A row has been gathered up to `rowSize`. -/
theorem printRows_eq (mem : Flat) (type : DumpType) {sizeLeft rowSize : Nat} {row : Nat → Word} {addr : Addr}
    (short : rowSize < 16) (gathered : ∀ i < rowSize, row i = rowOf mem addr i) :
    printRows mem type sizeLeft row rowSize addr = (List.range ((rowSize + sizeLeft) / 16)).map fun r =>
      printRow (rowOf mem (offset addr (16 * r))) 16 (offset addr (16 * r)) type := by
  induction sizeLeft generalizing rowSize row addr with
  | zero =>
      have none : (rowSize + 0) / 16 = 0 := by omega
      rw [none]
      rfl
  | succ sizeLeft ih =>
      have gathered' : ∀ i < rowSize + 1, Function.update row rowSize (rowOf mem addr rowSize) i = rowOf mem addr i := by
        intro i bound
        by_cases last : i = rowSize
        · rw [last, Function.update_self]
        · rw [Function.update_of_ne last, gathered i (by omega)]
      unfold printRows
      rw [← rowOf]
      by_cases full : rowSize + 1 = 16
      · have count : (rowSize + (sizeLeft + 1)) / 16 = (0 + sizeLeft) / 16 + 1 := by omega
        rw [if_pos full, ih (by decide) fun i bound => absurd bound (Nat.not_lt_zero i), count, List.range_succ_eq_map,
          List.map_cons, List.map_map, Nat.mul_zero, offset_zero]
        congr 1
        · exact printRow_congr (fun i bound => gathered' i (by omega)) addr type
        · apply List.map_congr_left
          intro r _
          rw [Function.comp_apply, offset_offset, Nat.mul_succ, Nat.add_comm 16]
      · rw [if_neg full, ih (by omega) gathered', Nat.add_right_comm, Nat.add_assoc]

/-! ## Columns -/

theorem ofLE_concat (bs : Bytes) (b : UInt8) : ofLE (bs ++ [b]) = ofLE bs + 256 ^ bs.length * b.toNat := by
  induction bs with
  | nil => simp [ofLE]
  | cons c bs ih =>
      rw [List.cons_append, ofLE, ih, ofLE, List.length_cons, Nat.pow_succ', Nat.mul_add, Nat.mul_assoc,
        Nat.add_assoc]

theorem length_printByte (mem : Flat) (a : Addr) (i : Nat) : (zeroPadded 2 (hexadecimal (rowOf mem a i).toNat)).length = 2 :=
  length_zeroPadded_hexadecimal (by decide) (by rw [toNat_rowOf]; exact (mem (offset a i)).toNat_lt)

theorem printValue_succ (row : Nat → Word) (width i : Nat) :
    printValue row (width + 1) i = zeroPadded 2 (hexadecimal (row (i + width)).toNat) ++ printValue row width i := by
  rw [printValue, List.range_succ, List.reverse_append, List.reverse_singleton, List.singleton_append, List.flatMap_cons,
    printValue]

theorem length_printValue (mem : Flat) (a : Addr) (width i : Nat) : (printValue (rowOf mem a) width i).length = 2 * width := by
  induction width with
  | zero => rfl
  | succ width ih =>
      rw [printValue_succ, List.length_append, length_printByte, ih]
      omega

theorem hexValue_printValue (mem : Flat) (a : Addr) (width i : Nat) :
    hexValue (printValue (rowOf mem a) width i) = ofLE (bytesAt mem (offset a i) width) := by
  induction width with
  | zero => rfl
  | succ width ih =>
      have last : bytesAt mem (offset a i) (width + 1) = bytesAt mem (offset a i) width ++ [mem (offset a (i + width))] := by
        rw [bytesAt, List.range_succ, List.map_append, List.map_singleton, offset_offset, bytesAt]
      have power : 16 ^ (2 * width) = 256 ^ width := by rw [Nat.pow_mul]
      rw [printValue_succ, hexValue_append, hexValue_zeroPadded, hexValue_hexadecimal, ih, length_printValue, last, ofLE_concat,
        length_bytesAt, toNat_rowOf, power, Nat.add_comm]

theorem length_printColumn (mem : Flat) (a : Addr) {width k : Nat} (inside : width * k < 16) :
    (printColumn (rowOf mem a) 16 width k).length = 2 * width + 1 := by
  rw [printColumn, if_pos inside, List.length_append, length_printValue, List.length_singleton]

theorem length_pieces {f : Nat → List Char} {n m : Nat} (even : ∀ i < m, (f i).length = n) :
    ((List.range m).flatMap f).length = n * m := by
  induction m with
  | zero => rfl
  | succ m ih =>
      rw [List.range_succ, List.flatMap_append, List.length_append, ih fun i bound => even i (by omega), List.flatMap_singleton,
        even m (Nat.lt_succ_self m), Nat.mul_succ]

/-- Pieces of one length are found at its multiples. -/
theorem drop_pieces {f : Nat → List Char} {n m k : Nat} (even : ∀ i < m, (f i).length = n) (bound : k < m) :
    ∃ rest, ((List.range m).flatMap f).drop (n * k) = f k ++ rest := by
  obtain ⟨more, rfl⟩ := Nat.exists_eq_add_of_lt bound
  have front := length_pieces fun i below => even i (Nat.lt_trans below bound)
  rw [Nat.add_assoc, List.range_add, List.flatMap_append, ← front, List.drop_left, List.range_succ_eq_map, List.map_cons,
    List.flatMap_cons]
  exact ⟨_, rfl⟩

/-! ## Reading a row back -/

theorem toNat_lt_digits (a : Addr) : a.toNat < 16 ^ 8 := a.isLt

theorem length_printAddr (a : Addr) : (zeroPadded 8 (lowercaseHex a.toNat)).length = 8 := by
  rw [length_zeroPadded, lowercaseHex]
  have short := (Nat.length_toDigits_le_iff (b := 16) (by decide) (by decide)).mpr (toNat_lt_digits a)
  omega

section
variable (mem : Flat) (type : DumpType) (a : Addr)

/-- The columns of a row. -/
def columns : List Char := (List.range (16 / type.width)).flatMap (printColumn (rowOf mem a) 16 type.width)

def rowText : List Char := (List.range 16).map fun i => if i < 16 then printable (rowOf mem a i) else '.'

theorem even_columns : ∀ k < 16 / type.width, (printColumn (rowOf mem a) 16 type.width k).length = 2 * type.width + 1 := by
  intro k bound
  obtain ⟨whole, some, _⟩ := type.whole
  apply length_printColumn
  calc type.width * k < type.width * (16 / type.width) := Nat.mul_lt_mul_of_pos_left bound some
    _ = 16 := whole

theorem drop_printRow : (printRow (rowOf mem a) 16 a type).drop 11 = columns mem type a ++ ("- ".toList ++ rowText mem a) := by
  have front : (zeroPadded 8 (lowercaseHex a.toNat) ++ " - ".toList).length = 11 := by
    rw [List.length_append, length_printAddr]
    rfl
  rw [printRow, List.append_assoc, List.append_assoc]
  exact List.drop_left' front

theorem readRow_printRow : readRow type.width (printRow (rowOf mem a) 16 a type) = shownRow mem type.width a := by
  have addr : hexValue ((printRow (rowOf mem a) 16 a type).take 8) = a.toNat := by
    rw [printRow, List.append_assoc, List.append_assoc, List.append_assoc, List.take_left' (length_printAddr a),
      hexValue_zeroPadded, hexValue_lowercaseHex]
  have value : ∀ k < 16 / type.width,
      hexValue (((printRow (rowOf mem a) 16 a type).drop (11 + (2 * type.width + 1) * k)).take (2 * type.width)) =
        ofLE (bytesAt mem (offset a (type.width * k)) type.width) := by
    intro k bound
    obtain ⟨whole, some, _⟩ := type.whole
    have inside : type.width * k < 16 := by
      calc type.width * k < type.width * (16 / type.width) := Nat.mul_lt_mul_of_pos_left bound some
        _ = 16 := whole
    have length := length_pieces (even_columns mem type a)
    obtain ⟨rest, found⟩ := drop_pieces (even_columns mem type a) bound
    have fits : (2 * type.width + 1) * k ≤ (columns mem type a).length := by
      rw [columns, length]
      exact Nat.mul_le_mul_left _ (Nat.le_of_lt bound)
    rw [← List.drop_drop, drop_printRow, List.drop_append_of_le_length fits, columns, found, printColumn, if_pos inside,
      List.append_assoc, List.append_assoc, List.take_left' (length_printValue mem a type.width _), hexValue_printValue]
  have text : (printRow (rowOf mem a) 16 a type).drop (13 + (2 * type.width + 1) * (16 / type.width)) =
      (bytesAt mem a 16).map fun b => printable (b.toBitVec.setWidth 32) := by
    have length : (columns mem type a).length = (2 * type.width + 1) * (16 / type.width) :=
      length_pieces (even_columns mem type a)
    have place : 13 + (2 * type.width + 1) * (16 / type.width) = 11 + ((columns mem type a).length + 2) := by omega
    rw [place, ← List.drop_drop, drop_printRow, ← List.drop_drop, List.drop_left, rowText, bytesAt, List.map_map]
    apply List.map_congr_left
    intro i mem
    exact if_pos (List.mem_range.mp mem)
  rw [readRow, addr, text, List.map_congr_left fun k mem => value k (List.mem_range.mp mem)]
  rfl

/-! ## Reading a dump back -/

theorem digit_visible : ∀ d < 16, Nat.digitChar d ≠ '\n' ∧ (Nat.digitChar d).toUpper ≠ '\n' := by decide

theorem ascii_visible : ∀ n < 127, 32 ≤ n → Char.ofNat n ≠ '\n' := by decide

theorem printable_visible (b : Word) : printable b ≠ '\n' := by
  unfold printable
  split
  · next between => exact ascii_visible b.toNat (BitVec.lt_def.mp between.2) (BitVec.le_def.mp between.1)
  · decide

theorem zeroPadded_visible {width : Nat} {text : List Char} (visible : '\n' ∉ text) : '\n' ∉ zeroPadded width text := by
  intro inside
  rcases List.mem_append.mp inside with zero | digit
  · exact absurd (List.eq_of_mem_replicate zero) (by decide)
  · exact visible digit

theorem printAddr_visible : '\n' ∉ zeroPadded 8 (lowercaseHex a.toNat) := by
  apply zeroPadded_visible
  intro inside
  obtain ⟨d, small, same⟩ := mem_lowercaseHex inside
  exact (digit_visible d small).1 same.symm

theorem printColumn_visible (row : Nat → Word) (rowSize width k : Nat) : '\n' ∉ printColumn row rowSize width k := by
  intro inside
  rcases List.mem_append.mp inside with value | space
  · split at value
    · obtain ⟨j, _, byte⟩ := List.mem_flatMap.mp value
      refine zeroPadded_visible ?_ byte
      intro digit
      obtain ⟨d, small, same⟩ := mem_hexadecimal digit
      exact (digit_visible d small).2 same.symm
    · exact absurd (List.eq_of_mem_replicate value) (by decide)
  · exact absurd (List.mem_singleton.mp space) (by decide)

theorem rowText_visible : '\n' ∉ rowText mem a := by
  intro inside
  obtain ⟨i, range, same⟩ := List.mem_map.mp inside
  rw [if_pos (List.mem_range.mp range)] at same
  exact printable_visible _ same

theorem piece_printRow : Piece '\n' (printRow (rowOf mem a) 16 a type) := by
  constructor
  · intro empty
    have length := congrArg List.length (congrArg (List.take 8) empty)
    rw [printRow, List.append_assoc, List.append_assoc, List.append_assoc, List.take_left' (length_printAddr a),
      length_printAddr] at length
    cases length
  · have columns : '\n' ∉ columns mem type a := by
      intro inside
      obtain ⟨k, _, column⟩ := List.mem_flatMap.mp inside
      exact printColumn_visible _ _ _ _ column
    have dash : '\n' ∉ " - ".toList ∧ '\n' ∉ "- ".toList := by decide
    intro inside
    rcases List.mem_append.mp inside with front | text
    · rcases List.mem_append.mp front with front | dashes
      · rcases List.mem_append.mp front with front | column
        · rcases List.mem_append.mp front with address | dashes
          · exact printAddr_visible a address
          · exact dash.1 dashes
        · exact columns column
      · exact dash.2 dashes
    · exact rowText_visible mem a text

theorem components_printLines {lines : List (List Char)} (pieces : ∀ line ∈ lines, Piece '\n' line) :
    components '\n' (printLines lines) = lines := by
  induction lines with
  | nil => rfl
  | cons line lines ih =>
      rw [printLines, List.flatMap_cons, List.append_assoc, List.singleton_append,
        components_piece_append (pieces line List.mem_cons_self)]
      exact congrArg _ (ih fun line mem => pieces line (List.mem_cons_of_mem _ mem))

theorem piece_dumpHeading : ∀ line ∈ dumpHeading type, Piece '\n' line := by
  have visible : ∀ line ∈ dumpHeading type, line ≠ [] ∧ '\n' ∉ line := by
    cases type <;> decide
  intro line mem
  exact ⟨(visible line mem).1, (visible line mem).2⟩

/-- A dump shows the whole rows of what is left, up to its own size. -/
theorem readDump_printMemdump (stack : Nat → Word) (size : Nat) :
    readDump type.width (printMemdump mem stack a size type) =
      (List.range (min size maxMemdumpSize / 16)).map fun r => shownRow mem type.width (offset a (16 * r)) := by
  have rows : printRows mem type (min size maxMemdumpSize) stack 0 a = _ :=
    printRows_eq mem type (by decide) fun i bound => absurd bound (Nat.not_lt_zero i)
  have pieces : ∀ line ∈ dumpHeading type ++ printRows mem type (min size maxMemdumpSize) stack 0 a, Piece '\n' line := by
    intro line inside
    rcases List.mem_append.mp inside with heading | row
    · exact piece_dumpHeading type line heading
    · rw [rows] at row
      obtain ⟨r, _, rfl⟩ := List.mem_map.mp row
      exact piece_printRow mem type _
  have heading : (dumpHeading type).length = 2 := by cases type <;> rfl
  rw [readDump, printMemdump, components_printLines pieces, List.drop_left' heading, rows, List.map_map, Nat.zero_add]
  apply List.map_congr_left
  intro r _
  exact readRow_printRow mem type _

end

/-! ## Paging -/

section
variable {left : Leftovers} {env : Env}

/-- Where a command starts to print, and how. -/
def dumpStart (env : Env) (argv : List CStr) (s : Memdump) : Option Memdump :=
  if 0 < argv.length then
    if (arg argv 0).text.head? = some 45 then some ⟨s.addr - BitVec.ofNat 32 maxMemdumpSize, typeArg argv s.type⟩
    else (memDecode env (arg argv 0)).map fun addr => ⟨addr, typeArg argv s.type⟩
  else if s.addr = 0 then none
  else some { s with addr := s.addr + BitVec.ofNat 32 maxMemdumpSize }

theorem memdumpCmd_of_start {argv : List CStr} {s first : Memdump} (started : dumpStart env argv s = some first) :
    memdumpCmd left env argv s = dumpFrom left env first := by
  unfold dumpStart at started
  unfold memdumpCmd
  split_ifs at started ⊢
  · rw [Option.some.inj started]
  · obtain ⟨addr, decoded, rfl⟩ := Option.map_eq_some_iff.mp started
    rw [decoded]
  · rw [Option.some.inj started]

abbrev memAttribDump : Word := memAttribRead ||| memAttribByte

theorem memValidate_region {entry : MemEntry} {a : Addr} {attrib : Word} (found : region a = some entry) :
    env.memValidate a attrib =
      let left := if entry.attrib &&& attrib = attrib ∧ (¬ entry.v1only ∨ env.isv1) then
        entry.size.toNat - (a - entry.addr).toNat else 0
      if env.protoff ∧ left = 0 then 4 else left := by
  have same : (memareas.find? fun entry => entry.addr ≤ a ∧ a < entry.addr + entry.size) = some entry := found
  rw [Env.memValidate, same]

theorem region_offset {entry : MemEntry} {a : Addr} {i : Nat} (found : region a = some entry)
    (bound : i < entry.size.toNat - (a - entry.addr).toNat) :
    region (offset a i) = some entry ∧ (offset a i - entry.addr).toNat = (a - entry.addr).toNat + i ∧
      (offset a i).toNat = a.toNat + i := by
  obtain ⟨mem, inside⟩ := region_some found
  obtain ⟨positive, fits, _⟩ := areas_sound entry mem
  have bounds := (contains_iff mem a).mp inside
  have behind := toNat_sub_region found
  have place : (offset a i).toNat = a.toNat + i := toNat_offset (by omega)
  have inside' : Contains entry (offset a i) := (contains_iff mem _).mpr (by omega)
  have isSome : (region (offset a i)).isSome := List.find?_isSome.mpr ⟨entry, mem, decide_eq_true inside'⟩
  obtain ⟨entry', found'⟩ := Option.isSome_iff_exists.mp isSome
  have other := region_some found'
  have same : entry' = entry := region_unique other.1 mem other.2 inside'
  rw [same] at found'
  have behind' := toNat_sub_region found'
  exact ⟨found', by omega, place⟩

/-- What is left further on in a region. -/
theorem memValidate_offset {a : Addr} {attrib : Word} {i : Nat} (more : 4 < env.memValidate a attrib)
    (bound : i < env.memValidate a attrib) :
    env.memValidate (offset a i) attrib = env.memValidate a attrib - i ∧ (offset a i).toNat = a.toNat + i ∧ 0 < a.toNat := by
  cases found : region a with
  | none =>
      have same : (memareas.find? fun entry => entry.addr ≤ a ∧ a < entry.addr + entry.size) = none := found
      rw [Env.memValidate, same] at more
      dsimp only at more
      split_ifs at more
      · omega
      · omega
  | some entry =>
      obtain ⟨mem, inside⟩ := region_some found
      rw [memValidate_region found] at more bound ⊢
      dsimp only at more bound ⊢
      by_cases passes : entry.attrib &&& attrib = attrib ∧ (¬ entry.v1only ∨ env.isv1)
      · rw [if_pos passes] at more bound ⊢
        have some : ¬ (env.protoff = true ∧ entry.size.toNat - (a - entry.addr).toNat = 0) := by
          intro raised
          rw [if_pos raised] at more
          omega
        rw [if_neg some] at bound ⊢
        obtain ⟨found', behind, place⟩ := region_offset found bound
        refine ⟨?_, place, (@validated_fits env a attrib entry mem inside).1⟩
        rw [memValidate_region found']
        dsimp only
        rw [if_pos passes, behind, if_neg (by omega)]
        omega
      · rw [if_neg passes] at more
        split_ifs at more
        · omega
        · omega

/-- What the screen shows of one command after the other. -/
def dumps (left : Leftovers) (env : Env) : List (List CStr) → Memdump → List (List Char)
  | [], _ => []
  | argv :: argvs, s =>
      let (_, text, s') := memdumpCmd left env argv s
      text :: dumps left env argvs s'

def page (left : Leftovers) (env : Env) (s : Memdump) (i : Nat) : List Char :=
  printMemdump env.mem left.stack (offset s.addr (maxMemdumpSize * i))
    (env.memValidate (offset s.addr (maxMemdumpSize * i)) memAttribDump) s.type

theorem dumpFrom_eq {s : Memdump} (some : 0 < env.memValidate s.addr memAttribDump) :
    dumpFrom left env s = (Shell.cmdOk, page left env s 0, s) := by
  rw [dumpFrom, if_pos some, page, Nat.mul_zero, offset_zero]

theorem dumps_next {n : Nat} {s : Memdump} (inside : maxMemdumpSize * n < env.memValidate s.addr memAttribDump) :
    dumps left env (List.replicate n []) s = (List.range n).map fun i => page left env s (i + 1) := by
  induction n generalizing s with
  | zero => rfl
  | succ n ih =>
      have size : maxMemdumpSize = 256 := rfl
      rw [Nat.mul_succ] at inside
      obtain ⟨rest, place, positive⟩ := @memValidate_offset env s.addr memAttribDump maxMemdumpSize (by omega) (by omega)
      have nonzero : s.addr ≠ 0 := by
        intro zero
        rw [zero] at positive
        exact absurd positive (by decide)
      have started : dumpStart env [] s = some { s with addr := offset s.addr maxMemdumpSize } := by
        unfold dumpStart
        rw [if_neg (by simp), if_neg nonzero]
        rfl
      have here : memdumpCmd left env [] s = (Shell.cmdOk, page left env s 1, { s with addr := offset s.addr maxMemdumpSize }) := by
        rw [memdumpCmd_of_start started, dumpFrom_eq (by dsimp only; omega), page, page]
        dsimp only
        rw [Nat.mul_zero, offset_zero, Nat.mul_one]
      rw [List.replicate_succ, dumps, here, List.range_succ_eq_map, List.map_cons, List.map_map]
      dsimp only
      rw [ih (by dsimp only; omega)]
      apply congrArg
      apply List.map_congr_left
      intro i _
      rw [Function.comp_apply, page, page]
      dsimp only
      rw [offset_offset, Nat.mul_succ, Nat.mul_succ, Nat.mul_succ, Nat.add_comm maxMemdumpSize, Nat.add_right_comm]

theorem rows_of_pages {α : Type} {f : Nat → List α} {g : Nat → α} {n k c : Nat}
    (full : ∀ i < n, f i = (List.range k).map fun r => g (k * i + r)) (last : f n = (List.range c).map fun r => g (k * n + r)) :
    (List.range (n + 1)).flatMap f = (List.range (k * n + c)).map g := by
  have front : ∀ m ≤ n, (List.range m).flatMap f = (List.range (k * m)).map g := by
    intro m bound
    induction m with
    | zero => rfl
    | succ m ih =>
        rw [List.range_succ, List.flatMap_append, ih (by omega), List.flatMap_singleton, full m bound, Nat.mul_succ,
          List.range_add, List.map_append, List.map_map]
        rfl
  rw [List.range_succ, List.flatMap_append, front n (Nat.le_refl n), List.flatMap_singleton, last, List.range_add,
    List.map_append, List.map_map]
  rfl

/-- The command repeated without arguments goes through a region: the screen shows each whole row of it once. -/
theorem memdump_pages (left : Leftovers) {argv : List CStr} {s first : Memdump} (started : dumpStart env argv s = some first)
    {n : Nat} (inside : maxMemdumpSize * n < env.memValidate first.addr memAttribDump) :
    (dumps left env (argv :: List.replicate n []) s).flatMap (readDump first.type.width) =
      (List.range (min (env.memValidate first.addr memAttribDump) (maxMemdumpSize * (n + 1)) / 16)).map fun r =>
        shownRow env.mem first.type.width (offset first.addr (16 * r)) := by
  have size : maxMemdumpSize = 16 * 16 := rfl
  have page_rows : ∀ i ≤ n, readDump first.type.width (page left env first i) =
      (List.range (min (env.memValidate first.addr memAttribDump - maxMemdumpSize * i) maxMemdumpSize / 16)).map fun r =>
        shownRow env.mem first.type.width (offset first.addr (16 * (16 * i + r))) := by
    intro i bound
    have before : maxMemdumpSize * i ≤ maxMemdumpSize * n := Nat.mul_le_mul_left _ bound
    have rest : env.memValidate (offset first.addr (maxMemdumpSize * i)) memAttribDump =
        env.memValidate first.addr memAttribDump - maxMemdumpSize * i := by
      cases i with
      | zero => rw [Nat.mul_zero, offset_zero, Nat.sub_zero]
      | succ i =>
          rw [Nat.mul_succ] at before ⊢
          exact (memValidate_offset (by omega) (by omega)).1
    rw [page, readDump_printMemdump, rest]
    apply List.map_congr_left
    intro r _
    rw [offset_offset, size, Nat.mul_add, Nat.mul_assoc]
  have pages : dumps left env (argv :: List.replicate n []) s = (List.range (n + 1)).map (page left env first) := by
    rw [dumps, memdumpCmd_of_start started, dumpFrom_eq (by omega), List.range_succ_eq_map, List.map_cons, List.map_map]
    exact congrArg _ (dumps_next inside)
  have count : min (env.memValidate first.addr memAttribDump) (maxMemdumpSize * (n + 1)) / 16 =
      16 * n + min (env.memValidate first.addr memAttribDump - maxMemdumpSize * n) maxMemdumpSize / 16 := by
    rw [size] at inside ⊢
    omega
  rw [pages, List.flatMap_map, count]
  apply rows_of_pages
  · intro i bound
    have before : maxMemdumpSize * i + maxMemdumpSize ≤ maxMemdumpSize * n := by
      rw [← Nat.mul_succ]
      exact Nat.mul_le_mul_left _ bound
    have full : min (env.memValidate first.addr memAttribDump - maxMemdumpSize * i) maxMemdumpSize / 16 = 16 := by omega
    have rows := page_rows i (Nat.le_of_lt bound)
    rwa [full] at rows
  · exact page_rows n (Nat.le_refl n)

end

def dumpArgs : List CStr := ["0x8800000", "w"].map fun text => CStr.ofBytes (ascii text)

def noLeftovers : Leftovers := ⟨fun _ => 0, fun _ => 0⟩

theorem memdump_pages_two : (dumps noLeftovers bareEnv (dumpArgs :: List.replicate 1 []) ⟨0, .byte⟩).flatMap (readDump 4) =
    (List.range 32).map fun r => shownRow bareEnv.mem 4 (offset 0x8800000 (16 * r)) :=
  memdump_pages noLeftovers (rfl : dumpStart bareEnv dumpArgs ⟨0, .byte⟩ = some ⟨0x8800000, .word⟩) (by decide)

end Psplink.Memory
