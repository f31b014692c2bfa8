import Psplink.Lib.Effect
import Psplink.Lib.Flat

/-!
# Screenshots

psplink/bitmap.c: the bitmap that `bitmapWrite` builds of the frame buffer and writes to a file. What
a bitmap file shows is said apart from it, in `readBitmap`.
-/

namespace Psplink.Display
open Psplink.Lib Flat

structure Rgb where
  red : UInt8
  green : UInt8
  blue : UInt8
  deriving DecidableEq

/-! ## The file format -/

structure BitmapHeader where
  id : BitVec 16
  filesize : BitVec 32
  reserved : BitVec 32
  offset : BitVec 32
  headsize : BitVec 32
  width : BitVec 32
  height : BitVec 32
  planes : BitVec 16
  bpp : BitVec 16
  comp : BitVec 32
  bitmapsize : BitVec 32
  hres : BitVec 32
  vres : BitVec 32
  colors : BitVec 32
  impcolors : BitVec 32

instance : Packed BitmapHeader :=
  Packed.ofFields
    (fun h => (h.id, h.filesize, h.reserved, h.offset, h.headsize, h.width, h.height, h.planes, h.bpp, h.comp,
      h.bitmapsize, h.hres, h.vres, h.colors, h.impcolors))
    (fun t => ⟨t.1, t.2.1, t.2.2.1, t.2.2.2.1, t.2.2.2.2.1, t.2.2.2.2.2.1, t.2.2.2.2.2.2.1, t.2.2.2.2.2.2.2.1,
      t.2.2.2.2.2.2.2.2.1, t.2.2.2.2.2.2.2.2.2.1, t.2.2.2.2.2.2.2.2.2.2.1, t.2.2.2.2.2.2.2.2.2.2.2.1,
      t.2.2.2.2.2.2.2.2.2.2.2.2.1, t.2.2.2.2.2.2.2.2.2.2.2.2.2.1, t.2.2.2.2.2.2.2.2.2.2.2.2.2.2⟩)
    fun _ => rfl

/-- `BM`. -/
def bmpId : BitVec 16 := 0x4D42

/-- A row of a bitmap is filled up to whole words. -/
def stride (width : Nat) : Nat := (3 * width + 3) / 4 * 4

structure Picture where
  width : Nat
  height : Nat
  /-- By column and by row from the top. -/
  pixel : Nat → Nat → Rgb

/-- An uncompressed bitmap of 24 bits a pixel: its rows stand from the bottom up, blue first. -/
def readBitmap (file : Bytes) : Option Picture :=
  let h : BitmapHeader := decode file
  let row := stride h.width.toNat
  if h.id = bmpId ∧ h.filesize.toNat = file.length ∧ h.headsize = 40 ∧ h.planes = 1 ∧ h.bpp = 24 ∧ h.comp = 0 ∧
      h.offset.toNat + row * h.height.toNat ≤ file.length then
    some {
      width := h.width.toNat
      height := h.height.toNat
      pixel := fun x y =>
        let place := h.offset.toNat + row * (h.height.toNat - 1 - y) + 3 * x
        ⟨file.getD (place + 2) 0, file.getD (place + 1) 0, file.getD place 0⟩ }
  else none

/-! ## The frame buffer -/

def screenWidth : Nat := 480
def screenHeight : Nat := 272
def bufferWidth : Nat := 512

/-- The size of a pixel and the components that are made of one. -/
structure PixelFormat where
  size : Nat
  red : Flat → Addr → UInt8
  green : Flat → Addr → UInt8
  blue : Flat → Addr → UInt8

/-- What is made of a pixel depends on its own bytes only. -/
structure PixelFormat.Within (f : PixelFormat) : Prop where
  red : ∀ mem mem' p, Agree mem mem' p f.size → f.red mem p = f.red mem' p
  green : ∀ mem mem' p, Agree mem mem' p f.size → f.green mem p = f.green mem' p
  blue : ∀ mem mem' p, Agree mem mem' p f.size → f.blue mem p = f.blue mem' p

def half (mem : Flat) (p : Addr) : BitVec 16 := load (BitVec 16) mem p

def byteOf (x : BitVec 16) : UInt8 := ⟨x.setWidth 8⟩

def format8888 : PixelFormat where
  size := 4
  red mem p := mem p
  green mem p := mem (offset p 1)
  blue mem p := mem (offset p 2)

def format5551 : PixelFormat where
  size := 2
  red mem p := byteOf ((half mem p &&& 0x1F) <<< 3)
  green mem p := byteOf (((half mem p >>> 5) &&& 0x1F) <<< 3)
  blue mem p := byteOf (((half mem p >>> 10) &&& 0x1F) <<< 3)

def format565 : PixelFormat where
  size := 2
  red mem p := byteOf ((half mem p &&& 0x1F) <<< 3)
  green mem p := byteOf (((half mem p >>> 5) &&& 0x3F) <<< 2)
  blue mem p := byteOf (((half mem p >>> 11) &&& 0x1F) <<< 3)

def format4444 : PixelFormat where
  size := 2
  red mem p := byteOf ((half mem p &&& 0xF) <<< 4)
  green mem p := byteOf (((half mem p >>> 4) &&& 0xF) <<< 4)
  blue mem p := byteOf (((half mem p >>> 8) &&& 0xF) <<< 4)

/-! ## The conversion -/

section
variable (f : PixelFormat)

/-- Each component is read when the ones before it have been written. -/
def writePixel (p line : Addr) (mem : Flat) : Flat :=
  let mem := store mem (offset line 2) [f.red mem p]
  let mem := store mem (offset line 1) [f.green mem p]
  store mem line [f.blue mem p]

def writeLine (row line : Addr) (mem : Flat) : Flat :=
  (List.range screenWidth).foldl (fun mem i => writePixel f (offset row (f.size * i)) (offset line (3 * i)) mem) mem

/-- The line that is `k` from the bottom. -/
def rowAt (frame : Addr) (k : Nat) : Addr := offset frame (f.size * bufferWidth * (screenHeight - 1 - k))

def writeRows (frame pixelData : Addr) (mem : Flat) : Flat :=
  (List.range screenHeight).foldl
    (fun mem k => writeLine f (rowAt f frame k) (offset pixelData (3 * screenWidth * k)) mem) mem

end

def write8888Data : Addr → Addr → Flat → Flat := writeRows format8888
def write5551Data : Addr → Addr → Flat → Flat := writeRows format5551
def write565Data : Addr → Addr → Flat → Flat := writeRows format565
def write4444Data : Addr → Addr → Flat → Flat := writeRows format4444

/-! ## The file -/

def pixelBytes : Nat := 3 * screenWidth * screenHeight

def header : BitmapHeader where
  id := bmpId
  filesize := BitVec.ofNat 32 (pixelBytes + sizeof BitmapHeader)
  reserved := 0
  offset := BitVec.ofNat 32 (sizeof BitmapHeader)
  headsize := 0x28
  width := BitVec.ofNat 32 screenWidth
  height := BitVec.ofNat 32 screenHeight
  planes := 1
  bpp := 24
  comp := 0
  bitmapsize := BitVec.ofNat 32 pixelBytes
  hres := 2834
  vres := 2834
  colors := 0
  impcolors := 0

inductive FileCall
  | sceIoOpen
  | sceIoWrite (data : Bytes)
  | sceIoClose

@[reducible] def FileCall.Answer : FileCall → Type
  | .sceIoOpen => Bool
  | .sceIoWrite _ => Int
  | .sceIoClose => Unit

abbrev FileProg := Prog FileCall FileCall.Answer

/-- A call that does not fail writes at least one byte, so there are turns enough when there are as
many as bytes. -/
def fixedWriteLoop : (turns : Nat) → (rest : Bytes) → (writelen : Int) → FileProg Int
  | 0, _, writelen => return writelen
  | turns + 1, rest, writelen => do
      if rest = [] then return writelen
      let ret ← Prog.call (FileCall.sceIoWrite rest)
      if ret ≤ 0 then return -1
      fixedWriteLoop turns (rest.drop ret.toNat) (writelen + ret)

def fixedWrite (data : Bytes) : FileProg Int := fixedWriteLoop data.length data 0

inductive DisplayFormat
  | rgb565
  | rgba5551
  | rgba4444
  | rgba8888

def DisplayFormat.pixel : DisplayFormat → PixelFormat
  | .rgb565 => format565
  | .rgba5551 => format5551
  | .rgba4444 => format4444
  | .rgba8888 => format8888

/-- The buffer as it is when the file is written. -/
def bitmapBuffer (frame tmpBuf : Addr) (format : DisplayFormat) (mem : Flat) : Flat :=
  let mem := save mem tmpBuf header
  let pixelData := offset tmpBuf (sizeof BitmapHeader)
  match format with
  | .rgb565 => write565Data frame pixelData mem
  | .rgba5551 => write5551Data frame pixelData mem
  | .rgba4444 => write4444Data frame pixelData mem
  | .rgba8888 => write8888Data frame pixelData mem

def bitmapWrite (frame tmpBuf : Addr) (format : DisplayFormat) (mem : Flat) : FileProg Int := do
  if !(← Prog.call FileCall.sceIoOpen) then return -1
  let mem := bitmapBuffer frame tmpBuf format mem
  let _ ← fixedWrite (bytesAt mem tmpBuf (load BitmapHeader mem tmpBuf).filesize.toNat)
  Prog.call FileCall.sceIoClose
  return 0

/-! ## What the conversion leaves -/

section
variable {f : PixelFormat} {mem mem' : Flat}

/-- The bytes of a pixel as they stand in the file. -/
def part (f : PixelFormat) (mem : Flat) (p : Addr) : Nat → UInt8
  | 0 => f.blue mem p
  | 1 => f.green mem p
  | _ => f.red mem p

theorem part_congr (within : f.Within) {p : Addr} (agree : Agree mem mem' p f.size) (j : Nat) :
    part f mem p j = part f mem' p j := by
  unfold part
  split
  · exact within.blue mem mem' p agree
  · exact within.green mem mem' p agree
  · exact within.red mem mem' p agree

theorem writePixel_apply (within : f.Within) {p line : Addr} (apart : Apart line 3 p f.size) (x : Addr) :
    writePixel f p line mem x = if In line 3 x then part f mem p (dist line x) else mem x := by
  have first : Agree (store mem (offset line 2) [f.red mem p]) mem p f.size :=
    store_agree fun y here => apart y (in_of_offset (k := 2) (m := 1) (by omega) (by omega) here)
  have second : Agree (store (store mem (offset line 2) [f.red mem p]) (offset line 1) [f.green mem p]) mem p f.size :=
    (store_agree fun y here => apart y (in_of_offset (k := 1) (m := 1) (by omega) (by omega) here)).trans first
  have at_zero : x = line ↔ dist line x = 0 := by
    rw [← eq_offset_iff (by omega), offset_zero]
  have at_one : x = offset line 1 ↔ dist line x = 1 := eq_offset_iff (by omega)
  have at_two : x = offset line 2 ↔ dist line x = 2 := eq_offset_iff (by omega)
  simp only [writePixel]
  rw [within.green _ _ _ first, within.blue _ _ _ second]
  simp only [store_one, at_zero, at_one, at_two]
  show _ = if dist line x < 3 then _ else _
  by_cases inside : dist line x < 3
  · obtain here | here | here : dist line x = 0 ∨ dist line x = 1 ∨ dist line x = 2 := by omega
    all_goals simp [here, part]
  · rw [if_neg inside, if_neg (by omega), if_neg (by omega), if_neg (by omega)]

theorem writePixel_agree (within : f.Within) {p line b : Addr} {n : Nat} (source : Apart line 3 p f.size)
    (apart : Apart line 3 b n) : Agree (writePixel f p line mem) mem b n := by
  intro x inside
  rw [writePixel_apply within source, if_neg fun here => apart x here inside]

/-- Where the bytes of a row come from. -/
def rowPart (f : PixelFormat) (mem : Flat) (row : Addr) (j : Nat) : UInt8 :=
  part f mem (offset row (f.size * (j / 3))) (j % 3)

theorem writeLine_apply (within : f.Within) {row line : Addr} (small : f.size * screenWidth ≤ 2 ^ 32)
    (apart : Apart line (3 * screenWidth) row (f.size * screenWidth)) (x : Addr) :
    writeLine f row line mem x = if In line (3 * screenWidth) x then rowPart f mem row (dist line x) else mem x := by
  have room : 3 * screenWidth ≤ 2 ^ 32 := by decide
  refine (foldl_fill (K := fun m => Agree m mem row (f.size * screenWidth))
    (v := fun i j => part f mem (offset row (f.size * i)) j) room (fun _ _ => rfl) ?_).2 x
  intro i bound m keeps
  have inner : f.size * i + f.size ≤ f.size * screenWidth := by
    rw [← Nat.mul_succ]
    exact Nat.mul_le_mul_left _ bound
  have source : Apart (offset line (3 * i)) 3 (offset row (f.size * i)) f.size := apart.sub (by omega) inner room small
  refine ⟨?_, ?_⟩
  · intro y inside
    rw [writePixel_agree within source (fun z here there => apart z (in_of_offset (by omega) room here) there) y inside]
    exact keeps y inside
  · intro y
    rw [writePixel_apply within source, part_congr within (fun z inside => keeps z (in_of_offset inner small inside))]

theorem rowPart_congr (within : f.Within) {row : Addr} (small : f.size * screenWidth ≤ 2 ^ 32)
    (agree : Agree mem mem' row (f.size * screenWidth)) {j : Nat} (bound : j < 3 * screenWidth) :
    rowPart f mem row j = rowPart f mem' row j := by
  apply part_congr within
  intro x inside
  have inner : f.size * (j / 3) + f.size ≤ f.size * screenWidth := by
    rw [← Nat.mul_succ]
    exact Nat.mul_le_mul_left _ (by omega)
  exact agree x (in_of_offset inner small inside)

def frameBytes (f : PixelFormat) : Nat := f.size * bufferWidth * screenHeight

/-- The part of a row of the frame buffer that is on the screen. -/
theorem row_inside {k : Nat} (bound : k < screenHeight) :
    f.size * bufferWidth * (screenHeight - 1 - k) + f.size * screenWidth ≤ frameBytes f := by
  have visible : f.size * screenWidth ≤ f.size * bufferWidth := Nat.mul_le_mul_left _ (by decide)
  calc f.size * bufferWidth * (screenHeight - 1 - k) + f.size * screenWidth
      ≤ f.size * bufferWidth * (screenHeight - 1 - k) + f.size * bufferWidth := Nat.add_le_add_left visible _
    _ = f.size * bufferWidth * (screenHeight - 1 - k + 1) := (Nat.mul_succ _ _).symm
    _ ≤ frameBytes f := Nat.mul_le_mul_left _ (by omega)

theorem writeRows_apply (within : f.Within) {frame pixelData : Addr} (small : frameBytes f ≤ 2 ^ 32)
    (apart : Apart pixelData pixelBytes frame (frameBytes f)) (x : Addr) :
    writeRows f frame pixelData mem x =
      if In pixelData pixelBytes x then
        rowPart f mem (rowAt f frame (dist pixelData x / (3 * screenWidth))) (dist pixelData x % (3 * screenWidth))
      else mem x := by
  have room : pixelBytes ≤ 2 ^ 32 := by decide
  refine (foldl_fill (K := fun m => Agree m mem frame (frameBytes f))
    (v := fun k j => rowPart f mem (rowAt f frame k) j) room (fun _ _ => rfl) ?_).2 x
  intro k bound m keeps
  have inner := row_inside (f := f) bound
  have narrow : f.size * screenWidth ≤ 2 ^ 32 := by omega
  have within_line : 3 * screenWidth * k + 3 * screenWidth ≤ pixelBytes := by
    rw [← Nat.mul_succ]
    exact Nat.mul_le_mul_left _ bound
  have source : Apart (offset pixelData (3 * screenWidth * k)) (3 * screenWidth) (rowAt f frame k) (f.size * screenWidth) :=
    apart.sub within_line inner room small
  have wrote : ∀ y, writeLine f _ _ m y = _ := fun y => writeLine_apply within narrow source y
  refine ⟨?_, ?_⟩
  · intro y inside
    rw [wrote, if_neg fun here => apart y (in_of_offset within_line room here) inside]
    exact keeps y inside
  · intro y
    rw [wrote]
    by_cases here : In (offset pixelData (3 * screenWidth * k)) (3 * screenWidth) y
    · rw [if_pos here, if_pos here]
      exact rowPart_congr within narrow (fun z inside => keeps z (in_of_offset inner small inside)) here
    · rw [if_neg here, if_neg here]

end

/-! ## What the file shows -/

/-- What the frame buffer shows. -/
def screen (f : PixelFormat) (mem : Flat) (frame : Addr) : Picture where
  width := screenWidth
  height := screenHeight
  pixel x y :=
    let p := offset frame (f.size * (bufferWidth * y + x))
    ⟨f.red mem p, f.green mem p, f.blue mem p⟩

theorem sizeof_header : sizeof BitmapHeader = 54 := rfl

def fileBytes : Nat := pixelBytes + sizeof BitmapHeader

theorem within_pixel (format : DisplayFormat) : format.pixel.Within := by
  have same_half : ∀ mem mem' p, Agree mem mem' p 2 → half mem p = half mem' p := fun mem mem' p agree =>
    load_congr (by decide) agree
  cases format with
  | rgba8888 =>
      refine ⟨?_, ?_, ?_⟩
      · intro mem mem' p agree
        have first : In p 4 (offset p 0) := in_offset (by decide) (by decide)
        rw [offset_zero] at first
        exact agree p first
      · intro mem mem' p agree
        exact agree _ (in_offset (by decide) (by decide))
      · intro mem mem' p agree
        exact agree _ (in_offset (by decide) (by decide))
  | rgb565 =>
      constructor
      all_goals
        intro mem mem' p agree
        simp only [DisplayFormat.pixel, format565, same_half mem mem' p agree]
  | rgba5551 =>
      constructor
      all_goals
        intro mem mem' p agree
        simp only [DisplayFormat.pixel, format5551, same_half mem mem' p agree]
  | rgba4444 =>
      constructor
      all_goals
        intro mem mem' p agree
        simp only [DisplayFormat.pixel, format4444, same_half mem mem' p agree]

theorem frameBytes_small (format : DisplayFormat) : frameBytes format.pixel ≤ 2 ^ 32 := by
  cases format <;> decide

section
variable {frame tmpBuf : Addr} {format : DisplayFormat} {mem : Flat}

theorem bitmapBuffer_eq : bitmapBuffer frame tmpBuf format mem =
    writeRows format.pixel frame (offset tmpBuf (sizeof BitmapHeader)) (save mem tmpBuf header) := by
  cases format <;> rfl

/-- The buffer is apart from the frame buffer. -/
abbrev Buffered (frame tmpBuf : Addr) (format : DisplayFormat) : Prop :=
  Apart tmpBuf fileBytes frame (frameBytes format.pixel)

theorem Buffered.pixels (buffered : Buffered frame tmpBuf format) :
    Apart (offset tmpBuf (sizeof BitmapHeader)) pixelBytes frame (frameBytes format.pixel) := fun x here there =>
  buffered x (in_of_offset (by rw [fileBytes, Nat.add_comm]) (by decide) here) there

theorem Buffered.header (buffered : Buffered frame tmpBuf format) :
    Agree (save mem tmpBuf header) mem frame (frameBytes format.pixel) :=
  save_agree (buffered.shrink (by decide) (Nat.le_refl _))

theorem buffer_header (buffered : Buffered frame tmpBuf format) :
    bytesAt (bitmapBuffer frame tmpBuf format mem) tmpBuf (sizeof BitmapHeader) = encode header := by
  rw [bitmapBuffer_eq, ← bytesAt_save (by decide) mem tmpBuf header]
  apply bytesAt_congr (by decide)
  intro x inside
  rw [writeRows_apply (within_pixel format) (frameBytes_small format) buffered.pixels, if_neg]
  rw [in_offset_iff (by decide)]
  have less : dist tmpBuf x < sizeof BitmapHeader := inside
  omega

theorem buffer_pixel (buffered : Buffered frame tmpBuf format) {x y j : Nat} (column : x < screenWidth)
    (row : y < screenHeight) (three : j < 3) :
    bitmapBuffer frame tmpBuf format mem
        (offset tmpBuf (sizeof BitmapHeader + (3 * screenWidth * (screenHeight - 1 - y) + (3 * x + j)))) =
      part format.pixel mem (offset frame (format.pixel.size * (bufferWidth * y + x))) j := by
  have within := within_pixel format
  have small := frameBytes_small format
  obtain ⟨k, below⟩ : ∃ k, k = screenHeight - 1 - y := ⟨_, rfl⟩
  have up : screenHeight - 1 - k = y := by omega
  have inside : 3 * x + j < 3 * screenWidth := by omega
  have stays : 3 * screenWidth * k + (3 * x + j) < pixelBytes := by
    calc 3 * screenWidth * k + (3 * x + j) < 3 * screenWidth * k + 3 * screenWidth := Nat.add_lt_add_left inside _
      _ = 3 * screenWidth * (k + 1) := (Nat.mul_succ _ _).symm
      _ ≤ pixelBytes := Nat.mul_le_mul_left _ (by omega)
  have room : pixelBytes ≤ 2 ^ 32 := by decide
  have last := row_inside (f := format.pixel) (k := k) (by omega)
  have same : rowPart format.pixel (save mem tmpBuf header) (rowAt format.pixel frame k) (3 * x + j) =
      rowPart format.pixel mem (rowAt format.pixel frame k) (3 * x + j) := by
    apply rowPart_congr within (by omega) _ inside
    intro z here
    exact buffered.header z (in_of_offset last small here)
  rw [← below, ← offset_offset, bitmapBuffer_eq, writeRows_apply within small buffered.pixels,
    if_pos (in_offset room stays), dist_offset (by omega), Nat.mul_add_div (by decide), Nat.mul_add_mod,
    Nat.div_eq_of_lt inside, Nat.mod_eq_of_lt inside, Nat.add_zero, same]
  rw [rowPart, Nat.mul_add_div (by decide), Nat.mul_add_mod, Nat.div_eq_of_lt three, Nat.mod_eq_of_lt three,
    Nat.add_zero, rowAt, up, offset_offset, Nat.mul_assoc, ← Nat.mul_add]

/-- What `bitmapWrite` has ready to write. -/
def bitmapFile (frame tmpBuf : Addr) (format : DisplayFormat) (mem : Flat) : Bytes :=
  bytesAt (bitmapBuffer frame tmpBuf format mem) tmpBuf fileBytes

theorem header_bitmapFile (buffered : Buffered frame tmpBuf format) :
    decode (bitmapFile frame tmpBuf format mem) = header := by
  have start : (bitmapFile frame tmpBuf format mem).take (sizeof BitmapHeader) = encode header := by
    rw [bitmapFile, take_bytesAt (by decide), buffer_header buffered]
  rw [← List.take_append_drop (sizeof BitmapHeader) (bitmapFile frame tmpBuf format mem), start, Packed.decode_encode]

theorem buffer_filesize (buffered : Buffered frame tmpBuf format) :
    (load BitmapHeader (bitmapBuffer frame tmpBuf format mem) tmpBuf).filesize.toNat = fileBytes := by
  rw [load, buffer_header buffered, Packed.decode_encode_self]
  decide

theorem bitmapFile_pixel (buffered : Buffered frame tmpBuf format) {x y j : Nat} (column : x < screenWidth)
    (row : y < screenHeight) (three : j < 3) :
    (bitmapFile frame tmpBuf format mem).getD
        (sizeof BitmapHeader + 3 * screenWidth * (screenHeight - 1 - y) + 3 * x + j) 0 =
      part format.pixel mem (offset frame (format.pixel.size * (bufferWidth * y + x))) j := by
  have line : 3 * screenWidth * (screenHeight - 1 - y) + 3 * screenWidth ≤ pixelBytes := by
    rw [← Nat.mul_succ]
    exact Nat.mul_le_mul_left _ (by omega)
  rw [bitmapFile, getD_bytesAt (by rw [fileBytes]; omega), Nat.add_assoc, Nat.add_assoc, buffer_pixel buffered column row three]

/-- The file shows what the frame buffer shows. -/
theorem readBitmap_bitmapFile (buffered : Buffered frame tmpBuf format) :
    ∃ pic, readBitmap (bitmapFile frame tmpBuf format mem) = some pic ∧
      pic.width = screenWidth ∧ pic.height = screenHeight ∧ ∀ x < screenWidth, ∀ y < screenHeight,
        pic.pixel x y = (screen format.pixel mem frame).pixel x y := by
  have length : (bitmapFile frame tmpBuf format mem).length = fileBytes := length_bytesAt _ _ _
  have row : stride screenWidth = 3 * screenWidth := by decide
  unfold readBitmap
  rw [header_bitmapFile buffered, length, if_pos (by decide)]
  refine ⟨_, rfl, rfl, rfl, ?_⟩
  intro x column y below
  have shown : ∀ j < 3, (bitmapFile frame tmpBuf format mem).getD _ 0 = _ := fun j three =>
    bitmapFile_pixel buffered column below three
  have start : header.offset.toNat = sizeof BitmapHeader := by decide
  have wide : stride header.width.toNat = 3 * screenWidth := by decide
  have high : header.height.toNat = screenHeight := by decide
  have blue := shown 0 (by decide)
  have green := shown 1 (by decide)
  have red := shown 2 (by decide)
  rw [← start, ← wide, ← high] at blue green red
  show Rgb.mk _ _ _ = Rgb.mk _ _ _
  rw [Rgb.mk.injEq]
  exact ⟨red, green, blue⟩

end

/-! ## Writing the file -/

structure Disk where
  opened : Bool
  contents : Bytes
  failed : Bool

def Disk.create (_ : Disk) : Disk := ⟨true, [], false⟩

def Disk.fail (d : Disk) : Disk := { d with failed := true }

def Disk.append (d : Disk) (data : Bytes) : Disk := { d with contents := d.contents ++ data }

def Disk.close (d : Disk) : Disk := { d with opened := false }

/-- The file is truncated when it opens, and a write takes a part of what it is given. -/
inductive DiskAnswers : Disk → (q : FileCall) → q.Answer → Disk → Prop
  | refused (d : Disk) : DiskAnswers d .sceIoOpen false d
  | opens (d : Disk) : DiskAnswers d .sceIoOpen true d.create
  | fails (d : Disk) (data : Bytes) (ret : Int) (none : ret ≤ 0) : DiskAnswers d (.sceIoWrite data) ret d.fail
  | writes (d : Disk) (data : Bytes) (n : Nat) (some : 0 < n) (most : n ≤ data.length) :
      DiskAnswers d (.sceIoWrite data) (n : Int) (d.append (data.take n))
  | closes (d : Disk) : DiskAnswers d .sceIoClose () d.close

def disk : Prog.Contract FileCall FileCall.Answer Disk where
  pre d
    | .sceIoOpen => d.opened = false
    | .sceIoWrite _ => d.opened = true ∧ d.failed = false
    | .sceIoClose => d.opened = true
  post := DiskAnswers

/-- The file has got the start of `data`, and the whole of it when no write failed. -/
structure Written (d : Disk) (data : Bytes) : Prop where
  start : d.contents <+: data
  whole : d.failed = false → d.contents = data

theorem wp_fixedWriteLoop (turns : Nat) {rest : Bytes} {writelen : Int} {d : Disk} (enough : rest.length ≤ turns)
    (opened : d.opened = true) (fine : d.failed = false) :
    Prog.wp disk (fixedWriteLoop turns rest writelen)
      (fun _ d' => d'.opened = true ∧ Written d' (d.contents ++ rest)) d := by
  induction turns generalizing rest writelen d with
  | zero =>
      have none : rest = [] := List.eq_nil_of_length_eq_zero (Nat.le_zero.1 enough)
      rw [none, List.append_nil]
      exact ⟨opened, List.prefix_rfl, fun _ => rfl⟩
  | succ turns ih =>
      rw [fixedWriteLoop]
      apply Prog.wp_ite
      · intro none
        rw [none, List.append_nil]
        exact ⟨opened, List.prefix_rfl, fun _ => rfl⟩
      intro more
      refine ⟨⟨opened, fine⟩, ?_⟩
      intro ret d' answer
      apply Prog.wp_ite
      · intro failed
        cases answer with
        | fails _ _ none => exact ⟨opened, List.prefix_append _ _, fun done => by cases done⟩
        | writes _ n some most =>
          have none : (n : Int) ≤ 0 := failed
          omega
      intro wrote
      cases answer with
      | fails _ _ none => contradiction
      | writes _ n some most =>
          have shorter : (rest.drop n).length ≤ turns := by
            rw [List.length_drop]
            omega
          have next : Prog.wp disk (fixedWriteLoop turns (rest.drop n) (writelen + n)) _ (d.append (rest.take n)) :=
            ih shorter opened fine
          rw [Disk.append, List.append_assoc, List.take_append_drop] at next
          exact next

theorem wp_fixedWrite (data : Bytes) {d : Disk} (opened : d.opened = true) (fine : d.failed = false) :
    Prog.wp disk (fixedWrite data) (fun _ d' => d'.opened = true ∧ Written d' (d.contents ++ data)) d :=
  wp_fixedWriteLoop data.length (Nat.le_refl _) opened fine

section
variable {frame tmpBuf : Addr} {format : DisplayFormat} {mem : Flat}

/-- What is left when `bitmapWrite` returns: nothing has changed when the file does not open, and
otherwise the file is closed and has the bitmap or, when a write failed, the start of it. -/
structure Saved (frame tmpBuf : Addr) (format : DisplayFormat) (mem : Flat) (before : Disk) (ret : Int) (after : Disk) :
    Prop where
  refused : ret ≠ 0 → ret = -1 ∧ after = before
  closed : after.opened = false
  start : ret = 0 → after.contents <+: bitmapFile frame tmpBuf format mem
  shows : ret = 0 → after.failed = false → ∃ pic, readBitmap after.contents = some pic ∧
    pic.width = screenWidth ∧ pic.height = screenHeight ∧ ∀ x < screenWidth, ∀ y < screenHeight,
      pic.pixel x y = (screen format.pixel mem frame).pixel x y

theorem wp_saving {file : Bytes} (isFile : file = bitmapFile frame tmpBuf format mem) (buffered : Buffered frame tmpBuf format)
    (before : Disk) :
    Prog.wp disk (do
        let _ ← fixedWrite file
        Prog.call FileCall.sceIoClose
        return 0) (Saved frame tmpBuf format mem before) before.create := by
  rw [Prog.wp_bind]
  apply Prog.wp_mono _ (wp_fixedWrite file rfl rfl)
  intro _ d' wrote
  refine ⟨wrote.1, ?_⟩
  intro _ d'' answer
  cases answer
  have written : Written d' file := wrote.2
  rw [isFile] at written
  refine ⟨fun bad => absurd rfl bad, rfl, fun _ => written.start, ?_⟩
  intro _ fine
  show ∃ pic, readBitmap d'.contents = some pic ∧ _
  rw [written.whole fine]
  exact readBitmap_bitmapFile buffered

/-- A frame buffer of one colour. -/
def plainMem : Flat := fun _ => 0x7F

end

end Psplink.Display
