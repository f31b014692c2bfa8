import Mathlib.Data.List.Basic
import Mathlib.Logic.Function.Basic
import Psplink.Lib.CStr
import Psplink.Shell.Delivery

/-!
# The line editor

`shellProcessChar` of psplink/shell.c with `process_cli` and `cli_handle_escape`: the keys of the serial console edit a
line in an array, and the arrows bring back the lines before. What another key prints or starts does not touch the arrays.
-/

namespace Psplink.Shell.LineEditor
open Psplink.Lib

def cliMax : Nat := 128
def cliHistsize : Nat := 8

/-- What `g_readchar` and `g_readcharwithtimeout` return, -1 where there is no character. -/
abbrev Reading := Option UInt8

/-! ## The code -/

def toInt : Reading → Int
  | none => -1
  | some b => b.toNat

def front (memory : Int → UInt8) (base : Int) (n : Nat) : Bytes := (List.range n).map fun (i : Nat) => memory (base + (i : Int))

/-- As a `char`, which is signed. -/
def toChar (reading : Reading) : Int := (toInt reading).bmod 256

/-- Which call the next character is for. -/
inductive Phase where
  | readchar
  | escape
  | bracket
  | exited
deriving DecidableEq

/-- The arrays, with every index that is written to. The rows of `g_lastcli` follow each other. -/
structure Editor where
  cli : Int → UInt8
  cliPos : Int
  cliSize : Int
  lastcli : Int → UInt8
  lastcliPos : Int
  currcliPos : Int
  phase : Phase
  /-- The lines that `psplinkParseCommand` is given. -/
  parsed : List Bytes
  cliStores : List Int
  lastcliStores : List Int
  /-- It has read behind the end of `g_lastcli`. -/
  strayed : Bool

namespace Editor

def setCli (i : Int) (c : UInt8) (s : Editor) : Editor :=
  { s with cli := Function.update s.cli i c, cliStores := s.cliStores ++ [i] }

/-- `memcpy` of the line to a row. -/
def keep (row : Int) (s : Editor) : Editor :=
  { s with
    lastcli := fun i => if cliMax * row ≤ i ∧ i < cliMax * row + cliMax then s.cli (i - cliMax * row) else s.lastcli i
    lastcliStores := s.lastcliStores ++ (List.range cliMax).map fun (i : Nat) => cliMax * row + (i : Int) }

def line (s : Editor) : Bytes := (front s.cli 0 cliMax).takeWhile (· ≠ 0)

/-- `sendMbx` is what each call of `sceKernelSendMbx` returns. -/
def psplinkParseCommand (sendMbx : Nat → Int) (s : Editor) : Int × Editor :=
  (sendMbx s.parsed.length, { s with parsed := s.parsed ++ [s.line] })

def processCli (sendMbx : Nat → Int) (s : Editor) : Int × Editor :=
  let s := { s.setCli s.cliPos 0 with cliPos := 0 }
  let s := s.keep s.lastcliPos
  let s := { s with lastcliPos := (s.lastcliPos + 1) % cliHistsize }
  psplinkParseCommand sendMbx { s with currcliPos := s.lastcliPos }

/-- The loop over `src` and `dst`, with what is left of `g_lastcli`. -/
def copy : Nat → Int → Int → Editor → Editor
  | 0, _, _, s => { s with strayed := true }
  | left + 1, src, dst, s =>
      if s.lastcli src = 0 then s.setCli dst 0
      else
        let s' := s.setCli dst (s.lastcli src)
        copy left (src + 1) (dst + 1) { s' with cliPos := s'.cliPos + 1, cliSize := s'.cliSize + 1 }

def fetch (pos : Int) (s : Editor) : Editor :=
  if s.lastcli (cliMax * pos) = 0 then s
  else
    copy (cliMax * cliHistsize - cliMax * pos).toNat (cliMax * pos) 0 { s with currcliPos := pos, cliPos := 0, cliSize := 0 }

def up (s : Editor) : Editor :=
  let pos := s.currcliPos - 1
  s.fetch (if pos < 0 then pos + cliHistsize else pos)

def down (s : Editor) : Editor := s.fetch ((s.currcliPos + 1) % cliHistsize)

/-- From the first call of `g_readcharwithtimeout` to the second. -/
def cliHandleEscape (ch : Int) (s : Editor) : Editor :=
  if ch ≠ -1 then
    if ch = 91 then { s with phase := .bracket } else { s with phase := .readchar }
  else { s with phase := .readchar }

def handleArrow (ch : Int) (s : Editor) : Editor :=
  let s' := if ch = 65 then s.up else if ch = 66 then s.down else s
  { s' with phase := .readchar }

def backspace (s : Editor) : Editor :=
  if 0 < s.cliPos then setCli (s.cliPos - 1) 0 { s with cliPos := s.cliPos - 1 } else s

def putchar (ch : Int) (s : Editor) : Editor :=
  if s.cliPos < cliMax - 1 ∧ 32 ≤ ch then
    setCli (s.cliPos + 1) 0 { s.setCli s.cliPos (UInt8.ofNat ch.toNat) with cliPos := s.cliPos + 1 }
  else s

def shellProcessChar (sendMbx : Nat → Int) (ch : Int) (s : Editor) : Editor :=
  if ch = -1 then s
  else if ch = 4 then { s with phase := .exited }
  else if ch = 8 ∨ ch = 127 then s.backspace
  else if ch = 9 then s
  else if ch = 13 ∨ ch = 10 then
    let (ret, s') := s.processCli sendMbx
    if ret = cmdExitShell then { s' with phase := .exited } else s'
  -- The debugger and the reset.
  else if ch = 11 ∨ ch = 18 ∨ ch = 19 then s
  else if ch = 27 then { s with phase := .escape }
  else s.putchar ch

def step (sendMbx : Nat → Int) (s : Editor) (reading : Reading) : Editor :=
  match s.phase with
  | .readchar => s.shellProcessChar sendMbx (toInt reading)
  | .escape => s.cliHandleEscape (toChar reading)
  | .bracket => s.handleArrow (toChar reading)
  | .exited => s

def start : Editor := ⟨fun _ => 0, 0, 0, fun _ => 0, 0, 0, .readchar, [], [], [], false⟩

def run (sendMbx : Nat → Int) (readings : List Reading) : Editor := readings.foldl (step sendMbx) start

end Editor

/-! ## Lines of text -/

inductive Key where
  | letter (c : UInt8)
  | backspace
  | enter
  | up
  | down
  | exit
  | other
deriving DecidableEq

/-- What a character stands for outside of an escape sequence. -/
def key (c : UInt8) : Key :=
  if c = 4 then .exit
  else if c = 8 ∨ c = 127 then .backspace
  else if c = 13 ∨ c = 10 then .enter
  else if 32 ≤ c then .letter c
  else .other

def arrow : Reading → Key
  | some c => if c = 65 then .up else if c = 66 then .down else .other
  | none => .other

/-- Where nothing comes in time the escape sequence ends. -/
def keys : List Reading → List Key
  | [] => []
  | none :: readings => .other :: keys readings
  | some c :: readings =>
      if c = 27 then
        match readings with
        | [] => []
        | next :: readings =>
            if next = some 91 then
              match readings with
              | [] => []
              | last :: readings => arrow last :: keys readings
            else .other :: keys readings
      else key c :: keys readings

/-- A line that is edited, and all lines before. The arrows are so many lines back, in a ring of eight. -/
structure Line where
  text : Bytes
  lines : List Bytes
  back : Nat
  closed : Bool

namespace Line

def empty : Line := ⟨[], [], 0, false⟩

/-- The line so many lines back; the ring is where it was after eight. -/
def entry (l : Line) (back : Nat) : Bytes := l.lines.reverse.getD ((back + 7) % 8) []

def fetch (back : Nat) (l : Line) : Line := if l.entry back = [] then l else { l with text := l.entry back, back := back }

def press (sendMbx : Nat → Int) (l : Line) (key : Key) : Line :=
  if l.closed then l
  else
    match key with
    | .letter c => if l.text.length < 127 then { l with text := l.text ++ [c] } else l
    | .backspace => { l with text := l.text.dropLast }
    | .enter => ⟨[], l.lines ++ [l.text], 0, sendMbx l.lines.length = cmdExitShell⟩
    | .up => l.fetch ((l.back + 1) % 8)
    | .down => l.fetch ((l.back + 7) % 8)
    | .exit => { l with closed := true }
    | .other => l

def edit (sendMbx : Nat → Int) (keys : List Key) : Line := keys.foldl (press sendMbx) empty

end Line

structure Safe (s : Editor) : Prop where
  cliPos : 0 ≤ s.cliPos ∧ s.cliPos ≤ 127
  cliStores : ∀ i ∈ s.cliStores, 0 ≤ i ∧ i < cliMax
  lastcliStores : ∀ i ∈ s.lastcliStores, 0 ≤ i ∧ i < cliMax * cliHistsize
  terminated : ∀ row : Nat, row < cliHistsize → ∃ i : Nat, i < cliMax ∧ s.lastcli (cliMax * row + i) = 0
  strayed : s.strayed = false

/-! ## Strings in memory -/

section Memory

variable {memory memory' : Int → UInt8} {base : Int} {text : Bytes}

@[simp] theorem length_front (n : Nat) : (front memory base n).length = n := by simp [front]

theorem front_congr {n : Nat} (same : ∀ i, base ≤ i → i < base + n → memory' i = memory i) :
    front memory' base n = front memory base n :=
  List.map_congr_left fun i mem => by
    have less := List.mem_range.mp mem
    exact same _ (by omega) (by omega)

theorem front_succ (n : Nat) : front memory base (n + 1) = front memory base n ++ [memory (base + n)] := by
  rw [front, List.range_succ, List.map_append]
  rfl

theorem front_cons (n : Nat) : front memory base (n + 1) = memory base :: front memory (base + 1) n := by
  rw [front, List.range_succ_eq_map, List.map_cons, List.map_map]
  refine congrArg₂ List.cons (by simp) (List.map_congr_left fun i _ => congrArg memory ?_)
  change base + ((i + 1 : Nat) : Int) = _
  omega

/-- A text without NULs stands there, with a NUL. -/
structure Stands (memory : Int → UInt8) (base : Int) (text : Bytes) : Prop where
  front : front memory base text.length = text
  ends : memory (base + text.length) = 0
  nulFree : 0 ∉ text

theorem Stands.congr (stands : Stands memory base text)
    (same : ∀ i, base ≤ i → i ≤ base + text.length → memory' i = memory i) : Stands memory' base text where
  front := (front_congr fun i low high => same i low (by omega)).trans stands.front
  ends := (same _ (by omega) (by omega)).trans stands.ends
  nulFree := stands.nulFree

theorem Stands.tail {c : UInt8} (stands : Stands memory base (c :: text)) : Stands memory (base + 1) text where
  front := by
    have front := stands.front
    rw [List.length_cons, front_cons] at front
    exact (List.cons.inj front).2
  ends := by
    have ends := stands.ends
    rw [List.length_cons] at ends
    rwa [Int.add_assoc, Int.add_comm 1]
  nulFree := fun mem => stands.nulFree (List.mem_cons_of_mem c mem)

theorem Stands.head {c : UInt8} (stands : Stands memory base (c :: text)) : memory base = c ∧ c ≠ 0 := by
  have front := stands.front
  rw [List.length_cons, front_cons] at front
  exact ⟨(List.cons.inj front).1, fun nul => stands.nulFree (nul ▸ List.mem_cons_self)⟩

theorem Stands.nul (stands : Stands memory base []) : memory base = 0 := by
  have ends := stands.ends
  rwa [List.length_nil, Int.natCast_zero, Int.add_zero] at ends

theorem Stands.takeWhile (stands : Stands memory base text) {n : Nat} (room : text.length < n) :
    (LineEditor.front memory base n).takeWhile (· ≠ 0) = text := by
  induction text generalizing base n with
  | nil =>
      cases n with
      | zero => omega
      | succ n => rw [front_cons, stands.nul]; rfl
  | cons c text ih =>
      cases n with
      | zero => omega
      | succ n =>
          obtain ⟨here, some_⟩ := stands.head
          rw [List.length_cons] at room
          rw [front_cons, here, List.takeWhile_cons, if_pos (decide_eq_true some_), ih stands.tail (by omega)]

def pasted (memory : Int → UInt8) (base : Int) : Bytes → Int → UInt8
  | [] => Function.update memory base 0
  | c :: text => pasted (Function.update memory base c) (base + 1) text

theorem pasted_before {i : Int} (before : i < base) : pasted memory base text i = memory i := by
  induction text generalizing memory base with
  | nil => exact Function.update_of_ne (by omega) _ _
  | cons c text ih => rw [pasted, ih (by omega), Function.update_of_ne (by omega)]

theorem front_pasted (memory : Int → UInt8) (base : Int) (text : Bytes) :
    front (pasted memory base text) base text.length = text := by
  induction text generalizing memory base with
  | nil => rfl
  | cons c text ih =>
      rw [List.length_cons, front_cons, pasted, ih, pasted_before (by omega), Function.update_self]

end Memory

/-! ## The editor edits the line -/

namespace Editor

variable {s : Editor} {text : Bytes}

/-- The loop ends at the NUL of the row. -/
theorem copy_eq {left : Nat} {src dst : Int} (stands : Stands s.lastcli src text) (room : text.length < left) :
    ∃ stores, (∀ i ∈ stores, dst ≤ i ∧ i ≤ dst + text.length) ∧
      copy left src dst s = { s with
        cli := pasted s.cli dst text
        cliPos := s.cliPos + text.length
        cliSize := s.cliSize + text.length
        cliStores := s.cliStores ++ stores } := by
  induction text generalizing left src dst s with
  | nil =>
      cases left with
      | zero => omega
      | succ left =>
          refine ⟨[dst], fun i mem => ?_, ?_⟩
          · rw [List.mem_singleton.mp mem, List.length_nil]
            omega
          · rw [copy, if_pos stands.nul, List.length_nil, Int.natCast_zero, Int.add_zero, Int.add_zero]
            rfl
  | cons c text ih =>
      cases left with
      | zero => omega
      | succ left =>
          obtain ⟨here, some_⟩ := stands.head
          rw [List.length_cons] at room ⊢
          let s' := s.setCli dst (s.lastcli src)
          obtain ⟨stores, inside, rest⟩ := @ih { s' with cliPos := s'.cliPos + 1, cliSize := s'.cliSize + 1 } left
            (src + 1) (dst + 1) stands.tail (by omega)
          refine ⟨dst :: stores, fun i mem => ?_, ?_⟩
          · rcases List.mem_cons.mp mem with rfl | mem
            · omega
            · have := inside i mem
              omega
          · rw [copy, if_neg (here ▸ some_)]
            refine rest.trans ?_
            have count (n : Int) : n + 1 + text.length = n + (text.length + 1 : Nat) := by omega
            simp only [s', setCli, here, pasted, count, List.append_assoc, List.singleton_append]

/-- The text stands in front of the place to write to, and each line before in its row. -/
structure Holds (s : Editor) (l : Line) : Prop where
  cliPos : s.cliPos = l.text.length
  short : l.text.length ≤ 127
  nulFree : 0 ∉ l.text
  text : front s.cli 0 l.text.length = l.text
  lastcliPos : 0 ≤ s.lastcliPos ∧ s.lastcliPos < 8
  currcliPos : s.currcliPos = (s.lastcliPos - l.back) % 8
  back : l.back < 8
  rows : ∀ k : Nat, k < 8 → Stands s.lastcli (cliMax * ((s.lastcliPos - 1 - (k : Int)) % 8)) (l.lines.reverse.getD k []) ∧
    (l.lines.reverse.getD k []).length ≤ 127
  parsed : s.parsed = l.lines
  closed : l.closed = true ↔ s.phase = .exited
  cliStores : ∀ i ∈ s.cliStores, 0 ≤ i ∧ i < cliMax
  lastcliStores : ∀ i ∈ s.lastcliStores, 0 ≤ i ∧ i < cliMax * cliHistsize
  strayed : s.strayed = false

variable {l : Line} {sendMbx : Nat → Int}

theorem forall_append {α : Type} {P : α → Prop} {xs ys : List α} (front : ∀ x ∈ xs, P x) (back : ∀ y ∈ ys, P y) :
    ∀ x ∈ xs ++ ys, P x := fun x mem => (List.mem_append.mp mem).elim (front x) (back x)

theorem holds_start : Holds start .empty := by
  refine ⟨rfl, by decide, List.not_mem_nil, rfl, by decide, rfl, by decide, fun k less => ?_, rfl, by decide,
    List.forall_mem_nil _, List.forall_mem_nil _, rfl⟩
  rw [Line.empty, List.reverse_nil, List.getD_nil]
  exact ⟨⟨rfl, rfl, List.not_mem_nil⟩, by decide⟩

theorem Holds.phase (holds : Holds s l) (running : ¬ l.closed = true) {phase : Phase} (stays : phase ≠ .exited) :
    Holds { s with phase := phase } l :=
  { holds with closed := iff_of_false running stays }

theorem Holds.running (holds : Holds s l) (ready : s.phase = .readchar) : ¬ l.closed = true := fun closed => by
  have exited := holds.closed.mp closed
  rw [ready] at exited
  cases exited

theorem Holds.exit (holds : Holds s l) : Holds { s with phase := .exited } { l with closed := true } :=
  { holds with closed := iff_of_true rfl rfl }

theorem holds_backspace (holds : Holds s l) : Holds s.backspace { l with text := l.text.dropLast } := by
  have pos := holds.cliPos
  have short := holds.short
  unfold backspace
  by_cases some_ : 0 < s.cliPos
  · rw [if_pos some_]
    have size : l.text.dropLast.length = l.text.length - 1 := List.length_dropLast
    refine { holds with cliPos := ?_, short := ?_, nulFree := ?_, text := ?_, cliStores := ?_ }
    · change s.cliPos - 1 = l.text.dropLast.length
      omega
    · change l.text.dropLast.length ≤ 127
      omega
    · exact fun mem => holds.nulFree (l.text.dropLast_subset mem)
    · change front (Function.update s.cli (s.cliPos - 1) 0) 0 l.text.dropLast.length = l.text.dropLast
      rw [front_congr fun i low high => Function.update_of_ne (by omega) _ _]
      have text := holds.text
      have last : l.text.length = l.text.dropLast.length + 1 := by omega
      rw [last, front_succ] at text
      have := congrArg List.dropLast text
      rwa [List.dropLast_concat] at this
    · refine forall_append holds.cliStores fun i mem => ?_
      rw [List.mem_singleton.mp mem]
      change 0 ≤ s.cliPos - 1 ∧ s.cliPos - 1 < 128
      omega
  · rw [if_neg some_]
    have none_ : l.text = [] := List.length_eq_zero_iff.mp (by omega)
    have same : ({ l with text := l.text.dropLast } : Line) = l := by
      rw [none_, List.dropLast_nil, ← none_]
    rw [same]
    exact holds

theorem holds_putchar (holds : Holds s l) {c : UInt8} (printable : 32 ≤ c) :
    Holds (s.putchar c.toNat) (if l.text.length < 127 then { l with text := l.text ++ [c] } else l) := by
  have pos := holds.cliPos
  have short := holds.short
  have code : 32 ≤ c.toNat := UInt8.le_iff_toNat_le.mp printable
  have cap : (cliMax : Int) - 1 = 127 := rfl
  unfold putchar
  by_cases room : l.text.length < 127
  · rw [if_pos room, if_pos ⟨by omega, by omega⟩, Int.toNat_natCast, UInt8.ofNat_toNat]
    have size : (l.text ++ [c]).length = l.text.length + 1 := List.length_append
    refine { holds with cliPos := ?_, short := ?_, nulFree := ?_, text := ?_, cliStores := ?_ }
    · change s.cliPos + 1 = (l.text ++ [c]).length
      omega
    · change (l.text ++ [c]).length ≤ 127
      omega
    · intro mem
      rcases List.mem_append.mp mem with before | last
      · exact holds.nulFree before
      · rw [← List.mem_singleton.mp last] at code
        exact absurd code (by decide)
    · change front (Function.update (Function.update s.cli s.cliPos c) (s.cliPos + 1) 0) 0 (l.text ++ [c]).length = l.text ++ [c]
      rw [size, front_succ, Int.zero_add, ← pos, Function.update_of_ne (by omega), Function.update_self]
      rw [front_congr fun i low high => ?_, holds.text]
      rw [Function.update_of_ne (by omega), Function.update_of_ne (by omega)]
    · refine forall_append (forall_append holds.cliStores fun i mem => ?_) fun i mem => ?_
      · rw [List.mem_singleton.mp mem]
        change 0 ≤ s.cliPos ∧ s.cliPos < 128
        omega
      · rw [List.mem_singleton.mp mem]
        change 0 ≤ s.cliPos + 1 ∧ s.cliPos + 1 < 128
        omega
  · rw [if_neg room, if_neg fun both => room (by omega)]
    exact holds

theorem holds_fetch (holds : Holds s l) {pos : Int} {back : Nat} (place : pos = (s.lastcliPos - back) % 8)
    (less : back < 8) : Holds (s.fetch pos) (l.fetch back) := by
  have bound := holds.lastcliPos
  have place' : pos = (s.lastcliPos - 1 - ((back + 7) % 8 : Nat)) % 8 := by omega
  obtain ⟨stands, short⟩ := holds.rows ((back + 7) % 8) (Nat.mod_lt _ (Nat.succ_pos 7))
  rw [← place'] at stands
  unfold fetch Line.fetch Line.entry
  generalize l.lines.reverse.getD ((back + 7) % 8) [] = text at stands short ⊢
  cases text with
  | nil =>
      rw [if_pos stands.nul, if_pos rfl]
      exact holds
  | cons c text =>
      rw [if_neg (stands.head.1 ▸ stands.head.2), if_neg (List.cons_ne_nil c text)]
      have room : (c :: text).length < (cliMax * cliHistsize - cliMax * pos : Int).toNat := by
        change _ < ((128 : Int) * 8 - 128 * pos).toNat
        omega
      obtain ⟨stores, inside, copied⟩ := @copy_eq { s with currcliPos := pos, cliPos := 0, cliSize := 0 } _ _ _ 0 stands room
      rw [copied]
      refine { holds with
        cliPos := Int.zero_add _, short := short, nulFree := stands.nulFree, text := front_pasted _ _ _, currcliPos := place,
        back := less, cliStores := ?_ }
      refine forall_append holds.cliStores fun i mem => ?_
      have := inside i mem
      change 0 ≤ i ∧ i < 128
      omega

theorem holds_up (holds : Holds s l) : Holds s.up (l.fetch ((l.back + 1) % 8)) := by
  have bound := holds.lastcliPos
  have place := holds.currcliPos
  have less := holds.back
  refine holds_fetch holds ?_ (Nat.mod_lt _ (by decide))
  change (if s.currcliPos - 1 < 0 then s.currcliPos - 1 + 8 else s.currcliPos - 1) = _
  split <;> omega

theorem holds_down (holds : Holds s l) : Holds s.down (l.fetch ((l.back + 7) % 8)) := by
  have place := holds.currcliPos
  refine holds_fetch holds ?_ (Nat.mod_lt _ (by decide))
  change (s.currcliPos + 1) % 8 = _
  omega

theorem keep_row (stands : Stands s.cli 0 text) (short : text.length ≤ 127) (row : Int) :
    Stands (s.keep row).lastcli (cliMax * row) text := by
  have kept (i : Nat) (less : i ≤ text.length) : (s.keep row).lastcli (cliMax * row + i) = s.cli (0 + i) := by
    change (if (128 : Int) * row ≤ 128 * row + i ∧ 128 * row + (i : Int) < 128 * row + 128 then
      s.cli (128 * row + i - 128 * row) else s.lastcli (128 * row + i)) = _
    rw [if_pos (by omega)]
    exact congrArg s.cli (by omega)
  refine ⟨?_, (kept _ (Nat.le_refl _)).trans stands.ends, stands.nulFree⟩
  refine Eq.trans ?_ stands.front
  exact List.map_congr_left fun i mem => kept i (List.mem_range.mp mem).le

theorem keep_other {row row' : Int} (other : row' ≠ row) (stands : Stands s.lastcli (cliMax * row') text)
    (short : text.length ≤ 127) : Stands (s.keep row).lastcli (cliMax * row') text := by
  refine stands.congr fun i low high => ?_
  change (128 : Int) * row' ≤ i at low
  change i ≤ 128 * row' + text.length at high
  change (if (128 : Int) * row ≤ i ∧ i < 128 * row + 128 then s.cli (i - 128 * row) else s.lastcli i) = _
  rw [if_neg (by omega)]

/-- The line goes to the parser and to the row of the oldest. -/
theorem holds_processCli (holds : Holds s l) (running : ¬ l.closed = true) :
    s.processCli sendMbx = (sendMbx l.lines.length, (s.processCli sendMbx).2) ∧
      Holds (s.processCli sendMbx).2 ⟨[], l.lines ++ [l.text], 0, false⟩ := by
  have pos := holds.cliPos
  have short := holds.short
  have bound := holds.lastcliPos
  let cli := Function.update s.cli s.cliPos 0
  have stands : Stands cli 0 l.text := by
    refine ⟨?_, ?_, holds.nulFree⟩
    · rw [front_congr fun i low high => Function.update_of_ne (by omega) _ _]
      exact holds.text
    · rw [Int.zero_add, ← pos]
      exact Function.update_self _ _ _
  refine ⟨by rw [← holds.parsed]; rfl, ?_⟩
  refine ⟨rfl, Nat.zero_le _, List.not_mem_nil, rfl, ?_, ?_, Nat.succ_pos 7, fun k less => ?_, ?_, ?_, ?_, ?_, holds.strayed⟩
  · change 0 ≤ (s.lastcliPos + 1) % 8 ∧ (s.lastcliPos + 1) % 8 < 8
    omega
  · change (s.lastcliPos + 1) % 8 = ((s.lastcliPos + 1) % 8 - 0) % 8
    omega
  · change Stands (keep s.lastcliPos { s with cli := cli }).lastcli
      (cliMax * (((s.lastcliPos + 1) % 8 - 1 - (k : Int)) % 8)) ((l.lines ++ [l.text]).reverse.getD k []) ∧
        ((l.lines ++ [l.text]).reverse.getD k []).length ≤ 127
    rw [List.reverse_append, List.reverse_singleton, List.singleton_append]
    cases k with
    | zero =>
        have row : ((s.lastcliPos + 1) % 8 - 1 - ((0 : Nat) : Int)) % 8 = s.lastcliPos := by omega
        rw [row, List.getD_cons_zero]
        exact ⟨keep_row stands short _, short⟩
    | succ k =>
        have row : ((s.lastcliPos + 1) % 8 - 1 - ((k + 1 : Nat) : Int)) % 8 = (s.lastcliPos - 1 - k) % 8 := by omega
        obtain ⟨before, short'⟩ := holds.rows k (by omega)
        rw [row, List.getD_cons_succ]
        exact ⟨keep_other (by omega) before short', short'⟩
  · change s.parsed ++ [(front cli 0 cliMax).takeWhile (· ≠ 0)] = _
    rw [stands.takeWhile (by change _ < 128; omega), holds.parsed]
  · exact iff_of_false Bool.false_ne_true (mt holds.closed.mpr running)
  · refine forall_append holds.cliStores fun i mem => ?_
    rw [List.mem_singleton.mp mem]
    change 0 ≤ s.cliPos ∧ s.cliPos < 128
    omega
  · refine forall_append holds.lastcliStores fun i mem => ?_
    obtain ⟨j, less, rfl⟩ := List.mem_map.mp mem
    have := List.mem_range.mp less
    change j < 128 at this
    change 0 ≤ 128 * s.lastcliPos + (j : Int) ∧ 128 * s.lastcliPos + (j : Int) < 128 * 8
    omega

/-- Between two keys. -/
def Ready (s : Editor) : Prop := s.phase = .readchar ∨ s.phase = .exited

theorem toNat_eq_iff (c d : UInt8) : ((c.toNat : Int) = d.toNat) ↔ c = d :=
  ⟨fun same => UInt8.toNat_inj.mp (Int.natCast_inj.mp same), fun same => same ▸ rfl⟩

theorem holds_enter (holds : Holds s l) (running : ¬ l.closed = true) (ready : s.phase = .readchar) :
    let s' := if (s.processCli sendMbx).1 = cmdExitShell then { (s.processCli sendMbx).2 with phase := .exited }
      else (s.processCli sendMbx).2
    Holds s' (l.press sendMbx .enter) ∧ Ready s' := by
  obtain ⟨ret, kept⟩ := @holds_processCli s l sendMbx holds running
  have press : l.press sendMbx .enter = ⟨[], l.lines ++ [l.text], 0, sendMbx l.lines.length = cmdExitShell⟩ := by
    rw [Line.press, if_neg running]
  rw [press, ret]
  dsimp only
  by_cases exits : sendMbx l.lines.length = cmdExitShell
  · rw [if_pos exits, decide_eq_true exits]
    exact ⟨kept.exit, .inr rfl⟩
  · rw [if_neg exits, decide_eq_false exits]
    exact ⟨kept, .inl ready⟩

theorem holds_shellProcessChar (holds : Holds s l) (running : ¬ l.closed = true) (ready : s.phase = .readchar) {c : UInt8}
    (plain : c ≠ 27) : Holds (s.shellProcessChar sendMbx c.toNat) (l.press sendMbx (key c)) ∧
      Ready (s.shellProcessChar sendMbx c.toNat) := by
  have some_ : ¬ (c.toNat : Int) = -1 := by omega
  have printable : 32 ≤ (c.toNat : Int) ↔ 32 ≤ c := by
    rw [UInt8.le_iff_toNat_le]
    exact Int.ofNat_le
  have code (d : UInt8) := toNat_eq_iff c d
  have exit : (c.toNat : Int) = 4 ↔ c = 4 := code 4
  have back : (c.toNat : Int) = 8 ∨ (c.toNat : Int) = 127 ↔ c = 8 ∨ c = 127 := or_congr (code 8) (code 127)
  have tab : (c.toNat : Int) = 9 ↔ c = 9 := code 9
  have enter : (c.toNat : Int) = 13 ∨ (c.toNat : Int) = 10 ↔ c = 13 ∨ c = 10 := or_congr (code 13) (code 10)
  have starts : (c.toNat : Int) = 11 ∨ (c.toNat : Int) = 18 ∨ (c.toNat : Int) = 19 ↔ c = 11 ∨ c = 18 ∨ c = 19 :=
    or_congr (code 11) (or_congr (code 18) (code 19))
  have escape : ¬ (c.toNat : Int) = 27 := mt (code 27).mp plain
  have nothing (other : key c = .other) : Holds s (l.press sendMbx (key c)) ∧ Ready s := by
    rw [other, Line.press, if_neg running]
    exact ⟨holds, .inl ready⟩
  simp only [shellProcessChar, if_neg some_, exit, back, tab, enter, starts, if_neg escape]
  by_cases exits : c = 4
  · rw [if_pos exits, key, if_pos exits, Line.press, if_neg running]
    exact ⟨holds.exit, .inr rfl⟩
  rw [if_neg exits]
  by_cases backs : c = 8 ∨ c = 127
  · rw [if_pos backs, key, if_neg exits, if_pos backs, Line.press, if_neg running]
    refine ⟨holds_backspace holds, .inl ?_⟩
    rw [backspace]
    split <;> exact ready
  rw [if_neg backs]
  by_cases tabs : c = 9
  · rw [if_pos tabs]
    exact nothing (tabs ▸ rfl)
  rw [if_neg tabs]
  by_cases enters : c = 13 ∨ c = 10
  · rw [if_pos enters, key, if_neg exits, if_neg backs, if_pos enters]
    exact holds_enter holds running ready
  rw [if_neg enters]
  by_cases other : c = 11 ∨ c = 18 ∨ c = 19
  · rw [if_pos other]
    refine nothing ?_
    rcases other with rfl | rfl | rfl <;> rfl
  rw [if_neg other]
  by_cases letter : 32 ≤ c
  · rw [key, if_neg exits, if_neg backs, if_neg enters, if_pos letter, Line.press, if_neg running]
    refine ⟨holds_putchar holds letter, .inl ?_⟩
    rw [putchar]
    split <;> exact ready
  · have ignored : s.putchar c.toNat = s := if_neg fun both => letter (printable.mp both.2)
    rw [ignored]
    refine nothing ?_
    rw [key, if_neg exits, if_neg backs, if_neg enters, if_neg letter]

theorem toChar_eq_iff {d : UInt8} (ascii : d.toNat < 128) (reading : Reading) :
    toChar reading = d.toNat ↔ reading = some d := by
  cases reading with
  | none =>
      have timeout : toChar none = -1 := rfl
      rw [timeout]
      exact iff_of_false (by omega) (Option.some_ne_none d).symm
  | some c =>
      have less := c.toNat_lt
      rw [Option.some_inj, ← toNat_eq_iff c d, toChar, toInt, Int.bmod]
      omega

theorem closed_fetch (l : Line) (back : Nat) : (l.fetch back).closed = l.closed := by
  rw [Line.fetch]
  split <;> rfl

theorem holds_handleArrow (holds : Holds s l) (running : ¬ l.closed = true) (last : Reading) :
    Holds (s.handleArrow (toChar last)) (l.press sendMbx (arrow last)) := by
  have isUp : toChar last = 65 ↔ last = some 65 := @toChar_eq_iff 65 (by decide) last
  have isDown : toChar last = 66 ↔ last = some 66 := @toChar_eq_iff 66 (by decide) last
  have pressed : Holds (if last = some 65 then s.up else if last = some 66 then s.down else s)
      (l.press sendMbx (arrow last)) ∧ ¬ (l.press sendMbx (arrow last)).closed = true := by
    cases last with
    | none =>
        rw [if_neg (Option.some_ne_none 65).symm, if_neg (Option.some_ne_none 66).symm, arrow, Line.press, if_neg running]
        exact ⟨holds, running⟩
    | some c =>
        rw [arrow]
        by_cases up : c = 65
        · rw [if_pos (congrArg some up), if_pos up, Line.press, if_neg running]
          exact ⟨holds_up holds, (closed_fetch l _).symm ▸ running⟩
        rw [if_neg (mt Option.some.inj up), if_neg up]
        by_cases down : c = 66
        · rw [if_pos (congrArg some down), if_pos down, Line.press, if_neg running]
          exact ⟨holds_down holds, (closed_fetch l _).symm ▸ running⟩
        rw [if_neg (mt Option.some.inj down), if_neg down, Line.press, if_neg running]
        exact ⟨holds, running⟩
  simp only [handleArrow, isUp, isDown]
  exact pressed.1.phase pressed.2 (by decide)

theorem foldl_exited (exited : s.phase = .exited) (readings : List Reading) : readings.foldl (step sendMbx) s = s := by
  induction readings with
  | nil => rfl
  | cons reading readings ih =>
      have stays : step sendMbx s reading = s := by
        unfold step
        rw [exited]
      rw [List.foldl_cons, stays, ih]

theorem foldl_closed (closed : l.closed = true) (keys : List Key) : keys.foldl (Line.press sendMbx) l = l := by
  induction keys with
  | nil => rfl
  | cons key keys ih =>
      have stays : l.press sendMbx key = l := if_pos closed
      rw [List.foldl_cons, stays, ih]

theorem step_escape (ready : s.phase = .readchar) : step sendMbx s (some 27) = { s with phase := .escape } := by
  rw [step, ready]
  rfl

theorem step_bracket (s : Editor) (next : Reading) : step sendMbx { s with phase := .escape } next =
    { s with phase := if next = some 91 then .bracket else .readchar } := by
  have isBracket : toChar next = 91 ↔ next = some 91 := @toChar_eq_iff 91 (by decide) next
  change cliHandleEscape (toChar next) { s with phase := .escape } = _
  unfold cliHandleEscape
  by_cases opens : next = some 91
  · rw [if_pos opens, isBracket.mpr opens]
    rfl
  · rw [if_neg opens, if_neg (mt isBracket.mp opens), ite_self]

/-- The keys are pressed one after the other; the phases of an escape sequence are those of its characters. -/
theorem holds_run (readings : List Reading) (holds : Holds s l) (ready : s.phase = .readchar) :
    Holds (readings.foldl (step sendMbx) s) ((keys readings).foldl (Line.press sendMbx) l) := by
  induction readings using keys.induct generalizing s l with
  | case1 => exact holds
  | case2 readings ih =>
      have same : step sendMbx s none = s := by
        rw [step, ready]
        rfl
      have other : l.press sendMbx .other = l := if_neg (holds.running ready)
      rw [keys, List.foldl_cons, List.foldl_cons, same, other]
      exact ih holds ready
  | case3 =>
      rw [List.foldl_cons, step_escape ready]
      exact holds.phase (holds.running ready) (by decide)
  | case4 =>
      rw [List.foldl_cons, List.foldl_cons, step_escape ready, step_bracket, if_pos rfl]
      exact holds.phase (holds.running ready) (by decide)
  | case5 last readings ih =>
      have running := holds.running ready
      have bracket : Phase.bracket ≠ .exited := by decide
      have split : keys (some 27 :: some 91 :: last :: readings) = arrow last :: keys readings := rfl
      rw [split, List.foldl_cons, List.foldl_cons, List.foldl_cons, List.foldl_cons, step_escape ready, step_bracket, if_pos rfl]
      exact ih (holds_handleArrow (holds.phase running bracket) running last) rfl
  | case6 next readings short ih =>
      have split : keys (some 27 :: next :: readings) = .other :: keys readings := by
        rw [keys.eq_def]
        exact (if_pos rfl).trans (if_neg short)
      have other : l.press sendMbx .other = l := if_neg (holds.running ready)
      rw [split, List.foldl_cons, List.foldl_cons, List.foldl_cons, step_escape ready, step_bracket, if_neg short, other]
      exact ih (holds.phase (holds.running ready) (by decide)) rfl
  | case7 c readings plain ih =>
      have split : keys (some c :: readings) = key c :: keys readings := by
        rw [keys.eq_def]
        exact if_neg plain
      have char : step sendMbx s (some c) = s.shellProcessChar sendMbx c.toNat := by
        rw [step, ready]
        rfl
      obtain ⟨holds', ready'⟩ := @holds_shellProcessChar s l sendMbx holds (holds.running ready) ready c plain
      rw [split, List.foldl_cons, List.foldl_cons, char]
      rcases ready' with ready' | exited
      · exact ih holds' ready'
      · rw [foldl_exited exited, foldl_closed (holds'.closed.mpr exited)]
        exact holds'

end Editor

theorem safe_of_holds {s : Editor} {l : Line} (holds : s.Holds l) : Safe s := by
  have pos := holds.cliPos
  have short := holds.short
  refine ⟨by omega, holds.cliStores, holds.lastcliStores, fun row less => ?_, holds.strayed⟩
  change row < 8 at less
  have bound := holds.lastcliPos
  obtain ⟨stands, short⟩ := holds.rows ((s.lastcliPos - 1 - row) % 8).toNat (by omega)
  have place : (s.lastcliPos - 1 - (((s.lastcliPos - 1 - row) % 8).toNat : Int)) % 8 = row := by omega
  rw [place] at stands
  exact ⟨_, Nat.lt_succ_of_le short, stands.ends⟩

/-- Whatever is typed, the arrays are kept to, and the parser is given the lines that have been edited. -/
theorem run_edits (sendMbx : Nat → Int) (readings : List Reading) :
    Safe (Editor.run sendMbx readings) ∧
      (Editor.run sendMbx readings).parsed = (Line.edit sendMbx (keys readings)).lines := by
  have holds := @Editor.holds_run _ _ sendMbx readings Editor.holds_start rfl
  exact ⟨safe_of_holds holds, holds.parsed⟩

end Psplink.Shell.LineEditor
