import Psplink.Gdb.Handlers
import Psplink.Gdb.Framing

/-!
# Accesses to the packet buffers

Which packets make a handler read `input` behind its NUL or write behind `output`.
-/

namespace Psplink.Gdb
open Psplink.Lib Psplink.Debug Psplink.Exception

/-! ## The text of a packet -/

def PeekAt {W : Type} (C : Prog.Contract StubCall StubCall.Answer W) (w : W) (i : Nat) (ch : Byte) : Prop :=
  C.pre w (.peek i) ∧ ∀ a w', C.post w (.peek i) a w' ↔ a = ch ∧ w' = w

def TextAt {W : Type} (C : Prog.Contract StubCall StubCall.Answer W) (w : W) (text : List Byte) : Prop :=
  ∀ i ≤ text.length, PeekAt C w i (text.getD i 0)

section
variable {W α : Type} {C : Prog.Contract StubCall StubCall.Answer W} {w : W} {text : List Byte}

theorem wp_peek {i : Nat} {ch : Byte} (here : PeekAt C w i ch) (f : Byte → Handling α) (R : α → W → Prop) :
    Prog.wp C (Handler.peek i >>= f) R w ↔ Prog.wp C (f ch) R w := by
  constructor
  · intro held
    exact held.2 ch w ((here.2 ch w).mpr ⟨rfl, rfl⟩)
  · intro held
    refine ⟨here.1, ?_⟩
    intro a w' answered
    obtain ⟨rfl, rfl⟩ := (here.2 a w').mp answered
    exact held

theorem TextAt.from (at_ : TextAt C w text) {before rest : List Byte} (split : text = before ++ rest) :
    PeekAt C w before.length (rest.headD 0) := by
  have here := at_ before.length (by simp [split])
  cases rest <;> simpa [split, List.getD_eq_getElem?_getD] using here

theorem hexToIntLoop_eq (at_ : TextAt C w text) {before rest : List Byte} (split : text = before ++ rest)
    {fuel : Nat} (enough : rest.length < fuel) (intValue : Word) (numChars : Nat)
    (R : Word × Nat × Nat → W → Prop) :
    Prog.wp C (Handler.hexToIntLoop fuel before.length intValue numChars) R w ↔
      let (value, count, left) := hexToInt.go rest intValue numChars
      R (value, count, text.length - left.length) w := by
  induction rest generalizing before fuel intValue numChars with
  | nil =>
      cases fuel with
      | zero => cases enough
      | succ fuel =>
          rw [Handler.hexToIntLoop, wp_peek (at_.from split)]
          simp [hexToInt.go, split]
  | cons ch rest ih =>
      cases fuel with
      | zero => cases enough
      | succ fuel =>
          rw [Handler.hexToIntLoop, wp_peek (at_.from split), hexToInt.go, List.headD_cons]
          by_cases digit : (hex ch).slt 0
          · rw [if_pos (.inr digit), if_pos digit]
            simp [split]
          · have other : ch ≠ 0 := by
              rintro rfl
              exact digit (by decide)
            have split' : text = (before ++ [ch]) ++ rest := by simp [split]
            have next := ih split' (Nat.lt_of_succ_lt_succ enough) (intValue <<< 4 ||| hex ch) (numChars + 1)
            rw [List.length_append, List.length_singleton] at next
            rw [if_neg (not_or.mpr ⟨other, digit⟩), if_neg digit]
            exact next

theorem go_suffix (ptr : List Byte) (intValue : Word) (numChars : Nat) :
    (hexToInt.go ptr intValue numChars).2.2 <:+ ptr := by
  induction ptr generalizing intValue numChars with
  | nil => exact List.suffix_rfl
  | cons ch ptr ih =>
      rw [hexToInt.go]
      split
      · exact List.suffix_rfl
      · exact (ih _ _).trans (List.suffix_cons ..)

theorem hexToInt_eq (at_ : TextAt C w text) (short : text.length < maxBuf) {before rest : List Byte}
    (split : text = before ++ rest) (R : Word × Nat × Nat → W → Prop) :
    Prog.wp C (Handler.hexToInt before.length) R w ↔
      R ((hexToInt rest).1, (hexToInt rest).2.1, text.length - (hexToInt rest).2.2.length) w := by
  have enough : rest.length < maxBuf := by
    rw [split, List.length_append] at short
    omega
  exact hexToIntLoop_eq at_ split enough 0 0 R

theorem addrLength_eq (at_ : TextAt C w text) (short : text.length < maxBuf) {before rest : List Byte}
    (split : text = before ++ rest) (R : Option (Word × Word × Nat) → W → Prop) :
    Prog.wp C (Handler.addrLength before.length) R w ↔
      R ((Stub.addrLength rest).map fun (addr, length, left) => (addr, length, text.length - left.length)) w := by
  rw [Handler.addrLength, Prog.wp_bind, hexToInt_eq at_ short split, Stub.addrLength]
  have left : (hexToInt rest).2.2 <:+ rest := go_suffix rest 0 0
  generalize hexToInt rest = first at left
  obtain ⟨addr, numChars, rest₁⟩ := first
  obtain ⟨digits, rfl⟩ := left
  have split₁ : text = (before ++ digits) ++ rest₁ := by rw [split, List.append_assoc]
  have place : text.length - rest₁.length = (before ++ digits).length := by
    simp only [split₁, List.length_append]
    omega
  dsimp only
  by_cases none : numChars = 0
  · rw [if_pos none, if_pos none]
    exact Iff.rfl
  rw [if_neg none, if_neg none, place, wp_peek (at_.from split₁)]
  cases rest₁ with
  | nil => exact Iff.rfl
  | cons ch rest₂ =>
      rw [List.headD_cons]
      by_cases comma : ch = char ','
      · have split₂ : text = (before ++ digits ++ [ch]) ++ rest₂ := by simp [split₁]
        have next : (before ++ digits).length + 1 = (before ++ digits ++ [ch]).length := by
          simp only [List.length_append, List.length_singleton]
        rw [if_pos comma, Prog.wp_bind, next, hexToInt_eq at_ short split₂]
        simp only [comma, if_true]
        split <;> exact Iff.rfl
      · simp only [if_neg comma]
        exact Iff.rfl

end

/-! ## The bounds -/

structure Buffers where
  input : Input
  output : Nat → Byte

/-- `input` is read up to the NUL of the packet and `output` is written up to its end; the string in
`output` ends there when it is sent, and its frame fits. -/
def bounds : Prog.Contract StubCall StubCall.Answer Buffers where
  pre w := fun
    | .peek i => i ≤ w.input.text.length
    | .poke i _ => i < maxBuf
    | .putpacket => ∃ n < maxBuf, w.output n = 0 ∧ n + 4 ≤ maxOutput
    | _ => True
  post w := fun
    | .peek i => fun a w' => a = w.input.stream w.input.text i ∧ w' = w
    | .poke i ch => fun _ w' => w' = { w with output := Function.update w.output i ch }
    | .getpacket => fun _ w' => w'.input.text.length < maxBuf
    | _ => fun _ w' => w' = w

theorem bounds_text (w : Buffers) : TextAt bounds w w.input.text := by
  intro i le
  refine ⟨le, ?_⟩
  intro a w'
  have here : w.input.stream w.input.text i = w.input.text.getD i 0 := by
    unfold Input.stream
    rcases le.lt_or_eq with less | rfl
    · simp [List.getD_eq_getElem?_getD, List.getElem?_append_left less, less]
    · simp [List.getD_eq_getElem?_getD]
  rw [← here]
  exact Iff.rfl

variable {α : Type} {w : Buffers} {R : α → Buffers → Prop}

theorem wp_poke {i : Nat} {ch : Byte} {f : Unit → Handling α} :
    Prog.wp bounds (Handler.poke i ch >>= f) R w ↔
      i < maxBuf ∧ Prog.wp bounds (f ()) R { w with output := Function.update w.output i ch } := by
  constructor
  · intro held
    exact ⟨held.1, held.2 () _ rfl⟩
  · rintro ⟨room, held⟩
    refine ⟨room, ?_⟩
    rintro ⟨⟩ w' rfl
    exact held

def Aside : StubCall → Prop
  | .peek _ | .poke _ _ | .putpacket | .getpacket => False
  | _ => True

theorem wp_aside {q : StubCall} (aside : Aside q) {f : q.Answer → Handling α} :
    Prog.wp bounds (Handler.call q >>= f) R w ↔ ∀ a, Prog.wp bounds (f a) R w := by
  have quiet : bounds.pre w q ∧ ∀ a w', bounds.post w q a w' ↔ w' = w := by
    cases q with
    | peek => exact aside.elim
    | poke => exact aside.elim
    | putpacket => exact aside.elim
    | getpacket => exact aside.elim
    | _ => exact ⟨trivial, fun _ _ => Iff.rfl⟩
  constructor
  · intro held a
    exact held.2 a w ((quiet.2 a w).mpr rfl)
  · intro held
    refine ⟨quiet.1, ?_⟩
    intro a w' answered
    rw [(quiet.2 a w').mp answered]
    exact held a

theorem wp_puts {text : List Byte} {ptr : Nat} (room : ptr + text.length ≤ maxBuf) {R : Nat → Buffers → Prop}
    (next : ∀ output, R (ptr + text.length) { w with output := output }) :
    Prog.wp bounds (Handler.puts text ptr) R w := by
  induction text generalizing ptr w with
  | nil => exact next w.output
  | cons ch text ih =>
      rw [List.length_cons] at room next
      rw [Handler.puts, wp_poke]
      refine ⟨by omega, ih (by omega) ?_⟩
      intro output
      have place : ptr + 1 + text.length = ptr + (text.length + 1) := by omega
      rw [place]
      exact next output

def Ended (w : Buffers) : Prop := ∃ n < maxBuf, w.output n = 0 ∧ n + 4 ≤ maxOutput

theorem wp_end {ptr : Nat} (room : ptr < maxBuf) {R : Unit → Buffers → Prop}
    (next : ∀ w', w'.input = w.input → Ended w' → R () w') : Prog.wp bounds (Handler.poke ptr 0) R w := by
  refine ⟨room, ?_⟩
  rintro ⟨⟩ w' rfl
  refine next _ rfl ⟨ptr, room, Function.update_self .., ?_⟩
  change ptr < 2048 at room
  show ptr + 4 ≤ 4096
  omega

/-- Where `GdbHandleException` calls a handler, and what the reply needs of it. -/
def Replies (p : Handling Unit) (w : Buffers) : Prop :=
  w.input.text.length < maxBuf → Ended w → Prog.wp bounds p (fun _ w' => Ended w') w

theorem wp_strcpy {text : List Byte} (room : text.length < maxBuf) (w : Buffers) :
    Prog.wp bounds (Handler.strcpy 0 text) (fun _ w' => Ended w') w := by
  rw [Handler.strcpy, Prog.wp_bind]
  apply wp_puts (by omega)
  intro output
  exact wp_end (by omega) fun _ _ ended => ended

theorem replies_strtohex {str : List Byte} (w : Buffers) {ptr : Nat} (room : ptr + 2 * str.length < maxBuf) :
    Replies (Handler.strtohex ptr str) w := by
  intro short ended
  clear ended
  induction str generalizing w ptr with
  | nil => exact wp_end (by simpa using room) fun _ _ ended => ended
  | cons ch str ih =>
      rw [List.length_cons] at room
      have digits {high low : Byte} (output : Nat → Byte) : Prog.wp bounds
          (Handler.puts [high, low] ptr >>= fun ptr => Handler.strtohex ptr str) (fun _ w' => Ended w')
          { w with output := output } := by
        rw [Prog.wp_bind]
        apply wp_puts (by simp only [List.length_cons, List.length_nil]; omega)
        intro output'
        exact ih _ (by simp only [List.length_cons, List.length_nil]; omega) short
      rw [Handler.strtohex, Handler.hexOfChar, Prog.wp_bind]
      split
      · refine (wp_aside (q := .stray ch) trivial).mpr ?_
        intro high
        exact digits w.output
      · exact digits w.output

theorem wp_strncmp {name : List Char} (plain : name.all (fun c => char c ≠ 0) = true) {str : Nat}
    (inside : str ≤ w.input.text.length) {R : Bool → Buffers → Prop} (no : R false w)
    (yes : str + name.length ≤ w.input.text.length → R true w) :
    Prog.wp bounds (Handler.strncmp name str) R w := by
  induction name generalizing str with
  | nil => exact yes inside
  | cons c name ih =>
      rw [List.all_cons, Bool.and_eq_true, decide_eq_true_eq] at plain
      rw [Handler.strncmp, wp_peek (bounds_text w str inside)]
      split
      · rename_i same
        have more : str + 1 ≤ w.input.text.length := by
          by_contra beyond
          rw [List.getD_eq_getElem?_getD, List.getElem?_eq_none (by omega)] at same
          exact plain.1 same.symm
        apply ih plain.2 more
        intro room
        exact yes (by rw [List.length_cons]; omega)
      · exact no

theorem wp_hexToInt {ptr : Nat} (short : w.input.text.length < maxBuf) (inside : ptr ≤ w.input.text.length)
    {R : Word × Nat × Nat → Buffers → Prop} (next : ∀ value count ptr, R (value, count, ptr) w) :
    Prog.wp bounds (Handler.hexToInt ptr) R w := by
  have split : w.input.text = w.input.text.take ptr ++ w.input.text.drop ptr := by simp
  have place : (w.input.text.take ptr).length = ptr := List.length_take_of_le inside
  rw [← place, hexToInt_eq (bounds_text w) short split]
  exact next _ _ _

theorem wp_addrLength {ptr : Nat} (short : w.input.text.length < maxBuf) (inside : ptr ≤ w.input.text.length)
    (R : Option (Word × Word × Nat) → Buffers → Prop) :
    Prog.wp bounds (Handler.addrLength ptr) R w ↔
      R ((Stub.addrLength (w.input.text.drop ptr)).map fun (addr, length, left) =>
        (addr, length, w.input.text.length - left.length)) w := by
  have split : w.input.text = w.input.text.take ptr ++ w.input.text.drop ptr := by simp
  have place : (w.input.text.take ptr).length = ptr := List.length_take_of_le inside
  have parsed := addrLength_eq (bounds_text w) short split R
  rwa [place] at parsed

/-! ## Memory as hexadecimal -/

/-- How many bytes from an address on the stub may access. -/
def readable (addr : Word) : Nat := if userMemory addr then 0x0a000000 - addr.toNat else 0

theorem readable_succ {addr : Word} (user : userMemory addr = true) :
    readable addr = readable (addr + 1) + 1 := by
  have inside := user
  simp only [userMemory, Bool.and_eq_true, decide_eq_true_eq, BitVec.le_def, BitVec.lt_def] at inside
  change 0x08800000 ≤ addr.toNat ∧ addr.toNat < 0x0a000000 at inside
  have next : (addr + 1).toNat = addr.toNat + 1 := by
    rw [BitVec.toNat_add]
    exact Nat.mod_eq_of_lt (show addr.toNat + 1 < 2 ^ 32 by omega)
  have user' : userMemory (addr + 1) = decide (addr.toNat + 1 < 0x0a000000) := by
    simp only [userMemory, BitVec.le_def, BitVec.lt_def, next]
    simp only [show (0x08800000 : Word).toNat = 0x08800000 from rfl,
      show (0x0a000000 : Word).toNat = 0x0a000000 from rfl]
    simp
    omega
  unfold readable
  rw [if_pos user, user', next]
  by_cases more : addr.toNat + 1 < 0x0a000000
  · rw [if_pos (decide_eq_true more)]
    omega
  · rw [if_neg (by simpa using more)]
    omega

theorem le_readable {addr : Word} {n : Nat}
    (user : ∀ i < n, userMemory (addr + BitVec.ofNat 32 i) = true) : n ≤ readable addr := by
  induction n generalizing addr with
  | zero => exact Nat.zero_le _
  | succ n ih =>
      have first : userMemory addr = true := by simpa using user 0 (Nat.zero_lt_succ n)
      have rest : n ≤ readable (addr + 1) := by
        apply ih
        intro i less
        have here := user (i + 1) (Nat.succ_lt_succ less)
        rwa [Nat.add_comm, BitVec.ofNat_add, ← BitVec.add_assoc] at here
      rw [readable_succ first]
      exact Nat.succ_le_succ rest

theorem wp_mem2hex {mem : Word} {buf count : Nat} {R : Option Nat → Buffers → Prop}
    (room : buf + 2 * min count (readable mem) + (if count ≤ readable mem then 1 else 0) ≤ maxBuf)
    (next : ∀ output, (count ≤ readable mem → output (buf + 2 * count) = 0) →
      R (if count ≤ readable mem then some (buf + 2 * count) else none) { w with output := output }) :
    Prog.wp bounds (Handler.mem2hex mem buf count) R w := by
  induction count generalizing mem buf w with
  | zero =>
      simp only [Nat.zero_min, Nat.zero_le, if_true] at room next
      rw [Handler.mem2hex, wp_poke]
      refine ⟨by omega, ?_⟩
      exact next _ fun _ => Function.update_self ..
  | succ count ih =>
      rw [Handler.mem2hex]
      split
      · rename_i user
        rw [readable_succ user, Nat.add_min_add_right] at room
        simp only [readable_succ user, Nat.add_le_add_iff_right] at room next
        refine (wp_aside (q := .load mem) trivial).mpr ?_
        intro ch
        rw [wp_poke, wp_poke]
        refine ⟨by omega, by omega, ih (by omega) ?_⟩
        intro output ended
        have place : buf + 2 + 2 * count = buf + 2 * (count + 1) := by omega
        rw [place] at ended ⊢
        exact next output ended
      · rename_i outside
        have none : readable mem = 0 := if_neg outside
        simp only [none] at next
        exact next w.output fun le => absurd le (Nat.not_succ_le_zero _)

theorem room_of_mem2hex {mem : Word} {buf count : Nat} {R : Option Nat → Buffers → Prop}
    (start : buf ≤ maxBuf) (held : Prog.wp bounds (Handler.mem2hex mem buf count) R w) :
    buf + 2 * min count (readable mem) + (if count ≤ readable mem then 1 else 0) ≤ maxBuf := by
  induction count generalizing mem buf w with
  | zero =>
      rw [Handler.mem2hex, wp_poke] at held
      simpa using Nat.succ_le_of_lt held.1
  | succ count ih =>
      rw [Handler.mem2hex] at held
      split at held
      · rename_i user
        have some_byte := (wp_aside (q := .load mem) trivial).mp held (0 : Byte)
        rw [wp_poke, wp_poke] at some_byte
        have rest := ih (by omega) some_byte.2.2
        simp only [readable_succ user, Nat.add_min_add_right, Nat.add_le_add_iff_right]
        omega
      · rename_i outside
        have none : readable mem = 0 := if_neg outside
        simpa [none] using start

theorem wp_mem2hex_all {mem : Word} {buf count : Nat} {R : Option Nat → Buffers → Prop}
    (all : count ≤ readable mem) (room : buf + 2 * count < maxBuf)
    (next : ∀ output, output (buf + 2 * count) = 0 →
      R (some (buf + 2 * count)) { w with output := output }) :
    Prog.wp bounds (Handler.mem2hex mem buf count) R w := by
  apply wp_mem2hex
  · rw [if_pos all, Nat.min_eq_left all]
    omega
  · intro output ended
    rw [if_pos all]
    exact next output (ended all)

theorem reg_readable (L : Layout) (r : Reg) {n : Nat} (inside : 4 * (2 + r.slot) + n ≤ 4 * contextWords) :
    n ≤ readable (L.reg r) := by
  apply le_readable
  intro i less
  have here := L.ctx_user (4 * (2 + r.slot) + i) (by omega)
  rwa [BitVec.ofNat_add, ← BitVec.add_assoc] at here

/-! ## Replies without a condition -/

theorem wp_trapReg {n : Byte} {address : Word} {ptr : Nat} (all : 4 ≤ readable address)
    (room : ptr + 12 ≤ maxBuf) {R : Nat → Buffers → Prop}
    (next : ∀ output, R (ptr + 12) { w with output := output }) :
    Prog.wp bounds (Handler.trapReg n address ptr) R w := by
  rw [Handler.trapReg, Prog.wp_bind]
  apply wp_puts (by simp only [hexByte, List.length_append, List.length_cons, List.length_nil]; omega)
  intro output
  rw [Prog.wp_bind]
  apply wp_mem2hex_all all (by simp only [hexByte, List.length_append, List.length_cons, List.length_nil]; omega)
  intro output _
  apply wp_puts (by simp only [Option.getD_some, hexByte, List.length_append, List.length_cons, List.length_nil]; omega)
  exact next

theorem watchType_length {datatype : Word} {type : List Char} (known : Stub.watchType datatype = some type) :
    type.length ≤ 7 := by
  unfold Stub.watchType at known
  split at known
  · cases known
    decide
  · split at known
    · cases known
      decide
    · split at known
      · cases known
        decide
      · cases known

theorem wp_watch {L : Layout} {ptr : Nat} (room : ptr + 17 ≤ maxBuf) {R : Nat → Buffers → Prop}
    (next : ∀ p output, p ≤ ptr + 16 → R p { w with output := output }) :
    Prog.wp bounds (Handler.watch L ptr) R w := by
  have here : R ptr w := next ptr w.output (Nat.le_add_right ..)
  refine (wp_aside (q := .get .ctxType) trivial).mpr ?_
  intro type
  refine (wp_aside (q := .get .daddr) trivial).mpr ?_
  intro daddr
  refine (wp_aside (q := .get .drcntl) trivial).mpr ?_
  intro drcntl
  split
  · refine (wp_aside (q := .get .datatype) trivial).mpr ?_
    intro datatype
    cases known : Stub.watchType datatype with
    | none => exact here
    | some type =>
        have short := watchType_length known
        dsimp only
        rw [Prog.wp_bind]
        apply wp_puts (by simp only [List.length_map]; omega)
        intro output
        rw [Prog.wp_bind]
        apply wp_mem2hex_all (le_readable L.daddr_user) (by simp only [List.length_map]; omega)
        intro output _
        apply wp_puts (by simp only [Option.getD_some, List.length_map, List.length_singleton]; omega)
        intro output
        apply next _ output
        simp only [Option.getD_some, List.length_map, List.length_singleton]
        omega
  · exact here

@[simp] theorem printHex_length (value : Word) : (printHex value).length = 8 := rfl

@[simp] theorem printUpper_length (value : Word) : (Handler.printUpper value).length = 8 := by
  rw [Handler.printUpper, List.length_map, printHex_length]

theorem wp_buildTrapCmd (L : Layout) (sigval : Byte) {R : Unit → Buffers → Prop}
    (next : ∀ w', w'.input = w.input → Ended w' → R () w') :
    Prog.wp bounds (Handler.buildTrapCmd L sigval) R w := by
  have regs (r : Reg) (inside : r.slot ≤ 43) : 4 ≤ readable (L.reg r) := by
    apply reg_readable
    unfold contextWords
    omega
  rw [Handler.buildTrapCmd, Prog.wp_bind]
  apply wp_puts (show 0 + 3 ≤ 2048 by decide)
  intro output
  rw [Prog.wp_bind]
  apply wp_trapReg (regs .epc le_rfl) (show 3 + 12 ≤ 2048 by decide)
  intro output
  rw [Prog.wp_bind]
  apply wp_trapReg (regs (.r 30) (by decide)) (show 15 + 12 ≤ 2048 by decide)
  intro output
  rw [Prog.wp_bind]
  apply wp_trapReg (regs (.r 29) (by decide)) (show 27 + 12 ≤ 2048 by decide)
  intro output
  refine (wp_aside (q := .get .thid) trivial).mpr ?_
  intro thid
  rw [Prog.wp_bind]
  apply wp_puts (show 39 + 16 ≤ 2048 by decide)
  intro output
  rw [Prog.wp_bind]
  apply wp_watch (show 55 + 17 ≤ 2048 by decide)
  intro p output near
  refine wp_end ?_ fun w' same ended => next w' same ended
  change p ≤ 55 + 16 at near
  show p < 2048
  omega

theorem wp_listThreads {textAddr textSize : Word} {ids : List Word} {valid : Nat}
    {R : Nat → Buffers → Prop} (next : ∀ n, R n w) :
    Prog.wp bounds (Handler.listThreads textAddr textSize ids valid) R w := by
  induction ids generalizing valid with
  | nil => exact next valid
  | cons thid ids ih =>
      refine (wp_aside (q := .referThreadStatus thid) trivial).mpr ?_
      intro status
      match status with
      | .error _ => exact ih
      | .ok info =>
          dsimp only
          split
          · refine (wp_aside (q := .set (.thread valid) thid) trivial).mpr ?_
            intro _
            exact ih
          · exact ih

theorem replies_printThread (loc : Nat) (w : Buffers) : Replies (Handler.printThread loc) w := by
  intro short ended
  refine (wp_aside (q := .get (.thread loc)) trivial).mpr ?_
  intro thid
  apply wp_strcpy
  show 9 < 2048
  decide

theorem replies_firstThreads (w : Buffers) : Replies Handler.firstThreads w := by
  intro short ended
  refine (wp_aside (q := .getThreadmanIdList) trivial).mpr ?_
  intro (ids : List Word)
  refine (wp_aside (q := .set .threadCount _) trivial).mpr ?_
  intro _
  split
  · refine (wp_aside (q := .get .textAddr) trivial).mpr ?_
    intro textAddr
    refine (wp_aside (q := .get .textSize) trivial).mpr ?_
    intro textSize
    rw [Prog.wp_bind]
    apply wp_listThreads
    intro valid
    refine (wp_aside (q := .set .threadCount _) trivial).mpr ?_
    intro _
    split
    · rw [Prog.wp_bind]
      apply Prog.wp_mono _ (replies_printThread 0 w short ended)
      intro _ w' ended
      refine ⟨trivial, ?_⟩
      rintro _ _ rfl
      exact ended
    · exact ended
  · exact ended

theorem replies_nextThreads (w : Buffers) : Replies Handler.nextThreads w := by
  intro short ended
  refine (wp_aside (q := .get .threadLoc) trivial).mpr ?_
  intro (loc : Word)
  refine (wp_aside (q := .get .threadCount) trivial).mpr ?_
  intro (count : Word)
  split
  · rw [Prog.wp_bind]
    apply Prog.wp_mono _ (replies_printThread loc.toNat w short ended)
    intro _ w' ended
    refine ⟨trivial, ?_⟩
    rintro _ _ rfl
    exact ended
  · exact wp_strcpy (by decide) w

theorem replies_threadExtra {str : Nat} (inside : str ≤ w.input.text.length) :
    Replies (Handler.threadExtra str) w := by
  intro short ended
  rw [Handler.threadExtra, Prog.wp_bind]
  apply wp_hexToInt short inside
  intro thid numChars _
  dsimp only
  split
  · refine (wp_aside (q := .referThreadStatus thid) trivial).mpr ?_
    intro (status : Except Word ThreadInfo)
    match status with
    | .ok info =>
        apply replies_strtohex w _ short ended
        have bound := info.short
        show 0 + 2 * info.name.length < 2048
        omega
    | .error i =>
        apply replies_strtohex w _ short ended
        show 0 + 2 * 17 < 2048
        decide
  · exact ended

theorem replies_offsets (w : Buffers) : Replies Handler.offsets w := by
  intro short ended
  refine (wp_aside (q := .get .elf) trivial).mpr ?_
  intro (elf : Word)
  split
  · refine (wp_aside (q := .get .textAddr) trivial).mpr ?_
    intro text
    refine (wp_aside (q := .get .nsegment) trivial).mpr ?_
    intro nsegment
    refine (wp_aside (q := .get .textSize) trivial).mpr ?_
    intro textSize
    refine (wp_aside (q := .get (.segmentAddr 1)) trivial).mpr ?_
    intro segment
    refine (wp_aside (q := .get .dataSize) trivial).mpr ?_
    intro dataSize
    apply wp_strcpy
    show 40 < 2048
    decide
  · exact ended

theorem replies_query (str : Nat) (inside : str ≤ w.input.text.length) :
    Replies (Handler.handleQuery str) w := by
  intro short ended
  rw [Handler.handleQuery, wp_peek (bounds_text w str inside)]
  split
  · refine (wp_aside (q := .get .thid) trivial).mpr ?_
    intro thid
    apply wp_strcpy
    show 10 < 2048
    decide
  · rw [Prog.wp_bind]
    apply wp_strncmp (by decide) inside ended
    intro _
    exact replies_firstThreads w short ended
  · rw [Prog.wp_bind]
    apply wp_strncmp (by decide) inside ended
    intro _
    exact replies_nextThreads w short ended
  · rw [Prog.wp_bind]
    apply wp_strncmp (by decide) inside ended
    intro room
    exact replies_threadExtra room short ended
  · rw [Prog.wp_bind]
    apply wp_strncmp (by decide) inside ended
    intro _
    exact replies_offsets w short ended
  · exact ended

theorem wp_answer (text : List Char) (room : text.length < maxBuf) (w : Buffers) :
    Prog.wp bounds (Handler.answer text) (fun _ w' => Ended w') w :=
  wp_strcpy (by simpa using room) w

theorem replies_instructionBp (set : Bool) (addr : Word) (w : Buffers) :
    Replies (Handler.instructionBp set addr) w := by
  intro short ended
  refine (wp_aside (q := .get .iaddr) trivial).mpr ?_
  intro (iaddr : Word)
  have refused := wp_answer ['E', '0', '3'] (by decide) w
  have done (env : DebugEnv) (value : Word) : Prog.wp bounds (do
      Handler.debugSetEnv env
      Handler.set .iaddr value
      Handler.answer ['O', 'K']) (fun _ w' => Ended w') w := by
    refine (wp_aside (q := .debugSetEnv env) trivial).mpr ?_
    intro _
    refine (wp_aside (q := .set .iaddr value) trivial).mpr ?_
    intro _
    exact wp_answer _ (by decide) w
  split
  · split
    · refine (wp_aside (q := .debugGetEnv) trivial).mpr ?_
      intro env
      exact done _ _
    · exact refused
  · split
    · refine (wp_aside (q := .debugGetEnv) trivial).mpr ?_
      intro env
      exact done _ _
    · exact refused

theorem replies_dataBp (set : Bool) (datatype addr : Word) (w : Buffers) :
    Replies (Handler.dataBp set datatype addr) w := by
  intro short ended
  refine (wp_aside (q := .get .daddr) trivial).mpr ?_
  intro (daddr : Word)
  have refused := wp_answer ['E', '0', '3'] (by decide) w
  have done (env : DebugEnv) (value type : Word) : Prog.wp bounds (do
      Handler.debugSetEnv env
      Handler.set .daddr value
      Handler.set .datatype type
      Handler.answer ['O', 'K']) (fun _ w' => Ended w') w := by
    refine (wp_aside (q := .debugSetEnv env) trivial).mpr ?_
    intro _
    refine (wp_aside (q := .set .daddr value) trivial).mpr ?_
    intro _
    refine (wp_aside (q := .set .datatype type) trivial).mpr ?_
    intro _
    exact wp_answer _ (by decide) w
  split
  · split
    · refine (wp_aside (q := .debugGetEnv) trivial).mpr ?_
      intro env
      exact done _ _ _
    · exact refused
  · split
    · refine (wp_aside (q := .debugGetEnv) trivial).mpr ?_
      intro env
      exact done _ _ _
    · exact refused

theorem inside_of_ne {text : List Byte} {i : Nat} (other : text.getD i 0 ≠ 0) : i + 1 ≤ text.length := by
  by_contra beyond
  rw [List.getD_eq_getElem?_getD, List.getElem?_eq_none (by omega)] at other
  exact other rfl

theorem replies_hwbp (set : Bool) {str : Nat} (inside : str ≤ w.input.text.length) :
    Replies (Handler.handleHwbp set str) w := by
  intro short ended
  have refused := wp_answer ['E', '0', '1'] (by decide) w
  refine (wp_aside (q := .get .hw) trivial).mpr ?_
  intro (hw : Word)
  split
  · rw [wp_peek (bounds_text w str inside)]
    split
    · rename_i digit
      have next : str + 1 ≤ w.input.text.length := by
        apply inside_of_ne
        intro nul
        rw [nul] at digit
        exact absurd digit (by decide)
      rw [wp_peek (bounds_text w _ next)]
      split
      · rename_i comma
        have rest : str + 1 + 1 ≤ w.input.text.length := by
          apply inside_of_ne
          rw [comma]
          decide
        rw [Prog.wp_bind, wp_addrLength short rest]
        split
        · exact refused
        · split
          · exact replies_instructionBp _ _ w short ended
          · split
            · exact replies_dataBp _ _ _ w short ended
            · split
              · exact replies_dataBp _ _ _ w short ended
              · split
                · exact replies_dataBp _ _ _ w short ended
                · exact ended
      · exact refused
    · exact refused
  · exact ended

theorem wp_cont {ptr : Nat} (short : w.input.text.length < maxBuf) (inside : ptr ≤ w.input.text.length)
    {R : Unit → Buffers → Prop} (next : R () w) : Prog.wp bounds (Handler.cont ptr) R w := by
  refine (wp_aside (q := .get .started) trivial).mpr ?_
  intro (started : Word)
  split
  · refine (wp_aside (q := .startModule) trivial).mpr ?_
    intro _
    refine ⟨trivial, ?_⟩
    rintro _ _ rfl
    exact next
  · rw [Prog.wp_bind]
    apply wp_hexToInt short inside
    intro addr numChars _
    dsimp only
    split
    · refine ⟨trivial, ?_⟩
      rintro _ _ rfl
      exact next
    · exact next

theorem wp_step {ptr : Nat} (short : w.input.text.length < maxBuf) (inside : ptr ≤ w.input.text.length)
    {R : Unit → Buffers → Prop} (next : R () w) : Prog.wp bounds (Handler.step ptr) R w := by
  have last : Prog.wp bounds Handler.stepGeneric R w := by
    refine ⟨trivial, ?_⟩
    rintro _ _ rfl
    exact next
  rw [Handler.step, Prog.wp_bind]
  apply wp_hexToInt short inside
  intro addr numChars _
  dsimp only
  split
  · refine (wp_aside (q := .set .epc addr) trivial).mpr ?_
    intro _
    exact last
  · exact last

/-! ## Hexadecimal and binary data -/

def capacity (binary : Bool) : List Byte → Nat
  | [] => 0
  | [ch] => if binary ∧ ch ≠ 0x7d then 1 else 0
  | ch :: next :: rest =>
      if binary ∧ ch ≠ 0x7d then capacity binary (next :: rest) + 1 else capacity binary rest + 1

def ahead (w : Buffers) (buf : Nat) : List Byte := (w.input.text ++ [0]).drop buf

theorem ahead_cons {buf : Nat} (inside : buf ≤ w.input.text.length) :
    ahead w buf = w.input.text.getD buf 0 :: ahead w (buf + 1) := by
  have bound : buf < (w.input.text ++ [0]).length := by
    rw [List.length_append, List.length_singleton]
    omega
  rw [ahead, List.drop_eq_getElem_cons bound, ahead]
  congr 1
  rcases inside.lt_or_eq with less | rfl
  · simp [List.getElem_append_left less, List.getD_eq_getElem?_getD, less]
  · simp [List.getD_eq_getElem?_getD]

theorem ahead_nil {buf : Nat} (beyond : w.input.text.length < buf) : ahead w buf = [] := by
  rw [ahead, List.drop_eq_nil_iff, List.length_append, List.length_singleton]
  exact beyond

theorem capacity_plain {ch : Byte} (plain : ch ≠ 0x7d) (rest : List Byte) :
    capacity true (ch :: rest) = capacity true rest + 1 := by
  cases rest with
  | nil => exact if_pos ⟨rfl, plain⟩
  | cons next rest => rw [capacity, if_pos ⟨rfl, plain⟩]

theorem capacity_pair {binary : Bool} {ch : Byte} (pair : ¬(binary ∧ ch ≠ 0x7d)) (next : Byte)
    (rest : List Byte) : capacity binary (ch :: next :: rest) = capacity binary rest + 1 := by
  rw [capacity, if_neg pair]

theorem decode_cases (binary : Bool) (w : Buffers) (buf : Nat) :
    (capacity binary (ahead w buf) = 0 ∧ ∀ R, ¬Prog.wp bounds (Handler.decodeByte binary buf) R w) ∨
      ∃ ch buf', capacity binary (ahead w buf) = capacity binary (ahead w buf') + 1 ∧
        ∀ R, Prog.wp bounds (Handler.decodeByte binary buf) R w ↔ R (ch, buf') w := by
  by_cases inside : buf ≤ w.input.text.length
  · have first := bounds_text w buf inside
    rw [ahead_cons inside]
    generalize w.input.text.getD buf 0 = ch at first
    by_cases single : binary = true ∧ ch ≠ 0x7d
    · obtain ⟨rfl, plain⟩ := single
      right
      refine ⟨ch, buf + 1, capacity_plain plain _, ?_⟩
      intro R
      rw [Handler.decodeByte, wp_peek first]
      simp only [if_true, if_neg plain]
      exact Iff.rfl
    · by_cases more : buf + 1 ≤ w.input.text.length
      · have second := bounds_text w _ more
        right
        rw [ahead_cons more, capacity_pair single]
        generalize w.input.text.getD (buf + 1) 0 = ch' at second
        cases binary with
        | true =>
            have escape : ch = 0x7d := by simpa using single
            refine ⟨0x20 ^^^ ch', buf + 2, rfl, ?_⟩
            intro R
            rw [Handler.decodeByte, wp_peek first]
            simp only [if_true, escape]
            rw [wp_peek second]
            exact Iff.rfl
        | false =>
            refine ⟨(hex ch <<< 4 ||| hex ch').setWidth 8, buf + 2, rfl, ?_⟩
            intro R
            rw [Handler.decodeByte, wp_peek first]
            simp only [Bool.false_eq_true, if_false]
            rw [wp_peek second]
            exact Iff.rfl
      · left
        rw [ahead_nil (Nat.not_le.mp more)]
        refine ⟨by simpa [capacity] using single, ?_⟩
        intro R held
        rw [Handler.decodeByte, wp_peek first] at held
        cases binary with
        | true =>
            have escape : ch = 0x7d := by simpa using single
            simp only [if_true, escape] at held
            exact more held.1
        | false =>
            simp only [Bool.false_eq_true, if_false] at held
            exact more held.1
  · left
    rw [ahead_nil (Nat.not_le.mp inside)]
    refine ⟨rfl, ?_⟩
    intro R held
    exact inside held.1

theorem wp_hex2mem {binary : Bool} {buf : Nat} {mem : Word} {count : Nat} {R : Option Word → Buffers → Prop} :
    Prog.wp bounds (Handler.hex2mem binary buf mem count) R w ↔
      min count (readable mem + 1) ≤ capacity binary (ahead w buf) ∧
        R (if count ≤ readable mem then some (mem + BitVec.ofNat 32 count) else none) w := by
  induction count generalizing buf mem with
  | zero => simp [Handler.hex2mem]
  | succ count ih =>
      rw [Handler.hex2mem, Prog.wp_bind]
      rcases decode_cases binary w buf with ⟨none, never⟩ | ⟨ch, buf', one, decodes⟩
      · constructor
        · intro held
          exact absurd held (never _)
        · rintro ⟨room, -⟩
          omega
      · rw [decodes, one]
        dsimp only
        split
        · rename_i user
          have next : mem + 1 + BitVec.ofNat 32 count = mem + BitVec.ofNat 32 (count + 1) := by
            rw [Nat.add_comm count 1, BitVec.ofNat_add, BitVec.add_assoc]
            rfl
          have stored : Prog.wp bounds (do
              Handler.store mem ch
              Handler.hex2mem binary buf' (mem + 1) count) R w ↔
              Prog.wp bounds (Handler.hex2mem binary buf' (mem + 1) count) R w := by
            refine (wp_aside (q := .store mem ch) trivial).trans ?_
            exact ⟨fun held => held (), fun held _ => held⟩
          rw [stored, ih, next]
          simp only [readable_succ user, Nat.add_min_add_right, Nat.add_le_add_iff_right]
        · rename_i outside
          have unreadable : readable mem = 0 := if_neg outside
          simp [unreadable]

/-! ## The condition -/

/-- The digits of the bytes that can be read fit `output`, with the NUL if they all can. -/
def ReplyFits (ptr : List Byte) : Prop :=
  match Stub.addrLength ptr with
  | some (addr, length, _) =>
      2 * min (Stub.intCount length) (readable addr) +
        (if Stub.intCount length ≤ readable addr then 1 else 0) ≤ maxBuf
  | none => True

/-- There is data for the bytes that can be written, and for the first that cannot. -/
def DataFits (binary : Bool) (ptr : List Byte) : Prop :=
  match Stub.addrLength ptr with
  | some (addr, length, ch :: data) => ch = char ':' →
      min (Stub.intCount length) (readable addr + 1) ≤ capacity binary (data ++ [0])
  | _ => True

/-- The packets whose handlers keep to the buffers. -/
def Fits : List Byte → Prop
  | [] => True
  | command :: ptr =>
      let kind := Char.ofNat command.toNat
      (kind = 'G' → 720 ≤ ptr.length + 1) ∧ (kind = 'm' → ReplyFits ptr) ∧
        (kind = 'M' → DataFits false ptr) ∧ (kind = 'X' → DataFits true ptr)

theorem addrLength_suffix {ptr left : List Byte} {addr length : Word}
    (parsed : Stub.addrLength ptr = some (addr, length, left)) : left <:+ ptr := by
  unfold Stub.addrLength at parsed
  have first : (hexToInt ptr).2.2 <:+ ptr := go_suffix ptr 0 0
  dsimp only at parsed
  split at parsed
  · cases parsed
  · split at parsed
    · cases parsed
    · rename_i ch rest remains
      split at parsed
      · have second : (hexToInt rest).2.2 <:+ rest := go_suffix rest 0 0
        split at parsed
        · cases parsed
        · cases parsed
          rw [remains] at first
          exact second.trans ((List.suffix_cons ch rest).trans first)
      · cases parsed

theorem readMem_iff {command : Byte} {ptr : List Byte} (text : w.input.text = command :: ptr)
    (short : w.input.text.length < maxBuf) :
    Prog.wp bounds (Handler.readMem 1) (fun _ w' => Ended w') w ↔ ReplyFits ptr := by
  have inside : 1 ≤ w.input.text.length := by simp [text]
  have rest : w.input.text.drop 1 = ptr := by simp [text]
  rw [Handler.readMem, Prog.wp_bind, wp_addrLength short inside, rest, ReplyFits]
  cases Stub.addrLength ptr with
  | none =>
      simp only [Option.map_none, iff_true]
      exact wp_answer _ (by decide) w
  | some parsed =>
      obtain ⟨addr, length, left⟩ := parsed
      simp only [Option.map_some]
      rw [Prog.wp_bind]
      constructor
      · intro held
        simpa using room_of_mem2hex (Nat.zero_le _) held
      · intro room
        apply wp_mem2hex (by simpa using room)
        intro output complete
        split
        · rename_i all
          rw [if_pos all] at room
          refine ⟨0 + 2 * Stub.intCount length, ?_, complete all, ?_⟩
          · rw [Nat.min_eq_left all] at room
            omega
          · rw [Nat.min_eq_left all] at room
            change 2 * Stub.intCount length + 1 ≤ 2048 at room
            show 0 + 2 * Stub.intCount length + 4 ≤ 4096
            omega
        · exact wp_answer _ (by decide) _

theorem writeMem_iff (binary : Bool) {command : Byte} {ptr : List Byte}
    (text : w.input.text = command :: ptr) (short : w.input.text.length < maxBuf) :
    Prog.wp bounds (Handler.writeMem binary 1) (fun _ w' => Ended w') w ↔ DataFits binary ptr := by
  have inside : 1 ≤ w.input.text.length := by simp [text]
  have rest : w.input.text.drop 1 = ptr := by simp [text]
  rw [Handler.writeMem, Prog.wp_bind, wp_addrLength short inside, rest, DataFits]
  cases parsed : Stub.addrLength ptr with
  | none =>
      simp only [Option.map_none, iff_true]
      exact wp_answer _ (by decide) w
  | some found =>
      obtain ⟨addr, length, left⟩ := found
      obtain ⟨before, split⟩ := (addrLength_suffix parsed).trans (List.suffix_cons command ptr)
      rw [← text] at split
      have place : w.input.text.length - left.length = before.length := by
        rw [← split, List.length_append]
        omega
      simp only [Option.map_some, place]
      rw [wp_peek ((bounds_text w).from split.symm)]
      have refused := wp_answer ['E', '0', '2'] (by decide) w
      cases left with
      | nil => exact iff_of_true refused trivial
      | cons ch data =>
          rw [List.headD_cons]
          have data_ahead : ahead w (before.length + 1) = data ++ [0] := by
            rw [ahead, ← split, List.append_assoc, List.drop_append]
            simp
          by_cases colon : ch = char ':'
          · simp only [colon, if_true, true_implies]
            have answered (last : Option Word) : Prog.wp bounds
                (if last.getD 0 ≠ 0 then Handler.answer ['O', 'K'] else Handler.answer ['E', '0', '3'])
                (fun _ w' => Ended w') w := by
              split
              · exact wp_answer _ (by decide) w
              · exact wp_answer _ (by decide) w
            rw [Prog.wp_bind, wp_hex2mem, data_ahead, and_iff_left (answered _)]
          · rw [if_neg colon]
            exact iff_of_true refused fun same => absurd same colon

theorem capacity_hex (data : List Byte) : capacity false data = data.length / 2 := by
  match data with
  | [] => rfl
  | [_] => simp [capacity]
  | _ :: _ :: rest =>
      rw [capacity_pair (by simp), capacity_hex rest]
      simp only [List.length_cons]
      omega

theorem ahead_length (w : Buffers) (buf : Nat) : (ahead w buf).length = w.input.text.length + 1 - buf := by
  simp [ahead]

def InContext (groups : List (Reg × Nat)) : Prop :=
  ∀ g ∈ groups, 4 * (2 + g.1.slot) + 4 * g.2 ≤ 4 * contextWords

theorem packetRegs_inContext : InContext Stub.packetRegs := by
  unfold InContext contextWords
  decide

theorem writeRegs_iff (L : Layout) {groups : List (Reg × Nat)} (layout : InContext groups) {ptr : Nat}
    (start : ptr ≤ w.input.text.length + 1) :
    Prog.wp bounds (Handler.writeRegs L groups ptr) (fun _ w' => Ended w') w ↔
      ptr + 8 * (groups.map Prod.snd).sum ≤ w.input.text.length + 1 := by
  induction groups generalizing ptr with
  | nil => exact iff_of_true (wp_answer _ (by decide) w) start
  | cons group groups ih =>
      obtain ⟨r, count⟩ := group
      have all : 4 * count ≤ readable (L.reg r) := reg_readable L r (layout _ List.mem_cons_self)
      have rest : InContext groups := fun g mem => layout g (List.mem_cons_of_mem _ mem)
      have taken : min (4 * count) (readable (L.reg r) + 1) = 4 * count := Nat.min_eq_left (by omega)
      rw [Handler.writeRegs, Prog.wp_bind, wp_hex2mem, taken, capacity_hex, ahead_length, List.map_cons,
        List.sum_cons]
      dsimp only
      by_cases room : ptr + 8 * count ≤ w.input.text.length + 1
      · rw [ih rest room, and_iff_right (by omega)]
        omega
      · apply iff_of_false
        · rintro ⟨fits, -⟩
          omega
        · omega

theorem wp_readRegs (L : Layout) {groups : List (Reg × Nat)} (layout : InContext groups) {ptr : Nat}
    (room : ptr + 8 * (groups.map Prod.snd).sum < maxBuf) (ended : Ended w) :
    Prog.wp bounds (Handler.readRegs L groups ptr) (fun _ w' => Ended w') w := by
  induction groups generalizing ptr w with
  | nil => exact ended
  | cons group groups ih =>
      obtain ⟨r, count⟩ := group
      rw [List.map_cons, List.sum_cons] at room
      have all : 4 * count ≤ readable (L.reg r) := reg_readable L r (layout _ List.mem_cons_self)
      have rest : InContext groups := fun g mem => layout g (List.mem_cons_of_mem _ mem)
      rw [Handler.readRegs, Prog.wp_bind]
      apply wp_mem2hex_all all (by dsimp only at room; omega)
      intro output nul
      apply ih rest
      · dsimp only [Option.getD_some] at room ⊢
        omega
      · refine ⟨_, ?_, nul, ?_⟩
        · dsimp only at room
          omega
        · dsimp only at room
          change _ < 2048 at room
          show _ ≤ 4096
          omega

theorem wp_goes_on (p : Handling Unit) :
    Prog.wp bounds (p >>= fun _ => pure true) (fun more w' => more = true → Ended w') w ↔
      Prog.wp bounds p (fun _ w' => Ended w') w := by
  rw [Prog.wp_bind]
  constructor
  · exact Prog.wp_mono fun _ _ ended => ended rfl
  · exact Prog.wp_mono fun _ _ ended _ => ended

theorem wp_ends {p : Handling Unit} (held : Prog.wp bounds p (fun _ _ => True) w) :
    Prog.wp bounds (p >>= fun _ => pure false) (fun more w' => more = true → Ended w') w := by
  rw [Prog.wp_bind]
  exact Prog.wp_mono (fun _ _ _ more => nomatch more) held

theorem switch_iff (L : Layout) (sigval : Byte) {command : Byte} {ptr : List Byte}
    (text : w.input.text = command :: ptr) (short : w.input.text.length < maxBuf) (ended : Ended w) :
    Prog.wp bounds (Handler.switch L sigval command) (fun more w' => more = true → Ended w') w ↔
      Fits w.input.text := by
  have inside : 1 ≤ w.input.text.length := by simp [text]
  have exit : Prog.wp bounds Handler.exitGame (fun _ w' => Ended w') w := by
    refine ⟨trivial, ?_⟩
    rintro _ _ rfl
    exact ended
  rw [text, Fits]
  unfold Handler.switch
  split
  case h_1 kind =>
    simp only [kind]
    exact iff_of_true ((wp_goes_on _).mpr (wp_buildTrapCmd L sigval fun _ _ ended => ended)) (by simp)
  case h_2 kind =>
    simp only [kind]
    exact iff_of_true (wp_ends (wp_cont short inside trivial)) (by simp)
  case h_3 kind =>
    simp only [kind]
    refine iff_of_true (wp_ends ⟨ended, ?_⟩) (by simp)
    rintro _ _ rfl
    trivial
  case h_4 kind =>
    simp only [kind]
    exact iff_of_true ((wp_goes_on _).mpr (wp_readRegs L packetRegs_inContext (by decide) ended)) (by simp)
  case h_5 kind =>
    simp only [kind]
    rw [wp_goes_on, writeRegs_iff L packetRegs_inContext (by omega)]
    simp [text, Stub.packetRegs]
  case h_6 kind =>
    simp only [kind]
    rw [wp_goes_on, readMem_iff text short]
    simp
  case h_7 kind =>
    simp only [kind]
    rw [wp_goes_on, writeMem_iff true text short]
    simp
  case h_8 kind =>
    simp only [kind]
    rw [wp_goes_on, writeMem_iff false text short]
    simp
  case h_9 kind =>
    simp only [kind]
    exact iff_of_true (wp_ends (wp_step short inside trivial)) (by simp)
  case h_10 kind =>
    simp only [kind]
    exact iff_of_true ((wp_goes_on _).mpr (replies_query 1 inside short ended)) (by simp)
  case h_11 kind =>
    simp only [kind]
    exact iff_of_true ((wp_goes_on _).mpr (replies_hwbp true inside short ended)) (by simp)
  case h_12 kind =>
    simp only [kind]
    exact iff_of_true ((wp_goes_on _).mpr (replies_hwbp false inside short ended)) (by simp)
  case h_13 kind =>
    simp only [kind]
    exact iff_of_true ((wp_goes_on _).mpr exit) (by simp)
  case h_14 kind =>
    simp only [kind]
    exact iff_of_true ((wp_goes_on _).mpr exit) (by simp)
  case h_15 =>
    refine iff_of_true (fun _ => ended) ?_
    refine ⟨?_, ?_, ?_, ?_⟩ <;> intro kind <;> exact absurd kind ‹_›

def Buffers.cleared (w : Buffers) : Buffers := { w with output := Function.update w.output 0 0 }

theorem ended_cleared (w : Buffers) : Ended w.cleared := by
  refine ⟨0, by decide, ?_, by decide⟩
  exact Function.update_self 0 (0 : Byte) w.output

theorem handlePacket_iff (L : Layout) (sigval : Byte) (short : w.input.text.length < maxBuf) :
    Prog.wp bounds (Handler.handlePacket L sigval) (fun _ _ => True) w ↔ Fits w.input.text := by
  have sends (more : Bool) (w' : Buffers) : Prog.wp bounds (do
      if more then Handler.putpacket
      pure more) (fun _ _ => True) w' ↔ (more = true → Ended w') := by
    cases more with
    | true =>
        constructor
        · exact fun held _ => held.1
        · intro ended
          exact ⟨ended rfl, fun _ _ _ => trivial⟩
    | false => exact iff_of_true trivial nofun
  have tail : (fun more : Bool => Prog.wp bounds (do
      if more then Handler.putpacket
      pure more) fun _ _ => True) = fun more w' => (more = true → Ended w') := by
    funext more w'
    exact propext (sends more w')
  rw [Handler.handlePacket, wp_poke, and_iff_right (by decide : 0 < maxBuf),
    show { w with output := Function.update w.output 0 0 } = w.cleared from rfl, wp_peek (bounds_text w.cleared 0 (Nat.zero_le _)), Prog.wp_bind, tail]
  cases text : w.input.text with
  | nil =>
      have nul : w.cleared.input.text.getD 0 0 = 0 := by simp [Buffers.cleared, text]
      rw [nul]
      exact iff_of_true (fun _ => ended_cleared w) trivial
  | cons command ptr =>
      have first : w.cleared.input.text.getD 0 0 = command := by simp [Buffers.cleared, text]
      have switched := switch_iff (w := w.cleared) L sigval text short (ended_cleared w)
      rw [first, ← text]
      exact switched

/-! ## Every sequence of packets -/

def FitsNext (a : Option Byte) (w : Buffers) : Prop := ∀ sigval, a = some sigval → Fits w.input.text

/-- A packet that waits to be handled ends in the buffer. -/
def Waiting (a : Option Byte) (w : Buffers) : Prop :=
  ∀ sigval, a = some sigval → w.input.text.length < maxBuf

theorem wp_nextPacket (sigval : Byte) (w : Buffers) :
    Prog.wp bounds (Handler.nextPacket sigval) Waiting w := by
  refine ⟨trivial, ?_⟩
  intro (received : Bool) w' short
  cases received with
  | true => exact fun _ _ => short
  | false => exact nofun

theorem wp_enter (L : Layout) (w : Buffers) : Prog.wp bounds (Handler.enter L) (fun _ _ => True) w := by
  refine (wp_aside (q := .get .ctxType) trivial).mpr ?_
  intro (type : Word)
  refine (wp_aside (q := .get .cause) trivial).mpr ?_
  intro (cause : Word)
  refine (wp_aside (q := .recoverStep) trivial).mpr ?_
  intro _
  refine (wp_aside (q := .get .started) trivial).mpr ?_
  intro (started : Word)
  dsimp only
  split
  · rw [Prog.wp_bind]
    apply wp_buildTrapCmd
    intro w' _ ended
    exact ⟨ended, fun _ _ _ => trivial⟩
  · trivial

theorem wp_turn (L : Layout) {a : Option Byte} {w : Buffers} (waiting : Waiting a w) (fits : FitsNext a w) :
    Prog.wp bounds (Handler.turn L a) Waiting w := by
  cases a with
  | none =>
      rw [Handler.turn, Prog.wp_bind]
      exact Prog.wp_mono (fun sigval w' _ => wp_nextPacket sigval w') (wp_enter L w)
  | some sigval =>
      have handled := (handlePacket_iff L sigval (waiting sigval rfl)).mpr (fits sigval rfl)
      rw [Handler.turn, Prog.wp_bind]
      apply Prog.wp_mono _ handled
      intro more w' _
      split
      · exact wp_nextPacket sigval w'
      · exact nofun

def stubServer (L : Layout) : System (Handling (Option Byte) × Buffers) Unit :=
  Prog.server bounds (Handler.turn L) none fun _ => True

instance (ptr : List Byte) : Decidable (ReplyFits ptr) := by
  unfold ReplyFits
  split <;> infer_instance

def exampleLayout : Layout where
  ctx := 0x08900000
  daddr := 0x08901000
  ctx_user := by
    unfold contextWords
    decide +kernel
  daddr_user := by decide

def packetBuffers (text : List Byte) : Buffers := ⟨⟨text, fun _ => 0⟩, fun _ => 0⟩

end Psplink.Gdb
