import Psplink.Gdb.PacketBounds
import Psplink.Gdb.Putpacket

/-!
# The handlers in one memory

The buffers of the stub and its context lie in the user memory that the packets read and write. What
each handler does to that memory, while it keeps away from the buffers.
-/

namespace Psplink.Gdb
open Psplink.Lib Psplink.Debug Psplink.Exception

abbrev Bytes := Word → Byte

def offset (base : Word) (i : Nat) : Word := base + BitVec.ofNat 32 i

theorem offset_zero (base : Word) : offset base 0 = base := by simp [offset]

theorem offset_offset (base : Word) (i j : Nat) : offset (offset base i) j = offset base (i + j) := by
  rw [offset, offset, offset, BitVec.ofNat_add, BitVec.add_assoc]

theorem offset_injective {base : Word} {i j : Nat} (hi : i < 2 ^ 32) (hj : j < 2 ^ 32)
    (same : offset base i = offset base j) : i = j := by
  have numbers := congrArg BitVec.toNat ((BitVec.add_right_inj base).mp same)
  rwa [BitVec.toNat_ofNat, BitVec.toNat_ofNat, Nat.mod_eq_of_lt hi, Nat.mod_eq_of_lt hj] at numbers

theorem offset_toNat {base : Word} {i : Nat} (bound : base.toNat + i < 2 ^ 32) :
    (offset base i).toNat = base.toNat + i := by
  rw [offset, BitVec.toNat_add, BitVec.toNat_ofNat]
  omega

/-- Where the stub's data is. `scratch`: the memory that the stub works in, between packets too; the
context is not part of it. -/
structure Placed extends Layout where
  input : Word
  output : Word
  scratch : Word → Prop
  input_scratch : ∀ i < maxBuf, scratch (offset input i)
  output_scratch : ∀ i < maxBuf, scratch (offset output i)
  apart : ∀ i < maxBuf, ∀ j < maxBuf, offset input i ≠ offset output j
  ctx_kept : ∀ i < 4 * contextWords, ¬scratch (offset ctx i)

namespace Placed

variable (P : Placed)

def inAt (mem : Bytes) (i : Nat) : Byte := mem (offset P.input i)

def outAt (mem : Bytes) (i : Nat) : Byte := mem (offset P.output i)

def flat : Prog.Contract StubCall StubCall.Answer Bytes where
  pre _ _ := True
  post mem := fun
    | .peek i => fun ch mem' => ch = P.inAt mem i ∧ mem' = mem
    | .poke i ch => fun _ mem' => mem' = Function.update mem (offset P.output i) ch
    | .load a => fun ch mem' => ch = mem a ∧ mem' = mem
    | .store a ch => fun _ mem' => mem' = Function.update mem a ch
    | _ => fun _ mem' => mem' = mem

structure OnlyOutput (mem mem' : Bytes) : Prop where
  kept : ∀ a, ¬P.scratch a → mem' a = mem a
  input : ∀ i < maxBuf, P.inAt mem' i = P.inAt mem i

def Received (mem : Bytes) (text : List Byte) : Prop := ∀ i ≤ text.length, P.inAt mem i = text.getD i 0

end Placed

variable {P : Placed} {mem mem' mem'' : Bytes} {α : Type} {R : α → Bytes → Prop}

theorem Placed.OnlyOutput.refl (mem : Bytes) : P.OnlyOutput mem mem := ⟨fun _ _ => rfl, fun _ _ => rfl⟩

theorem Placed.OnlyOutput.trans (first : P.OnlyOutput mem mem') (second : P.OnlyOutput mem' mem'') :
    P.OnlyOutput mem mem'' where
  kept a own := (second.kept a own).trans (first.kept a own)
  input i less := (second.input i less).trans (first.input i less)

theorem Placed.Received.textAt {text : List Byte} (received : P.Received mem text) :
    TextAt P.flat mem text := by
  intro i le
  refine ⟨trivial, ?_⟩
  intro a mem'
  show a = P.inAt mem i ∧ mem' = mem ↔ _
  rw [received i le]

theorem Placed.onlyOutput_poke {i : Nat} (room : i < maxBuf) (mem : Bytes) (ch : Byte) :
    P.OnlyOutput mem (Function.update mem (offset P.output i) ch) where
  kept a own := by
    apply Function.update_of_ne
    rintro rfl
    exact own (P.output_scratch i room)
  input j less := Function.update_of_ne (P.apart j less i room) _ _

theorem Placed.outAt_poke {i j : Nat} (hi : i < maxBuf) (hj : j < maxBuf) (mem : Bytes) (ch : Byte) :
    P.outAt (Function.update mem (offset P.output i) ch) j = Function.update (P.outAt mem) i ch j := by
  unfold outAt
  by_cases same : j = i
  · subst same
    rw [Function.update_self, Function.update_self]
  · have other : offset P.output j ≠ offset P.output i := by
      intro equal
      change i < 2048 at hi
      change j < 2048 at hj
      exact same (offset_injective (by omega) (by omega) equal)
    rw [Function.update_of_ne other, Function.update_of_ne same]

theorem flat_poke {i : Nat} {ch : Byte} {f : Unit → Handling α} :
    Prog.wp P.flat (Handler.poke i ch >>= f) R mem ↔
      Prog.wp P.flat (f ()) R (Function.update mem (offset P.output i) ch) := by
  constructor
  · exact fun held => held.2 () _ rfl
  · intro held
    refine ⟨trivial, ?_⟩
    rintro ⟨⟩ _ rfl
    exact held

theorem flat_load {a : Word} {f : Byte → Handling α} :
    Prog.wp P.flat (Handler.load a >>= f) R mem ↔ Prog.wp P.flat (f (mem a)) R mem := by
  constructor
  · exact fun held => held.2 (mem a) mem ⟨rfl, rfl⟩
  · intro held
    refine ⟨trivial, ?_⟩
    rintro _ _ ⟨rfl, rfl⟩
    exact held

theorem flat_store {a : Word} {ch : Byte} {f : Unit → Handling α} :
    Prog.wp P.flat (Handler.store a ch >>= f) R mem ↔
      Prog.wp P.flat (f ()) R (Function.update mem a ch) := by
  constructor
  · exact fun held => held.2 () _ rfl
  · intro held
    refine ⟨trivial, ?_⟩
    rintro ⟨⟩ _ rfl
    exact held

/-! ## What is put into `output` -/

theorem fill_congr {f g : Nat → Byte} (same : ∀ j < maxBuf, f j = g j) (p : Nat) (text : List Byte) :
    ∀ j < maxBuf, fill f p text j = fill g p text j := by
  induction text generalizing f g p with
  | nil => exact same
  | cons ch text ih =>
      apply ih
      intro j less
      rw [Function.update_apply, Function.update_apply, same j less]

theorem fill_append (f : Nat → Byte) (p : Nat) (first second : List Byte) :
    fill f p (first ++ second) = fill (fill f p first) (p + first.length) second := by
  induction first generalizing f p with
  | nil => rfl
  | cons ch first ih =>
      rw [List.cons_append, fill, ih, fill, List.length_cons]
      congr 1
      omega

theorem fill_over_nul (f : Nat → Byte) (p : Nat) (ch : Byte) (text : List Byte) :
    fill (fill f p [0]) p (ch :: text) = fill f p (ch :: text) := by
  simp only [fill, Function.update_idem]

/-- `output` holds the text from a place on, and is otherwise as it was. -/
structure Placed.Puts (P : Placed) (ptr : Nat) (text : List Byte) (mem mem' : Bytes) : Prop extends
    P.OnlyOutput mem mem' where
  output : ∀ j < maxBuf, P.outAt mem' j = fill (P.outAt mem) ptr text j

theorem Placed.Puts.cons {ptr : Nat} {ch : Byte} {text : List Byte} (room : ptr < maxBuf)
    (rest : P.Puts (ptr + 1) text (Function.update mem (offset P.output ptr) ch) mem') :
    P.Puts ptr (ch :: text) mem mem' where
  toOnlyOutput := (onlyOutput_poke room mem ch).trans rest.toOnlyOutput
  output j less := by
    rw [rest.output j less, fill]
    exact fill_congr (fun j less => outAt_poke room less mem ch) _ _ j less

theorem Placed.Puts.nil (ptr : Nat) (mem : Bytes) : P.Puts ptr [] mem mem :=
  ⟨.refl mem, fun _ _ => rfl⟩

theorem Placed.Puts.append {ptr : Nat} {first second : List Byte} (before : P.Puts ptr first mem mem')
    (after : P.Puts (ptr + first.length) second mem' mem'') : P.Puts ptr (first ++ second) mem mem'' where
  toOnlyOutput := before.toOnlyOutput.trans after.toOnlyOutput
  output j less := by
    rw [after.output j less, fill_append]
    exact fill_congr before.output _ _ j less

theorem flat_puts {text : List Byte} {ptr : Nat} (room : ptr + text.length ≤ maxBuf) {R : Nat → Bytes → Prop}
    (next : ∀ mem', P.Puts ptr text mem mem' → R (ptr + text.length) mem') :
    Prog.wp P.flat (Handler.puts text ptr) R mem := by
  induction text generalizing ptr mem with
  | nil => exact next mem (.nil ptr mem)
  | cons ch text ih =>
      rw [List.length_cons] at room next
      rw [Handler.puts, flat_poke]
      apply ih (by omega)
      intro mem' rest
      have place : ptr + 1 + text.length = ptr + (text.length + 1) := by omega
      rw [place]
      exact next mem' (.cons (by omega) rest)

theorem flat_end {ptr : Nat} (room : ptr < maxBuf) {R : Unit → Bytes → Prop}
    (next : ∀ mem', P.Puts ptr [0] mem mem' → R () mem') :
    Prog.wp P.flat (Handler.poke ptr 0) R mem := by
  refine ⟨trivial, ?_⟩
  rintro ⟨⟩ _ rfl
  exact next _ (.cons room (.nil _ _))

theorem flat_answer (text : List Char) (room : text.length < maxBuf) {R : Unit → Bytes → Prop}
    (next : ∀ mem', P.Puts 0 (text.map char ++ [0]) mem mem' → R () mem') :
    Prog.wp P.flat (Handler.answer text) R mem := by
  rw [Handler.answer, Handler.strcpy, Prog.wp_bind]
  apply flat_puts (by simpa using room.le)
  intro mem' first
  apply flat_end (by simpa using room)
  intro mem'' last
  exact next mem'' (first.append last)

theorem Placed.Puts.holds {text : List Byte} (puts : P.Puts 0 (text ++ [0]) mem mem')
    (room : text.length < maxBuf) (plain : 0 ∉ text) : Holds (P.outAt mem') text := by
  constructor
  · intro i h
    have byte := fill_eq (P.outAt mem) (text ++ [0]) 0 i (by simp; omega)
    rw [Nat.zero_add, List.getElem_append_left h] at byte
    rw [puts.output i (h.trans room), byte]
  · have byte := fill_eq (P.outAt mem) (text ++ [0]) 0 text.length (by simp)
    rw [Nat.zero_add] at byte
    rw [puts.output _ room, byte]
    simp
  · exact plain

/-! ## Memory -/

def readBytes (mem : Bytes) (a : Word) : Nat → List Byte
  | 0 => []
  | n + 1 => mem a :: readBytes mem (a + 1) n

def writeBytes (mem : Bytes) (a : Word) : List Byte → Bytes
  | [] => mem
  | ch :: bytes => writeBytes (Function.update mem a ch) (a + 1) bytes

theorem readBytes_congr {a : Word} {n : Nat} (same : ∀ i < n, mem (offset a i) = mem' (offset a i)) :
    readBytes mem a n = readBytes mem' a n := by
  induction n generalizing a with
  | zero => rfl
  | succ n ih =>
      have first := same 0 (Nat.zero_lt_succ n)
      rw [offset_zero] at first
      rw [readBytes, readBytes, first, ih]
      intro i less
      have here := same (i + 1) (Nat.succ_lt_succ less)
      rwa [Nat.add_comm, ← offset_offset] at here

theorem readBytes_append (mem : Bytes) (a : Word) (n k : Nat) :
    readBytes mem a (n + k) = readBytes mem a n ++ readBytes mem (offset a n) k := by
  induction n generalizing a with
  | zero => simp [readBytes, offset_zero]
  | succ n ih =>
      have next : offset (a + 1) n = offset a (n + 1) := by
        rw [Nat.add_comm n 1]
        exact offset_offset a 1 n
      rw [Nat.add_right_comm, readBytes, readBytes, ih, next, List.cons_append]

theorem writeBytes_other {a x : Word} {bytes : List Byte} (other : ∀ i < bytes.length, x ≠ offset a i) :
    writeBytes mem a bytes x = mem x := by
  induction bytes generalizing mem a with
  | nil => rfl
  | cons ch bytes ih =>
      have first := other 0 (Nat.zero_lt_succ _)
      rw [offset_zero] at first
      rw [writeBytes, ih, Function.update_of_ne first]
      intro i less
      have here := other (i + 1) (Nat.succ_lt_succ less)
      rwa [Nat.add_comm, ← offset_offset] at here

theorem writeBytes_congr {x : Word} (same : mem x = mem' x) (a : Word) (bytes : List Byte) :
    writeBytes mem a bytes x = writeBytes mem' a bytes x := by
  induction bytes generalizing mem mem' a with
  | nil => exact same
  | cons ch bytes ih =>
      apply ih
      rw [Function.update_apply, Function.update_apply, same]

theorem writeBytes_append (mem : Bytes) (a : Word) (first second : List Byte) :
    writeBytes mem a (first ++ second) = writeBytes (writeBytes mem a first) (offset a first.length) second := by
  induction first generalizing mem a with
  | nil => simp [writeBytes, offset_zero]
  | cons ch first ih =>
      have next : offset (a + 1) first.length = offset a (first.length + 1) := by
        rw [Nat.add_comm first.length 1]
        exact offset_offset a 1 first.length
      rw [List.cons_append, writeBytes, ih, next, writeBytes, List.length_cons]

theorem readBytes_writeBytes {a : Word} {bytes : List Byte} (bound : bytes.length < 2 ^ 32) :
    readBytes (writeBytes mem a bytes) a bytes.length = bytes := by
  induction bytes generalizing mem a with
  | nil => rfl
  | cons ch bytes ih =>
      rw [List.length_cons] at bound
      have first : writeBytes mem a (ch :: bytes) a = ch := by
        rw [writeBytes, writeBytes_other, Function.update_self]
        intro i less same
        have equal : offset a 0 = offset a (1 + i) := by
          rw [offset_zero, ← offset_offset]
          exact same
        have index := offset_injective (by omega) (by omega) equal
        omega
      rw [List.length_cons, readBytes, first]
      rw [writeBytes, ih (by omega)]

theorem writeBytes_readBytes (mem : Bytes) (a : Word) (n : Nat) : writeBytes mem a (readBytes mem a n) = mem := by
  induction n generalizing a with
  | zero => rfl
  | succ n ih => rw [readBytes, writeBytes, Function.update_eq_self, ih]

def hexOf (bytes : List Byte) : List Byte := bytes.flatMap hexByte

theorem hexOf_cons (ch : Byte) (bytes : List Byte) : hexOf (ch :: bytes) = hexByte ch ++ hexOf bytes := rfl

theorem hexOf_append (first second : List Byte) : hexOf (first ++ second) = hexOf first ++ hexOf second :=
  List.flatMap_append

@[simp] theorem hexOf_length (bytes : List Byte) : (hexOf bytes).length = 2 * bytes.length := by
  induction bytes with
  | nil => rfl
  | cons ch bytes ih =>
      rw [hexOf_cons, List.length_append, ih, List.length_cons]
      simp only [hexByte, List.length_cons, List.length_nil]
      omega

@[simp] theorem readBytes_length (mem : Bytes) (a : Word) (n : Nat) : (readBytes mem a n).length = n := by
  induction n generalizing a with
  | zero => rfl
  | succ n ih => rw [readBytes, List.length_cons, ih]

/-- The addresses of a range that the stub may access and does not work in. -/
def Placed.Free (P : Placed) (a : Word) (n : Nat) : Prop :=
  ∀ i < n, userMemory (offset a i) = true ∧ ¬P.scratch (offset a i)

theorem Placed.Free.first {a : Word} {n : Nat} (free : P.Free a (n + 1)) :
    userMemory a = true ∧ ¬P.scratch a := by
  have here := free 0 (Nat.zero_lt_succ n)
  rwa [offset_zero] at here

theorem Placed.Free.rest {a : Word} {n : Nat} (free : P.Free a (n + 1)) : P.Free (a + 1) n := by
  intro i less
  have here := free (i + 1) (Nat.succ_lt_succ less)
  rwa [Nat.add_comm, ← offset_offset] at here

theorem flat_mem2hex {a : Word} {n buf : Nat} (free : P.Free a n) (room : buf + 2 * n < maxBuf)
    {R : Option Nat → Bytes → Prop}
    (next : ∀ mem', P.Puts buf (hexOf (readBytes mem a n) ++ [0]) mem mem' → R (some (buf + 2 * n)) mem') :
    Prog.wp P.flat (Handler.mem2hex a buf n) R mem := by
  induction n generalizing a buf mem with
  | zero =>
      rw [Handler.mem2hex, flat_poke]
      exact next _ (.cons room (.nil _ _))
  | succ n ih =>
      rw [Handler.mem2hex, if_pos free.first.1, flat_load, flat_poke, flat_poke]
      apply ih free.rest (by omega)
      intro mem' rest
      have place : buf + 2 + 2 * n = buf + 2 * (n + 1) := by omega
      have first := Placed.onlyOutput_poke (P := P) (i := buf) (by omega) mem (hexchars (mem a >>> 4 &&& 0xf))
      have second := Placed.onlyOutput_poke (P := P) (i := buf + 1) (by omega)
        (Function.update mem (offset P.output buf) (hexchars (mem a >>> 4 &&& 0xf))) (hexchars (mem a &&& 0xf))
      have same : readBytes (Function.update (Function.update mem (offset P.output buf)
          (hexchars (mem a >>> 4 &&& 0xf))) (offset P.output (buf + 1)) (hexchars (mem a &&& 0xf))) (a + 1) n =
          readBytes mem (a + 1) n := by
        apply readBytes_congr
        intro i less
        exact (first.trans second).kept _ (free.rest i less).2
      rw [same] at rest
      rw [place]
      exact next mem' (.cons (by omega) (.cons (by omega) rest))

end Psplink.Gdb
