import Psplink.Gdb.FlatMemory

/-!
# Round trips

What a packet writes to memory or to the registers, the packet that asks for it finds again.
-/

namespace Psplink.Gdb
open Psplink.Lib Psplink.Debug Psplink.Exception

/-! ## Numbers -/

theorem hex_digitValue {c v : Byte} (digit : digitValue c = some v) :
    hex c = v.setWidth 32 ∧ v.toNat < 16 := by
  have all : ((List.range 256).all fun n => (digitValue (BitVec.ofNat 8 n)).all fun v =>
      hex (BitVec.ofNat 8 n) = v.setWidth 32 ∧ v.toNat < 16) = true := by decide +kernel
  have here := List.all_eq_true.mp all c.toNat (List.mem_range.mpr c.isLt)
  simpa [digit] using here

theorem hex_not_negative {c v : Byte} (digit : digitValue c = some v) : (hex c).slt 0 = false := by
  obtain ⟨value, small⟩ := hex_digitValue digit
  have all : ∀ n : Fin 16, ((BitVec.ofNat 8 n).setWidth 32 : Word).slt 0 = false := by decide
  have here := all ⟨v.toNat, small⟩
  rwa [BitVec.ofNat_toNat, BitVec.setWidth_eq, ← value] at here

def digitsValue (value : Word) : List Byte → Option Word
  | [] => some value
  | ch :: digits => (digitValue ch).bind fun v => digitsValue (value <<< 4 ||| v.setWidth 32) digits

structure Number (digits : List Byte) (value : Word) : Prop where
  some_digit : digits ≠ []
  value_eq : digitsValue 0 digits = some value

theorem go_digits {value result : Word} {digits rest : List Byte}
    (number : digitsValue value digits = some result) (ends : (hex (rest.headD 0)).slt 0 = true)
    (numChars : Nat) : hexToInt.go (digits ++ rest) value numChars = (result, numChars + digits.length, rest) := by
  induction digits generalizing value numChars with
  | nil =>
      cases number
      cases rest with
      | nil => rfl
      | cons ch rest =>
          rw [List.headD_cons] at ends
          rw [List.nil_append, hexToInt.go, if_pos ends]
          rfl
  | cons ch digits ih =>
      rw [digitsValue, Option.bind_eq_some_iff] at number
      obtain ⟨v, digit, number⟩ := number
      have other : ¬(hex ch).slt 0 := by
        rw [hex_not_negative digit]
        exact Bool.false_ne_true
      rw [List.cons_append, hexToInt.go, if_neg other, (hex_digitValue digit).1, ih number, List.length_cons]
      congr 2
      omega

theorem Number.hexToInt {digits rest : List Byte} {value : Word} (number : Number digits value)
    (ends : (hex (rest.headD 0)).slt 0 = true) :
    hexToInt (digits ++ rest) = (value, digits.length, rest) := by
  rw [Gdb.hexToInt, go_digits number.value_eq ends, Nat.zero_add]

def rangeText (addr length : List Byte) : List Byte := addr ++ char ',' :: length

theorem addrLength_rangeText {addr length rest : List Byte} {a n : Word} (first : Number addr a)
    (second : Number length n) (ends : (hex (rest.headD 0)).slt 0 = true) :
    Stub.addrLength (rangeText addr length ++ rest) = some (a, n, rest) := by
  have comma : (hex ((char ',' :: (length ++ rest)).headD 0)).slt 0 = true := by
    rw [List.headD_cons]
    decide
  have some₁ : addr.length ≠ 0 := List.length_eq_zero_iff.not.mpr first.some_digit
  have some₂ : length.length ≠ 0 := List.length_eq_zero_iff.not.mpr second.some_digit
  rw [rangeText, List.append_assoc, List.cons_append, Stub.addrLength, first.hexToInt comma]
  simp only [if_neg some₁, if_true, second.hexToInt ends, if_neg some₂]

/-! ## Bytes -/

/-- A byte as it stands in a packet. Any byte may be escaped. -/
inductive Stands : Bool → List Byte → Byte → Prop
  | digits {c1 c2 high low : Byte} (first : digitValue c1 = some high) (second : digitValue c2 = some low) :
      Stands false [c1, c2] (high * 16 + low)
  | plain {ch : Byte} (free : ch ≠ 0x7d) : Stands true [ch] ch
  | escaped (ch : Byte) : Stands true [0x7d, ch ^^^ 0x20] ch

inductive Carries (binary : Bool) : List Byte → List Byte → Prop
  | nil : Carries binary [] []
  | cons {chars data bytes : List Byte} {ch : Byte} (first : Stands binary chars ch)
      (rest : Carries binary data bytes) : Carries binary (chars ++ data) (ch :: bytes)

theorem stands_hexByte (ch : Byte) : Stands false (hexByte ch) ch := by
  obtain ⟨high, low, first, second, sum⟩ := digitValue_hexByte ch
  have stands := Stands.digits first second
  rwa [← sum] at stands

theorem carries_hexOf (bytes : List Byte) : Carries false (hexOf bytes) bytes := by
  induction bytes with
  | nil => exact .nil
  | cons ch bytes ih => exact .cons (stands_hexByte ch) ih

/-- What GDB makes of the bytes for an `X` packet. -/
def escape (bytes : List Byte) : List Byte :=
  bytes.flatMap fun ch =>
    if ch = 0x7d ∨ ch = char '#' ∨ ch = char '$' then [0x7d, ch ^^^ 0x20] else [ch]

theorem carries_escape (bytes : List Byte) : Carries true (escape bytes) bytes := by
  induction bytes with
  | nil => exact .nil
  | cons ch bytes ih =>
      rw [escape, List.flatMap_cons]
      split
      · exact .cons (.escaped ch) ih
      · rename_i free
        exact .cons (.plain fun same => free (.inl same)) ih

section
variable {P : Placed} {mem : Bytes} {text : List Byte}

theorem Placed.Received.kept {mem' : Bytes} (received : P.Received mem text) (short : text.length < maxBuf)
    (same : ∀ i < maxBuf, P.inAt mem' i = P.inAt mem i) : P.Received mem' text := by
  intro i le
  rw [same i (le.trans_lt short), received i le]

theorem Placed.Received.store (received : P.Received mem text) (short : text.length < maxBuf) {a : Word}
    (free : ¬P.scratch a) (ch : Byte) : P.Received (Function.update mem a ch) text := by
  apply received.kept short
  intro i less
  apply Function.update_of_ne
  rintro rfl
  exact free (P.input_scratch i less)

theorem flat_peek {α : Type} {before rest : List Byte} {ch : Byte} (received : P.Received mem text)
    (split : text = before ++ ch :: rest) (f : Byte → Handling α) (R : α → Bytes → Prop) :
    Prog.wp P.flat (Handler.peek before.length >>= f) R mem ↔ Prog.wp P.flat (f ch) R mem :=
  wp_peek (received.textAt.from split) f R

theorem decode_digits {c1 c2 high low : Byte} (first : digitValue c1 = some high)
    (second : digitValue c2 = some low) : (hex c1 <<< 4 ||| hex c2).setWidth 8 = high * 16 + low := by
  obtain ⟨value₁, small₁⟩ := hex_digitValue first
  obtain ⟨value₂, small₂⟩ := hex_digitValue second
  have all : ∀ h l : Fin 16, (((BitVec.ofNat 8 h).setWidth 32 : Word) <<< 4 |||
      (BitVec.ofNat 8 l).setWidth 32).setWidth 8 = BitVec.ofNat 8 h * 16 + BitVec.ofNat 8 l := by
    decide +kernel
  have combined := all ⟨high.toNat, small₁⟩ ⟨low.toNat, small₂⟩
  simp only [BitVec.ofNat_toNat, BitVec.setWidth_eq] at combined
  rw [value₁, value₂, combined]

theorem flat_decodeByte {binary : Bool} {before chars rest : List Byte} {ch : Byte}
    (received : P.Received mem text) (stands : Stands binary chars ch) (split : text = before ++ (chars ++ rest))
    (R : Byte × Nat → Bytes → Prop) :
    Prog.wp P.flat (Handler.decodeByte binary before.length) R mem ↔ R (ch, before.length + chars.length) mem := by
  cases stands with
  | @digits c1 c2 high low first second =>
      have split' : text = (before ++ [c1]) ++ c2 :: rest := by simp [split]
      have next : before.length + 1 = (before ++ [c1]).length := by simp
      rw [Handler.decodeByte, flat_peek received split, if_neg Bool.false_ne_true, next,
        flat_peek received split', decode_digits first second]
      exact Iff.rfl
  | plain free =>
      rw [Handler.decodeByte, flat_peek received split, if_pos rfl, if_neg free]
      exact Iff.rfl
  | escaped =>
      have split' : text = (before ++ [0x7d]) ++ (ch ^^^ 0x20) :: rest := by simp [split]
      have next : before.length + 1 = (before ++ [0x7d]).length := by simp
      have back : (0x20 : Byte) ^^^ (ch ^^^ 0x20) = ch := by
        rw [BitVec.xor_comm, BitVec.xor_assoc, BitVec.xor_self, BitVec.xor_zero]
      rw [Handler.decodeByte, flat_peek received split, if_pos rfl, if_pos rfl, next,
        flat_peek received split', back]
      exact Iff.rfl

theorem flat_hex2mem {binary : Bool} {data bytes : List Byte} (carries : Carries binary data bytes)
    {before rest : List Byte} (split : text = before ++ (data ++ rest)) (short : text.length < maxBuf)
    (received : P.Received mem text) {a : Word} (free : P.Free a bytes.length)
    {R : Option Word → Bytes → Prop}
    (next : R (some (offset a bytes.length)) (writeBytes mem a bytes)) :
    Prog.wp P.flat (Handler.hex2mem binary before.length a bytes.length) R mem := by
  induction carries generalizing before mem a with
  | nil =>
      rw [List.length_nil, offset_zero] at next
      exact next
  | @cons chars data bytes ch first carries ih =>
      rw [List.append_assoc] at split
      rw [List.length_cons] at free next
      have split' : text = (before ++ chars) ++ (data ++ rest) := by rw [List.append_assoc, split]
      have step : offset a (bytes.length + 1) = offset (a + 1) bytes.length := by
        rw [Nat.add_comm]
        exact (offset_offset a 1 bytes.length).symm
      rw [List.length_cons, Handler.hex2mem, Prog.wp_bind, flat_decodeByte received first split, ← List.length_append]
      dsimp only
      rw [if_pos free.first.1, flat_store]
      apply ih split' (received.store short free.first.2 ch) free.rest
      rw [← step]
      exact next

theorem Placed.Received.writeBytes {a : Word} {bytes : List Byte} (received : P.Received mem text)
    (short : text.length < maxBuf) (free : P.Free a bytes.length) :
    P.Received (writeBytes mem a bytes) text := by
  induction bytes generalizing mem a with
  | nil => exact received
  | cons ch bytes ih => exact ih (received.store short free.first.2 ch) free.rest

end

/-! ## The registers -/

def Placed.Runs (P : Placed) : Word → List (Reg × Nat) → Prop
  | _, [] => True
  | a, (r, count) :: rest => P.reg r = a ∧ P.Runs (offset a (4 * count)) rest

def span : List (Reg × Nat) → Nat
  | [] => 0
  | (_, count) :: rest => 4 * count + span rest

theorem Placed.runs_packetRegs (P : Placed) : P.Runs (P.reg (.r 0)) Stub.packetRegs := by
  have reg (r : Reg) : P.reg r = offset P.ctx (4 * (2 + r.slot)) := rfl
  simp only [Runs, Stub.packetRegs, reg, offset_offset]
  simp [Reg.slot]

section
variable {P : Placed} {mem mem' mem'' : Bytes}

theorem Placed.Free.left {a : Word} {n k : Nat} (free : P.Free a (n + k)) : P.Free a n :=
  fun i less => free i (Nat.lt_add_right k less)

theorem Placed.Free.right {a : Word} {n k : Nat} (free : P.Free a (n + k)) : P.Free (offset a n) k := by
  intro i less
  rw [offset_offset]
  exact free (n + i) (Nat.add_lt_add_left less n)

theorem Placed.Puts.over {first second : List Byte} (before : P.Puts 0 (first ++ [0]) mem mem')
    (after : P.Puts first.length (second ++ [0]) mem' mem'') : P.Puts 0 (first ++ second ++ [0]) mem mem'' where
  toOnlyOutput := before.toOnlyOutput.trans after.toOnlyOutput
  output j less := by
    have nul (f : Nat → Byte) (p : Nat) : fill (fill f p [0]) p (second ++ [0]) = fill f p (second ++ [0]) := by
      cases second with
      | nil => exact fill_over_nul f p 0 []
      | cons ch second => exact fill_over_nul f p ch (second ++ [0])
    rw [after.output j less, List.append_assoc, fill_append _ 0 first, Nat.zero_add,
      ← nul (fill (P.outAt mem) 0 first)]
    apply fill_congr _ _ _ j less
    intro j less
    rw [before.output j less, fill_append, Nat.zero_add]

theorem flat_readRegs {groups : List (Reg × Nat)} {a : Word} {text : List Byte} (runs : P.Runs a groups)
    (free : P.Free a (span groups)) (room : text.length + 2 * span groups < maxBuf)
    (before : P.Puts 0 (text ++ [0]) mem mem') {R : Unit → Bytes → Prop}
    (next : ∀ mem'', P.Puts 0 (text ++ hexOf (readBytes mem a (span groups)) ++ [0]) mem mem'' → R () mem'') :
    Prog.wp P.flat (Handler.readRegs P.toLayout groups text.length) R mem' := by
  induction groups generalizing a text mem' with
  | nil =>
      apply next
      simpa [span, readBytes, hexOf] using before
  | cons group groups ih =>
      obtain ⟨r, count⟩ := group
      obtain ⟨rfl, runs⟩ := runs
      rw [span] at free room next
      have same : readBytes mem' (P.reg r) (4 * count) = readBytes mem (P.reg r) (4 * count) := by
        apply readBytes_congr
        intro i less
        exact before.kept _ (free.left i less).2
      rw [Handler.readRegs, Prog.wp_bind]
      apply flat_mem2hex free.left (by omega)
      intro mem'' after
      rw [same] at after
      have place : text.length + 2 * (4 * count) =
          (text ++ hexOf (readBytes mem (P.reg r) (4 * count))).length := by simp
      rw [Option.getD_some, place]
      apply ih runs free.right _ (before.over after)
      · intro mem'' whole
        rw [readBytes_append, hexOf_append, ← List.append_assoc] at next
        exact next mem'' whole
      · rw [← place]
        omega

theorem Carries.length {data bytes : List Byte} (carries : Carries false data bytes) :
    data.length = 2 * bytes.length := by
  induction carries with
  | nil => rfl
  | cons first rest ih =>
      cases first
      rw [List.length_append, ih, List.length_cons, List.length_cons, List.length_cons, List.length_nil]
      omega

theorem Carries.split {binary : Bool} {data first second : List Byte}
    (carries : Carries binary data (first ++ second)) :
    ∃ data₁ data₂, data = data₁ ++ data₂ ∧ Carries binary data₁ first ∧ Carries binary data₂ second := by
  induction first generalizing data with
  | nil => exact ⟨[], data, rfl, .nil, carries⟩
  | cons ch first ih =>
      cases carries with
      | cons one rest =>
          obtain ⟨data₁, data₂, rfl, left, right⟩ := ih rest
          exact ⟨_, data₂, (List.append_assoc ..).symm, .cons one left, right⟩

abbrev ok : List Byte := ['O', 'K'].map char

theorem flat_writeRegs {groups : List (Reg × Nat)} {a : Word} {text before data rest bytes : List Byte}
    (runs : P.Runs a groups) (free : P.Free a (span groups)) (size : bytes.length = span groups)
    (carries : Carries false data bytes) (split : text = before ++ (data ++ rest)) (short : text.length < maxBuf)
    (received : P.Received mem text) {R : Unit → Bytes → Prop}
    (next : ∀ mem', P.Puts 0 (ok ++ [0]) (writeBytes mem a bytes) mem' → R () mem') :
    Prog.wp P.flat (Handler.writeRegs P.toLayout groups before.length) R mem := by
  induction groups generalizing a bytes data before mem with
  | nil =>
      rw [span, List.length_eq_zero_iff] at size
      subst size
      exact flat_answer _ (by decide) next
  | cons group groups ih =>
      obtain ⟨r, count⟩ := group
      obtain ⟨rfl, runs⟩ := runs
      rw [span] at free size
      obtain ⟨first, second, rfl, len⟩ : ∃ first second, bytes = first ++ second ∧ first.length = 4 * count :=
        ⟨bytes.take (4 * count), bytes.drop (4 * count), (List.take_append_drop ..).symm, by simp; omega⟩
      obtain ⟨data₁, data₂, rfl, left, right⟩ := carries.split
      rw [List.append_assoc] at split
      have free₁ : P.Free (P.reg r) first.length := len ▸ free.left
      have split' : text = (before ++ data₁) ++ (data₂ ++ rest) := by rw [List.append_assoc, split]
      have place : before.length + 8 * count = (before ++ data₁).length := by
        rw [List.length_append, left.length]
        omega
      rw [writeBytes_append] at next
      rw [Handler.writeRegs, Prog.wp_bind, ← len]
      apply flat_hex2mem left split short received free₁
      rw [place]
      rw [len] at next
      apply ih runs free.right _ right split' (received.writeBytes short free₁) next
      rw [List.length_append] at size
      omega

end

/-! ## Exchanges -/

/-- Memory is as it was, but for some addresses and what the stub works in. -/
def Placed.Changes (P : Placed) (where_ : Word → Prop) (mem mem' : Bytes) : Prop :=
  ∀ a, ¬P.scratch a → ¬where_ a → mem' a = mem a

/-- The next packet is this one; its reply, and memory behind it. The buffers may have changed since
the packet before. -/
def Placed.Exchange (P : Placed) (sigval : Byte) (text : List Byte) (R : List Byte → Bytes → Prop)
    (mem : Bytes) : Prop :=
  ∀ mem', P.Changes (fun _ => False) mem mem' → P.Received mem' text →
    Prog.wp P.flat (Handler.handlePacket P.toLayout sigval)
      (fun more mem'' => more = true ∧ ∃ reply, Holds (P.outAt mem'') reply ∧ R reply mem'') mem'

section
variable {P : Placed} {sigval : Byte} {mem mem' : Bytes} {text : List Byte}

theorem flat_handlePacket {command : Byte} {ptr : List Byte} (short : (command :: ptr).length < maxBuf)
    (received : P.Received mem (command :: ptr)) {R : Bool → Bytes → Prop}
    (served : ∀ mem', P.Puts 0 [0] mem mem' → P.Received mem' (command :: ptr) →
      Prog.wp P.flat (Handler.switch P.toLayout sigval command) R mem') :
    Prog.wp P.flat (Handler.handlePacket P.toLayout sigval) R mem := by
  have cleared : P.Puts 0 [0] mem (Function.update mem (offset P.output 0) 0) := .cons (by decide) (.nil _ _)
  have kept := received.kept short cleared.input
  have first (f : Byte → Handling Bool) := @flat_peek P _ _ _ [] ptr command kept rfl f R
  rw [Handler.handlePacket, flat_poke]
  apply (first _).mpr
  rw [Prog.wp_bind]
  apply Prog.wp_mono _ (served _ cleared kept)
  intro more mem' held
  cases more with
  | false => exact held
  | true =>
      refine ⟨trivial, ?_⟩
      rintro ⟨⟩ _ rfl
      exact held

/-- The range of a packet: inside user memory, and not what the stub works in. -/
structure Placed.Range (P : Placed) (a : Word) (n : Nat) : Prop where
  low : 0x08800000 ≤ a.toNat
  high : a.toNat + n ≤ 0x0a000000
  free : ∀ i < n, ¬P.scratch (offset a i)

theorem Placed.Range.toNat {a : Word} {n i : Nat} (range : P.Range a n) (le : i ≤ n) :
    (offset a i).toNat = a.toNat + i := by
  have high := range.high
  exact offset_toNat (by omega)

theorem Placed.Range.user {a : Word} {n : Nat} (range : P.Range a n) : P.Free a n := by
  intro i less
  refine ⟨?_, range.free i less⟩
  have low := range.low
  have high := range.high
  have here := range.toNat less.le
  simp only [userMemory, Bool.and_eq_true, decide_eq_true_eq, BitVec.le_def, BitVec.lt_def, here]
  change 0x08800000 ≤ a.toNat + i ∧ a.toNat + i < 0x0a000000
  omega

theorem Placed.Range.end_ne_zero {a : Word} {n : Nat} (range : P.Range a n) : offset a n ≠ 0 := by
  intro zero
  have low := range.low
  have here := range.toNat le_rfl
  rw [zero] at here
  change 0 = _ at here
  omega

theorem Placed.Range.count {a : Word} {n : Nat} (range : P.Range a n) :
    Stub.intCount (BitVec.ofNat 32 n) = n := by
  have low := range.low
  have high := range.high
  have value : (BitVec.ofNat 32 n).toNat = n := by
    rw [BitVec.toNat_ofNat]
    omega
  rw [Stub.intCount, BitVec.toInt_eq_toNat_of_lt (by omega), value]
  exact Int.toNat_natCast n

/-- The numbers of a range, as a packet writes them. -/
structure Names (addr length : List Byte) (a : Word) (n : Nat) : Prop where
  addr : Number addr a
  length : Number length (BitVec.ofNat 32 n)

theorem addrLength_of_names {addr length rest before : List Byte} {a : Word} {n : Nat}
    (names : Names addr length a n) (ends : (hex (rest.headD 0)).slt 0 = true)
    (received : P.Received mem text) (short : text.length < maxBuf)
    (split : text = before ++ (rangeText addr length ++ rest)) {ptr : Nat} (here : before.length = ptr)
    {R : Option (Word × Word × Nat) → Bytes → Prop}
    (next : R (some (a, BitVec.ofNat 32 n, (before ++ rangeText addr length).length)) mem) :
    Prog.wp P.flat (Handler.addrLength ptr) R mem := by
  have place : text.length - rest.length = (before ++ rangeText addr length).length := by
    simp only [split, List.length_append]
    omega
  rw [← here, addrLength_eq received.textAt short split, addrLength_rangeText names.addr names.length ends]
  rw [← place] at next
  exact next

def readText (addr length : List Byte) : List Byte := char 'm' :: rangeText addr length

def writeText (binary : Bool) (addr length data : List Byte) : List Byte :=
  (if binary then char 'X' else char 'M') :: (rangeText addr length ++ char ':' :: data)

theorem flat_switch_m : Handler.switch P.toLayout sigval (char 'm') = (do
    Handler.readMem 1
    pure true) := rfl

theorem flat_switch_write (binary : Bool) :
    Handler.switch P.toLayout sigval (if binary then char 'X' else char 'M') = (do
      Handler.writeMem binary 1
      pure true) := by
  cases binary <;> rfl

theorem flat_switch_g : Handler.switch P.toLayout sigval (char 'g') = (do
    Handler.readRegs P.toLayout Stub.packetRegs 0
    pure true) := rfl

theorem flat_switch_G : Handler.switch P.toLayout sigval (char 'G') = (do
    Handler.writeRegs P.toLayout Stub.packetRegs 1
    pure true) := rfl

theorem Placed.OnlyOutput.changes (only : P.OnlyOutput mem mem') (where_ : Word → Prop) :
    P.Changes where_ mem mem' :=
  fun a own _ => only.kept a own

theorem Placed.Changes.trans {mem'' : Bytes} {where_ : Word → Prop}
    (first : P.Changes (fun _ => False) mem mem') (second : P.Changes where_ mem' mem'') :
    P.Changes where_ mem mem'' :=
  fun a own other => (second a own other).trans (first a own id)

theorem Placed.Changes.readBytes {a : Word} {n : Nat} (same : P.Changes (fun _ => False) mem mem')
    (free : P.Free a n) : readBytes mem' a n = readBytes mem a n :=
  readBytes_congr fun i less => same _ (free i less).2 id

theorem hexOf_plain (bytes : List Byte) : 0 ∉ hexOf bytes := by
  have digit : ∀ ch : Byte, 0 ∉ hexByte ch := by
    intro ch
    have all : ((List.range 256).all fun n => (hexByte (BitVec.ofNat 8 n)).all (· ≠ 0)) = true := by
      decide +kernel
    have here := List.all_eq_true.mp all ch.toNat (List.mem_range.mpr ch.isLt)
    rw [BitVec.ofNat_toNat, BitVec.setWidth_eq] at here
    intro mem
    simpa using List.all_eq_true.mp here 0 mem
  intro mem
  obtain ⟨ch, _, here⟩ := List.mem_flatMap.mp mem
  exact digit ch here

theorem exchange_read {a : Word} {n : Nat} {addr length : List Byte} (range : P.Range a n)
    (room : 2 * n < maxBuf) (names : Names addr length a n) (short : (readText addr length).length < maxBuf) :
    P.Exchange sigval (readText addr length) (fun reply mem' =>
      reply = hexOf (readBytes mem a n) ∧ P.Changes (fun _ => False) mem mem') mem := by
  intro mem₁ same received
  apply flat_handlePacket short received
  intro mem₂ cleared received
  have before : P.Changes (fun _ => False) mem mem₂ := same.trans (cleared.changes _)
  rw [flat_switch_m, Prog.wp_bind, Handler.readMem, Prog.wp_bind]
  have split : readText addr length = [char 'm'] ++ (rangeText addr length ++ []) := by
    rw [List.append_nil]
    rfl
  apply addrLength_of_names names (by decide) received short split rfl
  dsimp only
  rw [Prog.wp_bind, range.count]
  apply flat_mem2hex range.user (by omega)
  intro mem₃ puts
  rw [before.readBytes range.user] at puts
  refine ⟨rfl, _, puts.holds ?_ (hexOf_plain _), rfl, before.trans (puts.changes _)⟩
  rw [hexOf_length, readBytes_length]
  exact room

theorem holds_ok (puts : P.Puts 0 (ok ++ [0]) mem mem') : Holds (P.outAt mem') ok :=
  puts.holds (by decide) (by decide)

theorem flat_writeMem {binary : Bool} {command : Byte} {a : Word} {addr length data bytes : List Byte}
    (range : P.Range a bytes.length) (names : Names addr length a bytes.length)
    (carries : Carries binary data bytes) (split : text = [command] ++ (rangeText addr length ++ char ':' :: data))
    (short : text.length < maxBuf) (received : P.Received mem text) {R : Unit → Bytes → Prop}
    (next : ∀ mem', P.Puts 0 (ok ++ [0]) (writeBytes mem a bytes) mem' → R () mem') :
    Prog.wp P.flat (Handler.writeMem binary 1) R mem := by
  have colon : text = ([command] ++ rangeText addr length) ++ char ':' :: data := by
    rw [split, List.append_assoc]
  have split' : text = ([command] ++ rangeText addr length ++ [char ':']) ++ (data ++ []) := by
    rw [colon, List.append_assoc _ [char ':'], List.append_nil]
    rfl
  have place : ([command] ++ rangeText addr length).length + 1 =
      ([command] ++ rangeText addr length ++ [char ':']).length := by
    simp only [List.length_append, List.length_singleton]
  have ends : (hex ((char ':' :: data).headD 0)).slt 0 = true := by
    rw [List.headD_cons]
    decide
  rw [Handler.writeMem, Prog.wp_bind]
  apply addrLength_of_names names ends received short split rfl
  dsimp only
  rw [flat_peek received colon, if_pos rfl, Prog.wp_bind, range.count, place]
  apply flat_hex2mem carries split' short received range.user
  rw [Option.getD_some, if_pos range.end_ne_zero]
  exact flat_answer _ (by decide) next

theorem exchange_write {binary : Bool} {a : Word} {addr length data bytes : List Byte}
    (range : P.Range a bytes.length) (names : Names addr length a bytes.length)
    (carries : Carries binary data bytes) (short : (writeText binary addr length data).length < maxBuf) :
    P.Exchange sigval (writeText binary addr length data) (fun reply mem' =>
      reply = ok ∧ P.Changes (fun _ => False) (writeBytes mem a bytes) mem') mem := by
  intro mem₁ same received
  apply flat_handlePacket short received
  intro mem₂ cleared received
  have before : P.Changes (fun _ => False) mem mem₂ := same.trans (cleared.changes _)
  rw [flat_switch_write, Prog.wp_bind]
  apply flat_writeMem range names carries rfl short received
  intro mem₃ puts
  refine ⟨rfl, ok, holds_ok puts, rfl, ?_⟩
  intro x own _
  rw [puts.kept x own]
  exact writeBytes_congr (before x own id) a bytes

/-! ## The register packets -/

theorem Placed.regs_free (P : Placed) : P.Free (P.reg (.r 0)) (span Stub.packetRegs) := by
  intro i less
  have inside : 32 + i < 4 * contextWords := by
    change i < 360 at less
    change 32 + i < 916
    omega
  have place : offset (P.reg (.r 0)) i = offset P.ctx (32 + i) := offset_offset P.ctx 32 i
  rw [place]
  exact ⟨P.ctx_user _ inside, P.ctx_kept _ inside⟩

def Placed.regBytes (P : Placed) (mem : Bytes) : List Byte :=
  readBytes mem (P.reg (.r 0)) (span Stub.packetRegs)

theorem exchange_readRegs : P.Exchange sigval [char 'g'] (fun reply mem' =>
    reply = hexOf (P.regBytes mem) ∧ P.Changes (fun _ => False) mem mem') mem := by
  intro mem₁ same received
  apply flat_handlePacket (by decide) received
  intro mem₂ cleared _
  have before : P.Changes (fun _ => False) mem mem₂ := same.trans (cleared.changes _)
  rw [flat_switch_g, Prog.wp_bind]
  apply @flat_readRegs P mem₁ mem₂ _ _ [] P.runs_packetRegs P.regs_free (by decide) cleared
  intro mem₃ puts
  have bytes : readBytes mem₁ (P.reg (.r 0)) (span Stub.packetRegs) = P.regBytes mem := same.readBytes P.regs_free
  rw [bytes, List.nil_append] at puts
  refine ⟨rfl, _, puts.holds ?_ (hexOf_plain _), rfl, same.trans (puts.changes _)⟩
  rw [hexOf_length, Placed.regBytes, readBytes_length]
  decide

theorem exchange_writeRegs {data bytes : List Byte} (carries : Carries false data bytes)
    (size : bytes.length = span Stub.packetRegs) : P.Exchange sigval (char 'G' :: data) (fun reply mem' =>
      reply = ok ∧ P.Changes (fun _ => False) (writeBytes mem (P.reg (.r 0)) bytes) mem') mem := by
  have short : (char 'G' :: data).length < maxBuf := by
    rw [List.length_cons, carries.length, size]
    decide
  intro mem₁ same received
  apply flat_handlePacket short received
  intro mem₂ cleared received
  have before : P.Changes (fun _ => False) mem mem₂ := same.trans (cleared.changes _)
  have split : char 'G' :: data = [char 'G'] ++ (data ++ []) := by
    rw [List.append_nil]
    rfl
  rw [flat_switch_G, Prog.wp_bind]
  apply flat_writeRegs P.runs_packetRegs P.regs_free size carries split short received
  intro mem₃ puts
  refine ⟨rfl, ok, holds_ok puts, rfl, ?_⟩
  intro x own _
  rw [puts.kept x own]
  exact writeBytes_congr (before x own id) _ bytes

def Placed.Listed (P : Placed) (x : Word) : Prop :=
  ∃ r count, (r, count) ∈ Stub.packetRegs ∧ ∃ i < 4 * count, x = offset (P.reg r) i

theorem Placed.Runs.listed {a : Word} {groups : List (Reg × Nat)} (runs : P.Runs a groups) {i : Nat}
    (less : i < span groups) :
    ∃ r count, (r, count) ∈ groups ∧ ∃ j < 4 * count, offset a i = offset (P.reg r) j := by
  induction groups generalizing a i with
  | nil => cases less
  | cons group groups ih =>
      obtain ⟨r, count⟩ := group
      obtain ⟨rfl, runs⟩ := runs
      rw [span] at less
      by_cases first : i < 4 * count
      · exact ⟨r, count, List.mem_cons_self, i, first, rfl⟩
      · obtain ⟨r', count', mem, j, inside, place⟩ := ih runs (i := i - 4 * count) (by omega)
        refine ⟨r', count', List.mem_cons_of_mem _ mem, j, inside, ?_⟩
        rw [← place, offset_offset]
        congr 1
        omega

theorem writeBytes_changes {bytes : List Byte} {a : Word} {where_ : Word → Prop}
    (inside : ∀ i < bytes.length, where_ (offset a i))
    (after : P.Changes (fun _ => False) (writeBytes mem a bytes) mem') : P.Changes where_ mem mem' := by
  intro x own other
  rw [after x own id]
  apply writeBytes_other
  intro i less same
  exact other (same ▸ inside i less)

def lowerDigit (ch : Byte) : Bool := (char '0' ≤ ch && ch ≤ char '9') || (char 'a' ≤ ch && ch ≤ char 'f')

theorem hexByte_of_lower {c1 c2 : Byte} (first : lowerDigit c1 = true) (second : lowerDigit c2 = true) :
    ∃ ch, hexByte ch = [c1, c2] := by
  have digit : ∀ c : Byte, lowerDigit c = true → ∃ n : Fin 16, c = hexchars (BitVec.ofNat 8 n) := by
    have all : ((List.range 256).all fun n => !lowerDigit (BitVec.ofNat 8 n) ||
        (List.range 16).any fun k => BitVec.ofNat 8 n = hexchars (BitVec.ofNat 8 k)) = true := by
      decide +kernel
    intro c lower
    have here := List.all_eq_true.mp all c.toNat (List.mem_range.mpr c.isLt)
    rw [BitVec.ofNat_toNat, BitVec.setWidth_eq, lower, Bool.not_true, Bool.false_or, List.any_eq_true] at here
    obtain ⟨k, small, same⟩ := here
    exact ⟨⟨k, List.mem_range.mp small⟩, of_decide_eq_true same⟩
  have pair : ∀ h l : Fin 16, hexByte (BitVec.ofNat 8 h * 16 + BitVec.ofNat 8 l) =
      [hexchars (BitVec.ofNat 8 h), hexchars (BitVec.ofNat 8 l)] := by decide +kernel
  obtain ⟨h, rfl⟩ := digit c1 first
  obtain ⟨l, rfl⟩ := digit c2 second
  exact ⟨_, pair h l⟩

theorem hexOf_of_lower {n : Nat} {p : List Byte} (size : p.length = 2 * n)
    (lower : ∀ c ∈ p, lowerDigit c = true) : ∃ bytes, bytes.length = n ∧ hexOf bytes = p := by
  induction n generalizing p with
  | zero =>
      rw [Nat.mul_zero, List.length_eq_zero_iff] at size
      exact ⟨[], rfl, size.symm⟩
  | succ n ih =>
      match p with
      | [] => simp at size
      | [_] => simp at size; omega
      | c1 :: c2 :: p =>
          rw [List.length_cons, List.length_cons] at size
          obtain ⟨bytes, len, rest⟩ := ih (p := p) (by omega) fun c mem => lower c (by simp [mem])
          obtain ⟨ch, first⟩ := hexByte_of_lower (lower c1 (by simp)) (lower c2 (by simp))
          refine ⟨ch :: bytes, by rw [List.length_cons, len], ?_⟩
          rw [hexOf_cons, first, rest]
          rfl

theorem Placed.Exchange.mono {R S : List Byte → Bytes → Prop} (exchange : P.Exchange sigval text R mem)
    (imp : ∀ reply mem', R reply mem' → S reply mem') : P.Exchange sigval text S mem := by
  intro mem₁ same received
  apply Prog.wp_mono _ (exchange mem₁ same received)
  rintro more mem₂ ⟨sent, reply, holds, held⟩
  exact ⟨sent, reply, holds, imp reply mem₂ held⟩

end

/-! ## The theorem -/

/-- Over every placement of the stub: what an `M` or `X` packet writes to a range that the stub does
not work in, `m` reads; what `g` reads, `G` can write back without a change; and what `G` writes, `g`
reads. -/
theorem round_trips (P : Placed) (sigval : Byte) (mem : Bytes) :
    (∀ binary a bytes addr length addr' length' data, P.Range a bytes.length → 2 * bytes.length < maxBuf →
      Names addr length a bytes.length → Names addr' length' a bytes.length → Carries binary data bytes →
      (writeText binary addr length data).length < maxBuf → (readText addr' length').length < maxBuf →
      P.Exchange sigval (writeText binary addr length data) (fun reply mem₁ =>
        reply = ok ∧ P.Changes (fun x => ∃ i < bytes.length, x = offset a i) mem mem₁ ∧
        P.Exchange sigval (readText addr' length') (fun reply mem₂ =>
          reply = hexOf bytes ∧ P.Changes (fun _ => False) mem₁ mem₂) mem₁) mem) ∧
    P.Exchange sigval [char 'g'] (fun text mem₁ =>
      P.Changes (fun _ => False) mem mem₁ ∧ P.Exchange sigval (char 'G' :: text) (fun reply mem₂ =>
        reply = ok ∧ P.Changes (fun _ => False) mem mem₂) mem₁) mem ∧
    ∀ p : List Byte, p.length = 720 → (∀ c ∈ p, lowerDigit c = true) →
      P.Exchange sigval (char 'G' :: p) (fun reply mem₁ =>
        reply = ok ∧ P.Changes P.Listed mem mem₁ ∧ P.Exchange sigval [char 'g'] (fun text mem₂ =>
          text = p ∧ P.Changes (fun _ => False) mem₁ mem₂) mem₁) mem := by
  refine ⟨?_, ?_, ?_⟩
  · intro binary a bytes addr length addr' length' data range room names names' carries short short'
    apply (exchange_write range names carries short).mono
    rintro reply mem₁ ⟨answered, written⟩
    refine ⟨answered, writeBytes_changes (fun i less => ⟨i, less, rfl⟩) written, ?_⟩
    have found : readBytes mem₁ a bytes.length = bytes := by
      rw [written.readBytes range.user]
      apply readBytes_writeBytes
      change 2 * bytes.length < 2048 at room
      omega
    have read := @exchange_read P sigval mem₁ a bytes.length addr' length' range room names' short'
    rwa [found] at read
  · apply exchange_readRegs.mono
    rintro text mem₁ ⟨rfl, same⟩
    refine ⟨same, ?_⟩
    apply (exchange_writeRegs (carries_hexOf _) (readBytes_length ..)).mono
    rintro reply mem₂ ⟨answered, written⟩
    refine ⟨answered, ?_⟩
    rw [← same.readBytes P.regs_free, writeBytes_readBytes] at written
    exact same.trans written
  · intro p size lower
    obtain ⟨bytes, len, rfl⟩ : ∃ bytes, bytes.length = span Stub.packetRegs ∧ hexOf bytes = p :=
      hexOf_of_lower size lower
    apply (exchange_writeRegs (carries_hexOf bytes) len).mono
    rintro reply mem₁ ⟨answered, written⟩
    refine ⟨answered, writeBytes_changes (fun i less => P.runs_packetRegs.listed (len ▸ less)) written, ?_⟩
    have found : P.regBytes mem₁ = bytes := by
      rw [Placed.regBytes, written.readBytes P.regs_free, ← len]
      exact readBytes_writeBytes (len ▸ by decide)
    rw [← found]
    exact exchange_readRegs

def examplePlaced : Placed where
  toLayout := exampleLayout
  input := 0x08a00000
  output := 0x08a01000
  scratch a := 0x08a00000 ≤ a.toNat ∧ a.toNat < 0x08a10000
  input_scratch i less := by
    change i < 2048 at less
    have here : (offset 0x08a00000 i).toNat = 0x08a00000 + i := offset_toNat (show 0x08a00000 + i < 2 ^ 32 by omega)
    rw [here]
    omega
  output_scratch i less := by
    change i < 2048 at less
    have here : (offset 0x08a01000 i).toNat = 0x08a01000 + i := offset_toNat (show 0x08a01000 + i < 2 ^ 32 by omega)
    rw [here]
    omega
  apart i first j second same := by
    change i < 2048 at first
    change j < 2048 at second
    have here : (offset 0x08a00000 i).toNat = 0x08a00000 + i := offset_toNat (show 0x08a00000 + i < 2 ^ 32 by omega)
    have there : (offset 0x08a01000 j).toNat = 0x08a01000 + j := offset_toNat (show 0x08a01000 + j < 2 ^ 32 by omega)
    rw [same, there] at here
    omega
  ctx_kept i less := by
    change i < 916 at less
    have here : (offset exampleLayout.ctx i).toNat = 0x08900000 + i :=
      offset_toNat (show 0x08900000 + i < 2 ^ 32 by omega)
    rw [here]
    omega

theorem round_trips_escaped : examplePlaced.Exchange sigtrap
    (writeText true (['8', '9', '0', '0', '8', '0', '0'].map char) [char '2'] (escape [0x7d, 0x41]))
    (fun reply mem₁ => reply = ok ∧
      examplePlaced.Changes (fun x => ∃ i < 2, x = offset 0x08900800 i) (fun _ => 0) mem₁ ∧
      examplePlaced.Exchange sigtrap (readText (['8', '9', '0', '0', '8', '0', '0'].map char) [char '2'])
        (fun reply mem₂ => reply = ['7', 'd', '4', '1'].map char ∧
          examplePlaced.Changes (fun _ => False) mem₁ mem₂) mem₁) (fun _ => 0) :=
  (round_trips examplePlaced sigtrap fun _ => 0).1 true 0x08900800 [0x7d, 0x41] _ _ _ _ _
    ⟨by decide, by decide, by
      intro i less outside
      change i < 2 at less
      have here : (offset 0x08900800 i).toNat = 0x08900800 + i := offset_toNat (show 0x08900800 + i < 2 ^ 32 by omega)
      have low : 0x08a00000 ≤ (offset 0x08900800 i).toNat := outside.1
      omega⟩
    (by decide) ⟨⟨by decide, by decide⟩, ⟨by decide, by decide⟩⟩ ⟨⟨by decide, by decide⟩, ⟨by decide, by decide⟩⟩
    (carries_escape _) (by decide) (by decide)

def flatAnswer (P : Placed) : (q : StubCall) → Bytes → q.Answer × Bytes
  | .peek i, mem => (P.inAt mem i, mem)
  | .poke i ch, mem => ((), Function.update mem (offset P.output i) ch)
  | .load a, mem => (mem a, mem)
  | .store a ch, mem => ((), Function.update mem a ch)
  | .stray _, mem => ((0 : Byte), mem)
  | .get _, mem => ((0 : Word), mem)
  | .debugGetEnv, mem => (⟨0, 0, 0, 0, 0, 0⟩, mem)
  | .getThreadmanIdList, mem => ([], mem)
  | .referThreadStatus thid, mem => (.error thid, mem)
  | .getpacket, mem => (false, mem)
  | .set _ _, mem => ((), mem)
  | .debugSetEnv _, mem => ((), mem)
  | .startModule, mem => ((), mem)
  | .stepGeneric, mem => ((), mem)
  | .recoverStep, mem => ((), mem)
  | .exitGame, mem => ((), mem)
  | .putpacket, mem => ((), mem)

theorem flatAnswer_post (P : Placed) (q : StubCall) (mem : Bytes) :
    P.flat.post mem q (flatAnswer P q mem).1 (flatAnswer P q mem).2 := by
  cases q with
  | peek => exact ⟨rfl, rfl⟩
  | load => exact ⟨rfl, rfl⟩
  | _ => rfl

def arrived (text : List Byte) (mem : Bytes) : Bytes :=
  fun a => if (a - 0x08a00000).toNat < 2048 then text.getD (a - 0x08a00000).toNat 0 else mem a

theorem arrived_changes (text : List Byte) (mem : Bytes) :
    examplePlaced.Changes (fun _ => False) mem (arrived text mem) := by
  intro a own _
  apply if_neg
  intro inside
  apply own
  have size := a.isLt
  rw [BitVec.toNat_sub] at inside
  change (2 ^ 32 - 0x08a00000 + a.toNat) % 2 ^ 32 < 2048 at inside
  show 0x08a00000 ≤ a.toNat ∧ a.toNat < 0x08a10000
  omega

theorem arrived_received {text : List Byte} (short : text.length < maxBuf) (mem : Bytes) :
    examplePlaced.Received (arrived text mem) text := by
  intro i le
  change text.length < 2048 at short
  have place : (offset 0x08a00000 i - 0x08a00000).toNat = i := by
    rw [offset, BitVec.add_comm, BitVec.add_sub_cancel, BitVec.toNat_ofNat]
    omega
  have inside : (offset 0x08a00000 i - 0x08a00000).toNat < 2048 := by omega
  have here : arrived text mem (offset 0x08a00000 i) = text.getD (offset 0x08a00000 i - 0x08a00000).toNat 0 :=
    if_pos inside
  rw [place] at here
  exact here

/-- `M8a00000,1:41` writes to where the `m8a00000,1` that follows arrives. -/
theorem round_trips_overlap : ¬examplePlaced.Exchange sigtrap
    (writeText false (['8', 'a', '0', '0', '0', '0', '0'].map char) [char '1'] (hexOf [0x41]))
    (fun reply mem₁ => reply = ok → examplePlaced.Exchange sigtrap
      (readText (['8', 'a', '0', '0', '0', '0', '0'].map char) [char '1'])
      (fun reply _ => reply = hexOf [0x41]) mem₁) (fun _ => 0) := by
  intro held
  have wrote := Prog.interp_of_wp (flatAnswer_post _) (held _ (arrived_changes _ _) (arrived_received (by decide) _))
  obtain ⟨_, reply, holds, next⟩ := wrote
  have answered : reply = ok := holds.unique ⟨by decide +kernel, by decide +kernel, by decide⟩
  have read := Prog.interp_of_wp (flatAnswer_post _)
    (next answered _ (arrived_changes _ _) (arrived_received (by decide) _))
  obtain ⟨_, reply', holds', same⟩ := read
  have found : reply' = ['6', 'd'].map char := holds'.unique ⟨by decide +kernel, by decide +kernel, by decide⟩
  rw [same] at found
  revert found
  decide

end Psplink.Gdb
