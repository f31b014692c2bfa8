import Psplink.Gdb.Framing
import Psplink.Lib.Components

/-!
# What `getpacket` takes for a packet

`scan` cuts the stream into passes of the loop, whatever their checksums are. A call ends with the
first pass whose sum fits, and the question is whether that pass is a packet.
-/

namespace Psplink.Gdb

/-! ## What a pass takes from the stream -/

/-- A start character with what is read after it: 2048 bytes, or a payload with its checksum. -/
inductive Attempt
  | overlong (start : Byte) (data : List Byte)
  | frame (start : Byte) (payload : List Byte) (c1 c2 : Byte)

def scan (input : List Byte) : Option (Attempt × List Byte) :=
  match waitStart input with
  | none => none
  | some (start, rest) =>
      let data := (rest.take maxBuf).takeWhile (· ≠ char '#')
      if data.length = maxBuf then some (.overlong start data, rest.drop data.length)
      else
        match rest.drop data.length with
        | _ :: c1 :: c2 :: rest => some (.frame start data c1 c2, rest)
        | _ => none

def fill (buffer : Nat → Byte) (count : Nat) : List Byte → Nat → Byte
  | [] => buffer
  | ch :: data => fill (Function.update buffer count ch) (count + 1) data

theorem foldl_add (data : List Byte) (checksum : Byte) :
    data.foldl (· + ·) checksum = checksum + checksumOf data := by
  unfold checksumOf
  induction data generalizing checksum with
  | nil => simp
  | cons ch data ih =>
      rw [List.foldl_cons, ih, List.foldl_cons, ih (0 + ch)]
      simp [BitVec.add_assoc]

theorem checksumOf_cons (ch : Byte) (data : List Byte) : checksumOf (ch :: data) = ch + checksumOf data := by
  rw [checksumOf, List.foldl_cons, foldl_add]
  simp

theorem readBody_eq (input : List Byte) (buffer : Nat → Byte) {count : Nat} (small : count ≤ maxBuf)
    (checksum : Byte) :
    let data := (input.take (maxBuf - count)).takeWhile (· ≠ char '#')
    readBody input buffer count checksum =
      if count + data.length = maxBuf then
        some ⟨input.drop data.length, fill buffer count data, maxBuf, checksum + checksumOf data⟩
      else
        match input.drop data.length with
        | [] => none
        | _ :: rest =>
            some ⟨rest, fill buffer count data, count + data.length, checksum + checksumOf data⟩ := by
  induction input generalizing buffer count checksum with
  | nil =>
      rcases small.lt_or_eq with less | rfl
      · simp [readBody, less, less.ne]
      · simp [readBody, fill, checksumOf]
  | cons ch rest ih =>
      rcases small.lt_or_eq with less | rfl
      · obtain ⟨room, room_eq⟩ : ∃ room, maxBuf - count = room + 1 := ⟨maxBuf - count - 1, by omega⟩
        rw [readBody, if_pos less, room_eq, List.take_succ_cons]
        by_cases hash : ch = char '#'
        · simp [hash, less.ne, fill, checksumOf]
        · have next : room = maxBuf - (count + 1) := by omega
          rw [if_neg hash, ih _ (show count + 1 ≤ maxBuf from less), List.takeWhile_cons_of_pos (by simpa using hash), next]
          simp only [List.length_cons, List.drop_succ_cons, fill, checksumOf_cons, BitVec.add_assoc,
            Nat.add_assoc, Nat.add_comm 1]
      · simp [readBody, fill, checksumOf]

namespace Attempt

def Accepted : Attempt → Prop
  | .overlong _ data => checksumOf data = -1
  | .frame _ payload c1 c2 => checksumOf payload = xmitcsumOf c1 c2

instance : (a : Attempt) → Decidable a.Accepted
  | .overlong _ data => inferInstanceAs (Decidable (checksumOf data = -1))
  | .frame _ payload c1 c2 => inferInstanceAs (Decidable (checksumOf payload = xmitcsumOf c1 c2))

def stored (payload : List Byte) (buffer : Nat → Byte) : Nat → Byte :=
  Function.update (fill buffer 0 payload) payload.length 0

def after (a : Attempt) (r : Receiving) (rest : List Byte) : Receiving :=
  match a with
  | .overlong _ data => { r with input := rest, buffer := fill r.buffer 0 data }
  | .frame _ payload _ _ =>
      let buffer := stored payload r.buffer
      if a.Accepted then ⟨rest, withoutSequence buffer, r.sent ++ char '+' :: sequenceId buffer⟩
      else ⟨rest, buffer, r.sent ++ [char '-']⟩

end Attempt

theorem checksumOf_eq (data : List Byte) : 0 + checksumOf data = checksumOf data := by simp

theorem receive_eq (r : Receiving) : receive r = (scan r.input).map fun (a, rest) =>
    (a.after r rest, decide a.Accepted) := by
  unfold receive scan
  cases waitStart r.input with
  | none => rfl
  | some found =>
      obtain ⟨start, rest⟩ := found
      simp only [readBody_eq rest r.buffer (Nat.zero_le _) 0, checksumOf_eq, Nat.sub_zero, Nat.zero_add]
      have bound : ((rest.take maxBuf).takeWhile (· ≠ char '#')).length ≤ maxBuf :=
        (List.takeWhile_prefix _).length_le.trans (List.length_take_le ..)
      generalize (rest.take maxBuf).takeWhile (· ≠ char '#') = data at bound ⊢
      by_cases full : data.length = maxBuf
      · simp only [full, le_refl, if_true]
        rfl
      · have less : ¬ maxBuf ≤ data.length := by omega
        simp only [if_neg full]
        match rest.drop data.length with
        | [] => rfl
        | [_] => simp [less]
        | [_, _] => simp [less]
        | _ :: c1 :: c2 :: rest =>
            simp only [if_neg less, Option.map_some, Attempt.after, Attempt.Accepted, Attempt.stored]
            split <;> simp [*]

/-! ## The passes of a call -/

def Attempt.chars : Attempt → List Byte
  | .overlong start data => start :: data
  | .frame start payload c1 c2 => start :: payload ++ [char '#', c1, c2]

/-- A start character, then as many bytes as the buffer holds or a shorter payload. -/
def Attempt.Whole : Attempt → Prop
  | .overlong start data => start &&& 0x7f = char '$' ∧ data.length = maxBuf ∧ char '#' ∉ data
  | .frame start payload _ _ =>
      start &&& 0x7f = char '$' ∧ payload.length < maxBuf ∧ char '#' ∉ payload

theorem waitStart_eq_some {input rest : List Byte} {start : Byte}
    (found : waitStart input = some (start, rest)) :
    start &&& 0x7f = char '$' ∧ ∃ junk, input = junk ++ start :: rest := by
  induction input with
  | nil => cases found
  | cons ch input ih =>
      rw [waitStart] at found
      split at found
      · cases found
        exact ⟨‹_›, [], rfl⟩
      · obtain ⟨first, junk, split⟩ := ih found
        exact ⟨first, ch :: junk, by rw [split, List.cons_append]⟩

theorem stops_at (p : Byte → Bool) (n : Nat) (body : List Byte) {ch : Byte} {rest : List Byte}
    (short : ((body.take n).takeWhile p).length ≠ n)
    (remains : body.drop ((body.take n).takeWhile p).length = ch :: rest) : ¬p ch := by
  induction n generalizing body with
  | zero => exact absurd rfl short
  | succ n ih =>
      cases body with
      | nil => cases remains
      | cons first body =>
          rw [List.take_succ_cons, List.takeWhile_cons] at short remains
          split at short
          · rename_i more
            rw [if_pos more, List.length_cons, List.drop_succ_cons] at remains
            exact ih _ (fun same => short (congrArg Nat.succ same)) remains
          · rename_i last
            rw [if_neg last] at remains
            cases remains
            exact last

theorem scan_eq_some {input rest : List Byte} {a : Attempt} (scanned : scan input = some (a, rest)) :
    a.Whole ∧ ∃ junk, input = junk ++ a.chars ++ rest := by
  unfold scan at scanned
  split at scanned
  · cases scanned
  · rename_i start body found
    obtain ⟨first, junk, rfl⟩ := waitStart_eq_some found
    have bound : ((body.take maxBuf).takeWhile (· ≠ char '#')).length ≤ maxBuf :=
      (List.takeWhile_prefix _).length_le.trans (List.length_take_le ..)
    have plain : char '#' ∉ (body.take maxBuf).takeWhile (· ≠ char '#') := by
      intro mem
      simpa using List.mem_takeWhile_imp mem
    have whole : (body.take maxBuf).takeWhile (· ≠ char '#') <+: body :=
      (List.takeWhile_prefix _).trans (List.take_prefix ..)
    have stops {ch : Byte} {rest : List Byte} := @stops_at (· ≠ char '#') maxBuf body ch rest
    generalize (body.take maxBuf).takeWhile (· ≠ char '#') = data at *
    dsimp only at scanned
    split at scanned
    · cases scanned
      refine ⟨⟨first, ‹_›, plain⟩, junk, ?_⟩
      rw [Attempt.chars, List.append_assoc, List.cons_append, List.prefix_iff_eq_append.mp whole]
    · rename_i short
      split at scanned
      · rename_i ch c1 c2 rest remains
        cases scanned
        have hash : ch = char '#' := by simpa using stops short remains
        refine ⟨⟨first, lt_of_le_of_ne bound short, plain⟩, junk, ?_⟩
        rw [← List.prefix_iff_eq_append.mp whole, remains, hash]
        simp [Attempt.chars]
      · cases scanned

theorem waitStart_junk {junk : List Byte} (quiet : ∀ ch ∈ junk, ch &&& 0x7f ≠ char '$') (rest : List Byte) :
    waitStart (junk ++ char '$' :: rest) = some (char '$', rest) := by
  induction junk with
  | nil => rfl
  | cons ch junk ih =>
      rw [List.forall_mem_cons] at quiet
      rw [List.cons_append, waitStart, if_neg quiet.1, ih quiet.2]

/-- Junk and a frame, whatever its digits are. -/
theorem scan_chars {junk payload : List Byte} (quiet : ∀ ch ∈ junk, ch &&& 0x7f ≠ char '$')
    (short : payload.length < maxBuf) (plain : char '#' ∉ payload) (c1 c2 : Byte) (rest : List Byte) :
    scan (junk ++ (Attempt.frame (char '$') payload c1 c2).chars ++ rest) =
      some (.frame (char '$') payload c1 c2, rest) := by
  have data (tail : List Byte) :
      ((payload ++ char '#' :: tail).take maxBuf).takeWhile (· ≠ char '#') = payload := by
    obtain ⟨n, room⟩ : ∃ n, maxBuf - payload.length = n + 1 := ⟨maxBuf - payload.length - 1, by omega⟩
    rw [List.take_append, List.take_of_length_le short.le, room, List.take_succ_cons, Lib.takeWhile_upto plain]
  have stream : junk ++ (Attempt.frame (char '$') payload c1 c2).chars ++ rest =
      junk ++ char '$' :: (payload ++ char '#' :: (c1 :: c2 :: rest)) := by simp [Attempt.chars]
  rw [stream, scan, waitStart_junk quiet]
  dsimp only
  rw [data, if_neg short.ne, List.drop_left]

theorem scan_length {input rest : List Byte} {a : Attempt} (scanned : scan input = some (a, rest)) :
    rest.length < input.length := by
  obtain ⟨-, junk, rfl⟩ := scan_eq_some scanned
  cases a <;> simp [Attempt.chars] <;> omega

inductive Receives : Receiving → List Attempt → Receiving → Prop
  | last {r : Receiving} {a : Attempt} {rest : List Byte} (scanned : scan r.input = some (a, rest))
      (accepted : a.Accepted) : Receives r [a] (a.after r rest)
  | next {r r' : Receiving} {a : Attempt} {as : List Attempt} {rest : List Byte}
      (scanned : scan r.input = some (a, rest)) (refused : ¬a.Accepted)
      (more : Receives (a.after r rest) as r') : Receives r (a :: as) r'

@[simp] theorem Attempt.input_after (a : Attempt) (r : Receiving) (rest : List Byte) :
    (a.after r rest).input = rest := by
  cases a with
  | overlong => rfl
  | frame =>
      unfold Attempt.after
      dsimp only
      split <;> rfl

theorem receives_of_receiveLoop {fuel : Nat} {r r' : Receiving} (ran : receiveLoop fuel r = some r') :
    ∃ as, Receives r as r' := by
  induction fuel generalizing r with
  | zero => cases ran
  | succ fuel ih =>
      rw [receiveLoop, receive_eq] at ran
      cases scanned : scan r.input with
      | none =>
          rw [scanned] at ran
          cases ran
      | some found =>
          obtain ⟨a, rest⟩ := found
          rw [scanned] at ran
          by_cases accepted : a.Accepted
          · simp only [Option.map_some, accepted, decide_true, if_true] at ran
            cases ran
            exact ⟨[a], .last scanned accepted⟩
          · simp only [Option.map_some, accepted, decide_false] at ran
            obtain ⟨as, more⟩ := ih ran
            exact ⟨a :: as, .next scanned accepted more⟩

theorem Receives.receiveLoop {r r' : Receiving} {as : List Attempt} (receives : Receives r as r') {fuel : Nat}
    (enough : r.input.length < fuel) : receiveLoop fuel r = some r' := by
  induction receives generalizing fuel with
  | last scanned accepted =>
      cases fuel with
      | zero => cases enough
      | succ fuel => simp [Gdb.receiveLoop, receive_eq, scanned, accepted]
  | next scanned refused _ ih =>
      cases fuel with
      | zero => cases enough
      | succ fuel =>
          have shorter := scan_length scanned
          rw [Attempt.input_after] at ih
          have rest := @ih fuel (by omega)
          simpa [Gdb.receiveLoop, receive_eq, scanned, refused] using rest

theorem getpacket_eq_some {r r' : Receiving} : getpacket r = some r' ↔ ∃ as, Receives r as r' := by
  constructor
  · exact receives_of_receiveLoop
  · rintro ⟨as, receives⟩
    exact receives.receiveLoop (Nat.lt_succ_self _)

inductive Takes : List Byte → List Attempt → List Byte → Prop
  | nil (input : List Byte) : Takes input [] input
  | cons {input mid rest : List Byte} {a : Attempt} {as : List Attempt}
      (scanned : scan input = some (a, mid)) (more : Takes mid as rest) : Takes input (a :: as) rest

theorem Takes.length {input rest : List Byte} {as : List Attempt} (takes : Takes input as rest) :
    rest.length + as.length ≤ input.length := by
  induction takes with
  | nil => simp
  | cons scanned _ ih =>
      have shorter := scan_length scanned
      rw [List.length_cons]
      omega

theorem Takes.unique {input rest : List Byte} {as bs : List Attempt} (first : Takes input as rest)
    (second : Takes input bs rest) : as = bs := by
  induction first generalizing bs with
  | nil =>
      cases second with
      | nil => rfl
      | cons scanned more =>
          have bound := more.length
          have shorter := scan_length scanned
          omega
  | cons scanned more ih =>
      cases second with
      | nil =>
          have bound := more.length
          have shorter := scan_length scanned
          omega
      | cons scanned' more' =>
          cases scanned.symm.trans scanned'
          rw [ih more']

theorem Receives.takes {r r' : Receiving} {as : List Attempt} (receives : Receives r as r') :
    Takes r.input as r'.input := by
  induction receives with
  | last scanned _ =>
      rw [Attempt.input_after]
      exact .cons scanned (.nil _)
  | next scanned _ _ ih =>
      rw [Attempt.input_after] at ih
      exact .cons scanned ih

theorem Takes.receives {as : List Attempt} {r : Receiving} {rest : List Byte}
    (takes : Takes r.input as rest) (some_accepted : ∃ a ∈ as, a.Accepted) :
    ∃ bs b r', Receives r (bs ++ [b]) r' ∧ b.Accepted ∧ bs ++ [b] <+: as := by
  generalize ends : r.input = input at takes
  induction takes generalizing r with
  | nil => simp at some_accepted
  | @cons input mid rest a as scanned more ih =>
      subst ends
      by_cases accepted : a.Accepted
      · exact ⟨[], a, _, .last scanned accepted, accepted, by simp⟩
      · have later : ∃ a ∈ as, a.Accepted := by simpa [accepted] using some_accepted
        obtain ⟨bs, b, r', receives, last, before⟩ := ih later (Attempt.input_after a r mid)
        exact ⟨a :: bs, b, r', .next scanned accepted receives, last, by simpa using before⟩

/-! ## The string in the buffer -/

structure Holds (buffer : Nat → Byte) (text : List Byte) : Prop where
  chars : ∀ i (h : i < text.length), buffer i = text[i]
  nul : buffer text.length = 0
  plain : 0 ∉ text

theorem Holds.length_le {buffer : Nat → Byte} {text text' : List Byte} (holds : Holds buffer text)
    (holds' : Holds buffer text') : text'.length ≤ text.length := by
  by_contra longer
  have inside : text.length < text'.length := Nat.lt_of_not_le longer
  have nul : text'[text.length] = 0 := (holds'.chars _ inside).symm.trans holds.nul
  exact holds'.plain (nul ▸ List.getElem_mem inside)

theorem Holds.unique {buffer : Nat → Byte} {text text' : List Byte} (holds : Holds buffer text)
    (holds' : Holds buffer text') : text = text' := by
  apply List.ext_getElem (Nat.le_antisymm (holds'.length_le holds) (holds.length_le holds'))
  intro i less less'
  rw [← holds.chars i less, holds'.chars i less']

theorem Holds.cstring {buffer : Nat → Byte} {text : List Byte} (holds : Holds buffer text) {n : Nat}
    (room : text.length < n) : cstring buffer n = text := by
  induction text generalizing buffer n with
  | nil =>
      cases n with
      | zero => cases room
      | succ n => exact if_pos holds.nul
  | cons ch text ih =>
      cases n with
      | zero => cases room
      | succ n =>
          have first : buffer 0 = ch := holds.chars 0 (Nat.zero_lt_succ _)
          have plain := holds.plain
          rw [List.mem_cons, not_or] at plain
          have rest : Holds (fun i => buffer (i + 1)) text :=
            ⟨fun i h => holds.chars (i + 1) (Nat.succ_lt_succ h), holds.nul, plain.2⟩
          rw [Gdb.cstring, if_neg (by rw [first]; exact plain.1 ∘ Eq.symm), first,
            ih rest (Nat.lt_of_succ_lt_succ room)]

theorem fill_of_lt (buffer : Nat → Byte) (data : List Byte) {count i : Nat} (before : i < count) :
    fill buffer count data i = buffer i := by
  induction data generalizing buffer count with
  | nil => rfl
  | cons ch data ih => rw [fill, ih _ (before.trans (Nat.lt_succ_self _)), Function.update_of_ne before.ne]

theorem fill_eq (buffer : Nat → Byte) (data : List Byte) (count i : Nat) (h : i < data.length) :
    fill buffer count data (count + i) = data[i] := by
  induction data generalizing buffer count i with
  | nil => cases h
  | cons ch data ih =>
      cases i with
      | zero =>
          show fill (Function.update buffer count ch) (count + 1) data count = ch
          rw [fill_of_lt _ _ (Nat.lt_succ_self count)]
          exact Function.update_self ..
      | succ i =>
          have next := ih (Function.update buffer count ch) (count + 1) i (Nat.lt_of_succ_lt_succ h)
          rw [fill, List.getElem_cons_succ, ← next]
          congr 1
          omega

def textOf (payload : List Byte) : List Byte := payload.takeWhile (· ≠ 0)

theorem stored_char (payload : List Byte) (buffer : Nat → Byte) (i : Nat) (h : i < payload.length) :
    Attempt.stored payload buffer i = payload[i] := by
  rw [Attempt.stored, Function.update_of_ne h.ne]
  simpa using fill_eq buffer payload 0 i h

theorem stored_nul (payload : List Byte) (buffer : Nat → Byte) : Attempt.stored payload buffer payload.length = 0 :=
  Function.update_self ..

theorem holds_stored (payload : List Byte) (buffer : Nat → Byte) :
    Holds (Attempt.stored payload buffer) (textOf payload) := by
  have within : textOf payload <+: payload := List.takeWhile_prefix _
  constructor
  · intro i h
    rw [stored_char _ _ i (h.trans_le within.length_le)]
    exact (within.getElem h).symm
  · rcases within.length_le.lt_or_eq with less | same
    · have stops := @stops_at (· ≠ 0) payload.length payload payload[(textOf payload).length]
        (payload.drop ((textOf payload).length + 1))
      rw [List.take_length] at stops
      rw [stored_char _ _ _ less]
      simpa using stops less.ne (List.drop_eq_getElem_cons less)
    · rw [same]
      exact stored_nul ..
  · intro mem
    simpa using List.mem_takeWhile_imp mem

def lessSequence (text : List Byte) : List Byte :=
  if text[2]? = some (char ':') then text.drop 3 else text

theorem Holds.withoutSequence {buffer : Nat → Byte} {text : List Byte} (holds : Holds buffer text)
    (room : text.length < maxBuf) : Holds (withoutSequence buffer) (lessSequence text) := by
  unfold Gdb.withoutSequence lessSequence
  rw [holds.cstring room]
  by_cases long : 2 < text.length
  · have third : text[2]? = some (buffer 2) := by rw [List.getElem?_eq_getElem long, holds.chars 2 long]
    by_cases colon : buffer 2 = char ':'
    · rw [if_pos colon, if_pos (third.trans (congrArg some colon))]
      constructor
      · intro i h
        rw [List.length_drop] at h
        have inside : i + 3 ≤ text.length := by omega
        rw [dropSequence, if_pos inside, List.getElem_drop, holds.chars (i + 3) (by omega)]
        simp only [Nat.add_comm]
      · have ends : text.length - 3 + 3 = text.length := Nat.sub_add_cancel long
        rw [List.length_drop, dropSequence, ends, if_pos le_rfl]
        exact holds.nul
      · intro mem
        exact holds.plain (List.mem_of_mem_drop mem)
    · have other : text[2]? ≠ some (char ':') := by
        rw [third]
        exact fun same => colon (Option.some_inj.mp same)
      rwa [if_neg colon, if_neg other]
  · have short : text[2]? = none := List.getElem?_eq_none (Nat.not_lt.mp long)
    have unmoved : dropSequence buffer text.length = buffer := by
      funext i
      exact if_neg (by omega)
    rw [unmoved, ite_self, if_neg (by simp [short])]
    exact holds

/-! ## What a call returns -/

def digitValue (ch : Byte) : Option Byte :=
  if char '0' ≤ ch ∧ ch ≤ char '9' then some (ch - char '0')
  else if char 'a' ≤ ch ∧ ch ≤ char 'f' then some (ch - char 'a' + 10)
  else if char 'A' ≤ ch ∧ ch ≤ char 'F' then some (ch - char 'A' + 10)
  else none

/-- The packet as it should be: two digits that are the sum of the payload. -/
def Attempt.Good : Attempt → Prop
  | .overlong _ _ => False
  | .frame start payload c1 c2 => start = char '$' ∧ ∃ high low, digitValue c1 = some high ∧
      digitValue c2 = some low ∧ checksumOf payload = high * 16 + low

/-- What is taken for a packet without being one. -/
def Attempt.Slip (a : Attempt) : Prop := a.Accepted ∧ ¬a.Good

theorem hex_digit {c v : Byte} (digit : digitValue c = some v) :
    hex (c &&& 0x7f) = v.setWidth 32 ∧ v.toNat < 16 := by
  have all : ((List.range 256).all fun n => (digitValue (BitVec.ofNat 8 n)).all fun v =>
      hex (BitVec.ofNat 8 n &&& 0x7f) = v.setWidth 32 ∧ v.toNat < 16) = true := by decide +kernel
  have here := List.all_eq_true.mp all c.toNat (List.mem_range.mpr c.isLt)
  simpa [digit] using here

theorem xmitcsumOf_digits {c1 c2 high low : Byte} (first : digitValue c1 = some high)
    (second : digitValue c2 = some low) : xmitcsumOf c1 c2 = high * 16 + low := by
  obtain ⟨value₁, small₁⟩ := hex_digit first
  obtain ⟨value₂, small₂⟩ := hex_digit second
  have all : ∀ h l : Fin 16,
      ((BitVec.ofNat 8 h).setWidth 32 <<< 4).setWidth 8 ||| ((BitVec.ofNat 8 l).setWidth 32).setWidth 8 =
        BitVec.ofNat 8 h * 16 + BitVec.ofNat 8 l := by decide +kernel
  have combined := all ⟨high.toNat, small₁⟩ ⟨low.toNat, small₂⟩
  simp only [BitVec.ofNat_toNat, BitVec.setWidth_eq] at combined
  rw [xmitcsumOf, value₁, value₂, combined]

theorem Attempt.Good.accepted {a : Attempt} (good : a.Good) : a.Accepted := by
  cases a with
  | overlong => exact good.elim
  | frame start payload c1 c2 =>
      obtain ⟨-, high, low, first, second, sum⟩ := good
      exact sum.trans (xmitcsumOf_digits first second).symm

def Attempt.nak : Attempt → List Byte
  | .overlong _ _ => []
  | .frame _ _ _ _ => [char '-']

structure Received (r r' : Receiving) (as : List Attempt) (payload : List Byte) (c1 c2 : Byte) : Prop where
  passes : Takes r.input (as ++ [.frame (char '$') payload c1 c2]) r'.input
  received : ∃ before, r.input = before ++ char '$' :: payload ++ [char '#', c1, c2] ++ r'.input
  short : payload.length < maxBuf
  plain : char '#' ∉ payload
  digits : ∃ high low, digitValue c1 = some high ∧ digitValue c2 = some low ∧
    checksumOf payload = high * 16 + low
  text : cstring r'.buffer maxBuf = lessSequence (textOf payload)
  terminated : (cstring r'.buffer maxBuf).length < maxBuf
  answered : ∃ echo, r'.sent = r.sent ++ as.flatMap Attempt.nak ++ char '+' :: echo ∧ echo.length ≤ 2

/-- No slip before the first packet that is as it should be. -/
def Clean (input : List Byte) : Prop :=
  ∀ as a rest, Takes input (as ++ [a]) rest → (∀ b ∈ as, ¬b.Good) → ¬a.Slip

theorem Takes.last {input rest : List Byte} {as : List Attempt} {a : Attempt}
    (takes : Takes input (as ++ [a]) rest) : a.Whole ∧ ∃ before, input = before ++ a.chars ++ rest := by
  induction as generalizing input with
  | nil =>
      obtain _ | ⟨scanned, more⟩ := takes
      cases more
      exact scan_eq_some scanned
  | cons b as ih =>
      obtain _ | ⟨scanned, more⟩ := takes
      obtain ⟨-, junk, rfl⟩ := scan_eq_some scanned
      obtain ⟨whole, before, rfl⟩ := ih more
      exact ⟨whole, junk ++ b.chars ++ before, by simp⟩

theorem Receives.refused {r r' : Receiving} {xs : List Attempt} (receives : Receives r xs r') :
    ∃ as a mid rest, xs = as ++ [a] ∧ (∀ b ∈ as, ¬b.Accepted) ∧ a.Accepted ∧ r' = a.after mid rest ∧
      mid.sent = r.sent ++ as.flatMap Attempt.nak := by
  induction receives with
  | @last r a rest scanned accepted => exact ⟨[], a, r, rest, rfl, by simp, accepted, rfl, by simp⟩
  | @next r r' a as rest scanned refused more ih =>
      obtain ⟨as, b, mid, rest', rfl, others, accepted, rfl, sent⟩ := ih
      refine ⟨a :: as, b, mid, rest', rfl, ?_, accepted, rfl, ?_⟩
      · simpa [refused] using others
      · rw [sent]
        cases a with
        | overlong => rfl
        | frame => simp [Attempt.after, refused, Attempt.nak]

theorem received_of_good {r r' : Receiving} {as : List Attempt} {a : Attempt} {mid : Receiving}
    {rest : List Byte} (good : a.Good) (takes : Takes r.input (as ++ [a]) r'.input)
    (ends : r' = a.after mid rest) (sent : mid.sent = r.sent ++ as.flatMap Attempt.nak) :
    ∃ payload c1 c2, Received r r' as payload c1 c2 := by
  cases a with
  | overlong => exact good.elim
  | frame start payload c1 c2 =>
      have accepted := good.accepted
      obtain ⟨rfl, digits⟩ := good
      obtain ⟨⟨-, short, plain⟩, before, split⟩ := takes.last
      have holds := (holds_stored payload mid.buffer).withoutSequence
        ((List.takeWhile_prefix _).length_le.trans_lt short)
      have room : (lessSequence (textOf payload)).length < maxBuf := by
        refine (List.Sublist.length_le ?_).trans_lt short
        unfold lessSequence
        split
        · exact (List.drop_sublist _ _).trans (List.takeWhile_prefix _).sublist
        · exact (List.takeWhile_prefix _).sublist
      have after : r' = ⟨rest, withoutSequence (Attempt.stored payload mid.buffer),
          mid.sent ++ char '+' :: sequenceId (Attempt.stored payload mid.buffer)⟩ := by
        rw [ends, Attempt.after, if_pos accepted]
      have text : cstring r'.buffer maxBuf = lessSequence (textOf payload) := by
        rw [after]
        exact holds.cstring room
      refine ⟨payload, c1, c2, takes, ⟨before, ?_⟩, short, plain, digits, text, ?_, ?_⟩
      · rw [split]
        simp [Attempt.chars]
      · rwa [text]
      · refine ⟨sequenceId (Attempt.stored payload mid.buffer), ?_, ?_⟩
        · rw [after, sent]
        · unfold sequenceId
          split <;> simp

theorem getpacket_sound (r : Receiving) :
    (∀ r', getpacket r = some r' → ∃ as payload c1 c2, Received r r' as payload c1 c2) ↔
      Clean r.input := by
  constructor
  · intro sound as a rest takes before slip
    obtain ⟨bs, b, r', receives, accepted, part⟩ := takes.receives ⟨a, by simp, slip.1⟩
    obtain ⟨cs, payload, c1, c2, received⟩ := sound r' (getpacket_eq_some.mpr ⟨_, receives⟩)
    have same := received.passes.unique receives.takes
    obtain ⟨-, ends⟩ := List.append_inj' same rfl
    cases ends
    have good : (Attempt.frame (char '$') payload c1 c2).Good := ⟨rfl, received.digits⟩
    rcases List.mem_append.mp (part.subset (List.mem_append_right bs (List.mem_singleton_self _))) with
      earlier | final
    · exact before _ earlier good
    · rw [← List.mem_singleton.mp final] at slip
      exact slip.2 good
  · intro clean r' returned
    obtain ⟨xs, receives⟩ := getpacket_eq_some.mp returned
    obtain ⟨as, a, mid, rest, rfl, others, accepted, ends, sent⟩ := receives.refused
    have good : a.Good := by
      by_contra bad
      exact clean as a _ receives.takes (fun b mem good => others b mem good.accepted) ⟨accepted, bad⟩
    exact ⟨as, received_of_good good receives.takes ends sent⟩

/-- `$`, a byte 0xFF, `#` and no digits: the sum is that of two failed conversions. -/
def noise : Receiving := ⟨[char '$', 0xff, char '#', char 'z', char 'z'], fun _ => 0, []⟩

theorem getpacket_noise :
    ∃ r', getpacket noise = some r' ∧ ¬∃ as payload c1 c2, Received noise r' as payload c1 c2 := by
  have ran : (getpacket noise).map (fun r' => r'.input) = some [] := by decide +kernel
  obtain ⟨r', returned, drained⟩ := Option.map_eq_some_iff.mp ran
  refine ⟨r', returned, ?_⟩
  rintro ⟨as, payload, c1, c2, received⟩
  obtain ⟨before, split⟩ := received.received
  obtain ⟨high, low, -, second, -⟩ := received.digits
  have last := congrArg List.getLast? split
  rw [drained, List.append_nil, List.getLast?_append] at last
  cases last
  cases second

end Psplink.Gdb
