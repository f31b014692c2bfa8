import Psplink.Gdb.Getpacket

/-!
# After line noise

Frames that came with a wrong sum, and junk between them, do not keep `getpacket` from the next packet.
-/

namespace Psplink.Gdb

structure Frame where
  payload : List Byte
  c1 : Byte
  c2 : Byte

namespace Frame

def chars (f : Frame) : List Byte := char '$' :: f.payload ++ [char '#', f.c1, f.c2]

/-- A payload that fits, and two hexadecimal digits with `sum` for their value. -/
structure Carries (f : Frame) (sum : Byte) : Prop where
  short : f.payload.length < maxBuf
  plain : char '#' ∉ f.payload
  digits : ∃ high low, digitValue f.c1 = some high ∧ digitValue f.c2 = some low ∧ sum = high * 16 + low

def Wrong (f : Frame) : Prop := ∃ sum, f.Carries sum ∧ checksumOf f.payload ≠ sum

def Right (f : Frame) : Prop := f.Carries (checksumOf f.payload)

def attempt (f : Frame) : Attempt := .frame (char '$') f.payload f.c1 f.c2

variable {f : Frame}

theorem Carries.accepted {sum : Byte} (carries : f.Carries sum) :
    f.attempt.Accepted ↔ checksumOf f.payload = sum := by
  obtain ⟨high, low, first, second, rfl⟩ := carries.digits
  rw [attempt, Attempt.Accepted, xmitcsumOf_digits first second]

theorem scan_chars {junk : List Byte} {sum : Byte} (quiet : ∀ ch ∈ junk, ch &&& 0x7f ≠ char '$')
    (carries : f.Carries sum) (rest : List Byte) : scan (junk ++ f.chars ++ rest) = some (f.attempt, rest) :=
  Gdb.scan_chars quiet carries.short carries.plain f.c1 f.c2 rest

end Frame

/-- Bytes in which no packet starts. -/
abbrev Junk (bytes : List Byte) : Prop := ∀ ch ∈ bytes, ch &&& 0x7f ≠ char '$'

/-- A frame with the junk before it. -/
structure Burst where
  junk : List Byte
  frame : Frame
  quiet : Junk junk

def Burst.chars (b : Burst) : List Byte := b.junk ++ b.frame.chars

/-- A refused frame leaves its bytes in the buffer and an answer. -/
theorem refused_sent {f : Frame} (refused : ¬ f.attempt.Accepted) (r : Receiving) (rest : List Byte) :
    (f.attempt.after r rest).sent = r.sent ++ [char '-'] := by
  unfold Frame.attempt Attempt.after at *
  dsimp only
  rw [if_neg refused]

/-- The pass that takes a good frame. -/
structure Taken (f : Frame) (sent rest : List Byte) (r : Receiving) : Prop where
  input : r.input = rest
  sent : r.sent = sent ++ [char '+']
  chars : ∀ i (h : i < f.payload.length), r.buffer i = f.payload[i]
  nul : r.buffer f.payload.length = 0

theorem taken_after {f : Frame} (right : f.Right) {third : Byte} (read : f.payload[2]? = some third)
    (unnumbered : third ≠ char ':') (r : Receiving) (rest : List Byte) :
    Taken f r.sent rest (f.attempt.after r rest) := by
  have accepted : f.attempt.Accepted := right.accepted.mpr rfl
  obtain ⟨long, third_eq⟩ := List.getElem?_eq_some_iff.mp read
  have colon : ¬ Attempt.stored f.payload r.buffer 2 = char ':' := by
    rwa [stored_char _ _ 2 long, third_eq]
  have after : f.attempt.after r rest =
      ⟨rest, Attempt.stored f.payload r.buffer, r.sent ++ [char '+']⟩ := by
    unfold Frame.attempt Attempt.after at *
    dsimp only
    rw [if_pos accepted, withoutSequence, if_neg colon, sequenceId, if_neg colon]
  rw [after]
  exact ⟨rfl, rfl, stored_char _ _, stored_nul ..⟩

theorem receives_bursts {bad : List Burst} (wrong : ∀ b ∈ bad, b.frame.Wrong) {good : Burst} (right : good.frame.Right)
    {third : Byte} (read : good.frame.payload[2]? = some third) (unnumbered : third ≠ char ':') {rest : List Byte}
    {r : Receiving} (stream : r.input = bad.flatMap Burst.chars ++ good.chars ++ rest) :
    ∃ as r', Receives r as r' ∧ Taken good.frame (r.sent ++ List.replicate bad.length (char '-')) rest r' := by
  induction bad generalizing r with
  | nil =>
      have scanned : scan r.input = some (good.frame.attempt, rest) := by
        rw [stream]
        exact Frame.scan_chars good.quiet right rest
      refine ⟨_, _, .last scanned (right.accepted.mpr rfl), ?_⟩
      rw [List.length_nil, List.replicate_zero, List.append_nil]
      exact taken_after right read unnumbered r rest
  | cons b bad ih =>
      rw [List.forall_mem_cons] at wrong
      obtain ⟨⟨sum, carries, other⟩, wrong⟩ := wrong
      have scanned : scan r.input = some (b.frame.attempt, bad.flatMap Burst.chars ++ good.chars ++ rest) := by
        rw [stream, List.flatMap_cons, List.append_assoc, List.append_assoc, ← List.append_assoc (bad.flatMap _)]
        exact Frame.scan_chars b.quiet carries _
      have refused : ¬ b.frame.attempt.Accepted := fun accepted => other (carries.accepted.mp accepted)
      obtain ⟨as, r', more, taken⟩ := ih wrong (Attempt.input_after b.frame.attempt r _)
      refine ⟨_, r', .next scanned refused more, ?_⟩
      rw [refused_sent refused, List.append_assoc] at taken
      exact taken

theorem getpacket_recovers (r : Receiving) (bad : List Burst) (wrong : ∀ b ∈ bad, b.frame.Wrong) (good : Burst)
    (right : good.frame.Right) (third : Byte) (read : good.frame.payload[2]? = some third)
    (unnumbered : third ≠ char ':') (rest : List Byte)
    (stream : r.input = bad.flatMap Burst.chars ++ good.chars ++ rest) :
    ∃ r', getpacket r = some r' ∧ Taken good.frame (r.sent ++ List.replicate bad.length (char '-')) rest r' := by
  obtain ⟨as, r', receives, taken⟩ := receives_bursts wrong right read unnumbered stream
  exact ⟨r', getpacket_eq_some.mpr ⟨as, receives⟩, taken⟩

theorem getpacket_recovers_read :
    let bad : Burst := ⟨[char '+'], ⟨[char 'm', char '$'], char '0', char '0'⟩, by decide⟩
    let good : Burst := ⟨[0x0d], ⟨[char 'm', char '0', char ','], char 'C', char '9'⟩, by decide⟩
    ∃ r', getpacket ⟨bad.chars ++ bad.chars ++ good.chars ++ [char '+'], fun _ => 0xff, []⟩ = some r' ∧
      Taken good.frame [char '-', char '-'] [char '+'] r' := by
  intro bad good
  have wrong : bad.frame.Wrong := ⟨0, ⟨by decide, by decide, 0, 0, by decide, by decide, by decide⟩, by decide⟩
  exact getpacket_recovers _ [bad, bad] (by simpa using wrong) good
    ⟨by decide, by decide, 12, 9, by decide, by decide, by decide⟩ (char ',') rfl (by decide) [char '+'] rfl

end Psplink.Gdb
