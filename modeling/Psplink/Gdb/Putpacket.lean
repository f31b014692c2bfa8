import Psplink.Gdb.Getpacket

/-!
# What `putpacket` writes

The index into `outputbuffer` is set once, before the loop.
-/

namespace Psplink.Gdb

namespace Sending

def puts (t : Sending) (chs : List Byte) : Sending := chs.foldl put t

theorem payload_eq (buffer : List Byte) (checksum : Byte) (t : Sending) :
    payload buffer checksum t = (t.puts buffer, checksum + checksumOf buffer) := by
  induction buffer generalizing checksum t with
  | nil => simp [payload, puts, checksumOf]
  | cons ch buffer ih => rw [payload, ih, checksumOf_cons, BitVec.add_assoc, puts, puts, List.foldl_cons]

theorem attempt_eq (buffer : List Byte) (t : Sending) : t.attempt buffer = (t.puts (frame buffer)).write := by
  unfold attempt
  rw [payload_eq, checksumOf_eq]
  simp [frame, hexByte, puts]

theorem puts_i (t : Sending) (chs : List Byte) : (t.puts chs).i = t.i + chs.length := by
  induction chs generalizing t with
  | nil => rfl
  | cons ch chs ih =>
      have next : (t.puts (ch :: chs)).i = t.i + 1 + chs.length := ih (t.put ch)
      rw [next, List.length_cons]
      omega

theorem puts_written (t : Sending) (chs : List Byte) : (t.puts chs).written = t.written := by
  induction chs generalizing t with
  | nil => rfl
  | cons ch chs ih => exact ih (t.put ch)

theorem puts_outputbuffer (t : Sending) (chs : List Byte) :
    (t.puts chs).outputbuffer = fill t.outputbuffer t.i chs := by
  induction chs generalizing t with
  | nil => rfl
  | cons ch chs ih => exact ih (t.put ch)

theorem puts_inside {t : Sending} {chs : List Byte} (room : t.i + chs.length ≤ maxOutput)
    (inside : t.outside = false) : (t.puts chs).outside = false := by
  induction chs generalizing t with
  | nil => exact inside
  | cons ch chs ih =>
      rw [List.length_cons] at room
      have here : ¬maxOutput ≤ t.i := by omega
      have next : (t.put ch).i + chs.length ≤ maxOutput := by
        show t.i + 1 + chs.length ≤ maxOutput
        omega
      exact ih next (by simp [put, inside, here])

end Sending

theorem attempt_written (buffer : List Byte) (t : Sending) : ∃ block, (t.attempt buffer).written =
    t.written ++ [block] ∧ block.length = t.i + (frame buffer).length ∧ (t.i = 0 → block = frame buffer) := by
  rw [Sending.attempt_eq]
  refine ⟨(List.range (t.puts (frame buffer)).i).map (t.puts (frame buffer)).outputbuffer, ?_, ?_, ?_⟩
  · rw [Sending.write, Sending.puts_written]
  · rw [List.length_map, List.length_range, Sending.puts_i]
  · intro start
    rw [Sending.puts_i, Sending.puts_outputbuffer, start, Nat.zero_add]
    apply List.ext_getElem
    · simp
    · intro i h h'
      have byte := fill_eq t.outputbuffer (frame buffer) 0 i h'
      rw [Nat.zero_add] at byte
      simpa using byte

@[simp] theorem attempt_i (buffer : List Byte) (t : Sending) :
    (t.attempt buffer).i = t.i + (frame buffer).length := by
  rw [Sending.attempt_eq]
  exact Sending.puts_i ..

theorem attempt_prefix (buffer acks : List Byte) (t : Sending) :
    (t.attempt buffer).written <+: (putpacket buffer acks t).1.written := by
  induction acks generalizing t with
  | nil => exact List.prefix_refl _
  | cons ch acks ih =>
      rw [putpacket]
      split
      · exact List.prefix_refl _
      · obtain ⟨block, written, -⟩ := attempt_written buffer (t.attempt buffer)
        have next := ih (t.attempt buffer)
        rw [written] at next
        exact (List.prefix_append ..).trans next

structure Fresh (t : Sending) : Prop where
  i : t.i = 0
  outside : t.outside = false
  written : t.written = []

structure Framed (buffer : List Byte) (attempts : Nat) (t : Sending) : Prop where
  inside : t.outside = false
  written : t.written = List.replicate attempts (frame buffer)

def Decodes (buffer : List Byte) : Prop :=
  char '#' ∉ buffer → buffer[2]? ≠ some (char ':') → ∀ rest stale sent,
    ∃ r', getpacket ⟨frame buffer ++ rest, stale, sent⟩ = some r' ∧
      cstring r'.buffer maxBuf = buffer ∧ r'.input = rest

theorem frame_length (buffer : List Byte) : (frame buffer).length = buffer.length + 4 := by
  simp [frame, hexByte]

theorem digitValue_hexByte (b : Byte) : ∃ high low, digitValue (hexchars (b >>> 4 &&& 0xf)) = some high ∧
    digitValue (hexchars (b &&& 0xf)) = some low ∧ b = high * 16 + low := by
  have all : ∀ n : Fin 256, digitValue (hexchars (BitVec.ofFin n >>> 4 &&& 0xf)) =
      some (BitVec.ofFin n >>> 4 : Byte) ∧ digitValue (hexchars (BitVec.ofFin n &&& 0xf)) =
      some (BitVec.ofFin n &&& 0xf : Byte) ∧
      (BitVec.ofFin n : Byte) = (BitVec.ofFin n >>> 4) * 16 + (BitVec.ofFin n &&& 0xf) := by decide +kernel
  exact ⟨_, _, all b.toFin⟩

theorem scan_frame {buffer : List Byte} (short : buffer.length < maxBuf) (plain : char '#' ∉ buffer)
    (rest : List Byte) : scan (frame buffer ++ rest) =
      some (.frame (char '$') buffer (hexchars (checksumOf buffer >>> 4 &&& 0xf))
        (hexchars (checksumOf buffer &&& 0xf)), rest) :=
  @scan_chars [] buffer (List.forall_mem_nil _) short plain _ _ rest

theorem decodes_of_short {buffer : List Byte} (short : buffer.length < maxBuf) (nul : 0 ∉ buffer) :
    Decodes buffer := by
  intro plain third rest stale sent
  let r : Receiving := ⟨frame buffer ++ rest, stale, sent⟩
  let a : Attempt := .frame (char '$') buffer (hexchars (checksumOf buffer >>> 4 &&& 0xf))
    (hexchars (checksumOf buffer &&& 0xf))
  have scanned : scan r.input = some (a, rest) := scan_frame short plain rest
  have good : a.Good := ⟨rfl, digitValue_hexByte _⟩
  have receives : Receives r [a] (a.after r rest) := .last scanned good.accepted
  have takes : Takes r.input ([] ++ [a]) (a.after r rest).input := receives.takes
  obtain ⟨payload, c1, c2, received⟩ := received_of_good good takes rfl (by simp)
  have ends : Attempt.frame (char '$') payload c1 c2 = a := by
    simpa using received.passes.unique takes
  have same : payload = buffer := ((Attempt.frame.injEq ..).mp ends).2.1
  refine ⟨a.after r rest, getpacket_eq_some.mpr ⟨_, receives⟩, ?_, Attempt.input_after ..⟩
  have whole : textOf buffer = buffer := by
    exact Lib.takeWhile_whole nul
  rw [received.text, same, whole, lessSequence, if_neg third]

theorem putpacket_frames {buffer naks : List Byte} {ch : Byte} {t : Sending} (short : buffer.length ≤ 2047)
    (nul : 0 ∉ buffer) (unacked : ∀ nak ∈ naks, isAck nak = false) (ack : isAck ch = true) (fresh : Fresh t)
    (rest : List Byte) :
    (Framed buffer (naks.length + 1) (putpacket buffer (naks ++ ch :: rest) t).1 ∧ Decodes buffer) ↔
      naks = [] := by
  obtain ⟨first, written, -, same⟩ := attempt_written buffer t
  rw [fresh.written, same fresh.i, List.nil_append] at written
  constructor
  · rintro ⟨framed, -⟩
    cases naks with
    | nil => rfl
    | cons nak naks =>
        have again : putpacket buffer (nak :: naks ++ ch :: rest) t =
            putpacket buffer (naks ++ ch :: rest) (t.attempt buffer) := by
          simp [putpacket, unacked nak List.mem_cons_self]
        obtain ⟨second, more, long, -⟩ := attempt_written buffer (t.attempt buffer)
        have kept : [frame buffer, second] <+:
            (putpacket buffer (naks ++ ch :: rest) (t.attempt buffer)).1.written := by
          have next := attempt_prefix buffer (naks ++ ch :: rest) (t.attempt buffer)
          rwa [more, written] at next
        rw [again] at framed
        rw [framed.written] at kept
        have block : second = frame buffer :=
          List.eq_of_mem_replicate (kept.subset (by simp))
        rw [block, attempt_i, frame_length] at long
        omega
  · rintro rfl
    have once : putpacket buffer (ch :: rest) t = (t.attempt buffer, true) := by simp [putpacket, ack]
    refine ⟨⟨?_, ?_⟩, decodes_of_short (Nat.lt_succ_of_le short) nul⟩
    · rw [List.nil_append, once, Sending.attempt_eq]
      apply Sending.puts_inside _ fresh.outside
      rw [fresh.i, frame_length]
      show 0 + (buffer.length + 4) ≤ 4096
      omega
    · rw [List.nil_append, once]
      exact written

theorem putpacket_frames_ok :
    Framed [char 'O', char 'K'] 1 (putpacket [char 'O', char 'K'] [char '+'] ⟨fun _ => 0, 0, false, []⟩).1 :=
  ((putpacket_frames (by decide) (by decide) (List.forall_mem_nil _) (by decide) ⟨rfl, rfl, rfl⟩ []).mpr
    rfl).1

theorem putpacket_nak : ¬Framed [char 'O', char 'K'] 2
    (putpacket [char 'O', char 'K'] [char '-', char '+'] ⟨fun _ => 0, 0, false, []⟩).1 := by
  intro framed
  have twice : (putpacket [char 'O', char 'K'] [char '-', char '+'] ⟨fun _ => 0, 0, false, []⟩).1.written =
      [frame [char 'O', char 'K'], frame [char 'O', char 'K'] ++ frame [char 'O', char 'K']] := by
    decide +kernel
  have same := twice.symm.trans framed.written
  revert same
  decide

end Psplink.Gdb
