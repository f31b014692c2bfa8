import Psplink.Gdb.Stub

/-!
# Packets on the line

`putpacket` and `getpacket` of gdbcommon/gdb-stub.c, over what the debug channel carries.
-/

namespace Psplink.Gdb

/-! ## Sending -/

/-- What `putpacket` keeps from one attempt to the next. `outside`: a byte has been stored behind
`outputbuffer`. -/
structure Sending where
  outputbuffer : Nat → Byte
  i : Nat
  outside : Bool
  written : List (List Byte)

abbrev maxOutput : Nat := 4096

namespace Sending

def put (t : Sending) (ch : Byte) : Sending where
  outputbuffer := Function.update t.outputbuffer t.i ch
  i := t.i + 1
  outside := t.outside || maxOutput ≤ t.i
  written := t.written

def write (t : Sending) : Sending :=
  { t with written := t.written ++ [(List.range t.i).map t.outputbuffer] }

def payload : List Byte → Byte → Sending → Sending × Byte
  | [], checksum, t => (t, checksum)
  | ch :: buffer, checksum, t => payload buffer (checksum + ch) (t.put ch)

def attempt (buffer : List Byte) (t : Sending) : Sending :=
  let (t, checksum) := payload buffer 0 (t.put (char '$'))
  let t := t.put (char '#')
  let t := t.put (hexchars (checksum >>> 4 &&& 0xf))
  let t := t.put (hexchars (checksum &&& 0xf))
  t.write

end Sending

def isAck (ch : Byte) : Bool := ch &&& 0x7f = char '+'

/-- `buffer` is the reply without its NUL. The call returns 0 when no more characters come. -/
def putpacket (buffer : List Byte) : List Byte → Sending → Sending × Bool
  | [], t => (t.attempt buffer, false)
  | ch :: acks, t => if isAck ch then (t.attempt buffer, true) else putpacket buffer acks (t.attempt buffer)

def checksumOf (payload : List Byte) : Byte := payload.foldl (· + ·) 0

def frame (payload : List Byte) : List Byte :=
  char '$' :: payload ++ char '#' :: hexByte (checksumOf payload)

/-! ## Receiving -/

structure Receiving where
  input : List Byte
  buffer : Nat → Byte
  sent : List Byte

def waitStart : List Byte → Option (Byte × List Byte)
  | [] => none
  | ch :: rest => if ch &&& 0x7f = char '$' then some (ch, rest) else waitStart rest

structure Body where
  rest : List Byte
  buffer : Nat → Byte
  count : Nat
  checksum : Byte

def readBody : List Byte → (Nat → Byte) → Nat → Byte → Option Body
  | [], buffer, count, checksum => if count < maxBuf then none else some ⟨[], buffer, count, checksum⟩
  | ch :: rest, buffer, count, checksum =>
      if count < maxBuf then
        if ch = char '#' then some ⟨rest, buffer, count, checksum⟩
        else readBody rest (Function.update buffer count ch) (count + 1) (checksum + ch)
      else some ⟨ch :: rest, buffer, count, checksum⟩

def xmitcsumOf (c1 c2 : Byte) : Byte :=
  ((hex (c1 &&& 0x7f) <<< 4).setWidth 8) ||| (hex (c2 &&& 0x7f)).setWidth 8

def cstring (buffer : Nat → Byte) : Nat → List Byte
  | 0 => []
  | n + 1 => if buffer 0 = 0 then [] else buffer 0 :: cstring (fun i => buffer (i + 1)) n

/-- `for (i=3; i <= count; i++) buffer[i-3] = buffer[i]` -/
def dropSequence (buffer : Nat → Byte) (count : Nat) : Nat → Byte :=
  fun i => if i + 3 ≤ count then buffer (i + 3) else buffer i

def sequenceId (buffer : Nat → Byte) : List Byte :=
  if buffer 2 = char ':' then [buffer 0, buffer 1] else []

def withoutSequence (buffer : Nat → Byte) : Nat → Byte :=
  if buffer 2 = char ':' then dropSequence buffer (cstring buffer maxBuf).length else buffer

def receive (r : Receiving) : Option (Receiving × Bool) :=
  match waitStart r.input with
  | none => none
  | some (_, input) =>
      match readBody input r.buffer 0 0 with
      | none => none
      | some body =>
          if maxBuf ≤ body.count then
            -- `xmitcsum` is still `(unsigned char) -1`, and `continue` goes to the test.
            some ({ r with input := body.rest, buffer := body.buffer }, body.checksum = -1)
          else
            match body.rest with
            | c1 :: c2 :: rest =>
                let buffer := Function.update body.buffer body.count 0
                if body.checksum = xmitcsumOf c1 c2 then
                  some (⟨rest, withoutSequence buffer, r.sent ++ char '+' :: sequenceId buffer⟩, true)
                else some (⟨rest, buffer, r.sent ++ [char '-']⟩, false)
            | _ => none

def receiveLoop : Nat → Receiving → Option Receiving
  | 0, _ => none
  | fuel + 1, r =>
      match receive r with
      | none => none
      | some (r, done) => if done then some r else receiveLoop fuel r

/-- What there is after the call, if it returns 1. -/
def getpacket (r : Receiving) : Option Receiving := receiveLoop (r.input.length + 1) r

end Psplink.Gdb
