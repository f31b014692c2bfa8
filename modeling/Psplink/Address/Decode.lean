import Psplink.Address.Lookups

/-!
# Address expressions

The operators and the loop of psplink/decodeaddr.c, over the bytes of a line without its NUL.
-/

namespace Psplink.Address
open Psplink.Lib Psplink.Util

/-! ## Operators -/

inductive Operator
  | start | none | plus | minus | and | or | xor | shl | shr | land | lor | neq | eq | lt | leq | gt | geq | mul | div
deriving DecidableEq

def truth (p : Prop) [Decidable p] : Word := if p then 1 else 0

def complement : Nat → Word → Word
  | 0, right => right
  | not + 1, right => complement not (~~~right)

/-- `do_op`. A shift takes the low five bits of its count. -/
def doOp (op : Operator) (not : Nat) (left right : Word) : Word :=
  let right := complement not right
  match op with
  | .plus => left + right
  | .minus => left - right
  | .and => left &&& right
  | .or => left ||| right
  | .xor => left ^^^ right
  | .shl => left <<< (right.toNat % 32)
  | .shr => left >>> (right.toNat % 32)
  | .land => truth (left ≠ 0 ∧ right ≠ 0)
  | .lor => truth (left ≠ 0 ∨ right ≠ 0)
  | .neq => truth (left ≠ right)
  | .eq => truth (left = right)
  | .lt => truth (left < right)
  | .gt => truth (left > right)
  | .leq => truth (left ≤ right)
  | .geq => truth (left ≥ right)
  | .mul => left * right
  | .div => if right ≠ 0 then left / right else 1
  | .start | .none => right

abbrev star : UInt8 := 42
abbrev tilde : UInt8 := 126
abbrev dollar : UInt8 := 36
abbrev opening : UInt8 := 40
abbrev closing : UInt8 := 41

/-- The operator at a character, and what comes after it. -/
def operatorAt (c : UInt8) (line : Bytes) : Option (Operator × Bytes) :=
  match c with
  | 43 => some (.plus, line)
  | 45 => some (.minus, line)
  | 38 => if line.head? = some 38 then some (.land, line.tail) else some (.and, line)
  | 124 => if line.head? = some 124 then some (.lor, line.tail) else some (.or, line)
  | 94 => some (.xor, line)
  | 61 => if line.head? = some 61 then some (.eq, line.tail) else none
  | 33 => if line.head? = some 61 then some (.neq, line.tail) else none
  | 60 =>
      if line.head? = some 60 then some (.shl, line.tail)
      else if line.head? = some 61 then some (.leq, line.tail)
      else some (.lt, line)
  | 62 =>
      if line.head? = some 62 then some (.shr, line.tail)
      else if line.head? = some 61 then some (.geq, line.tail)
      else some (.gt, line)
  | 42 => some (.mul, line)
  | 47 => some (.div, line)
  | _ => none

/-! ## The loop -/

/-- What the loop keeps: the last operator, the prefixes since then, and the value so far. -/
structure Loop where
  op : Operator
  deref : Nat
  not : Nat
  val : Word

def Loop.first : Loop := ⟨.start, 0, 0, 0⟩

structure Evaluated where
  operand : Named
  looked : Looked

/-- The text in brackets and the text after them, from behind the opening one. -/
def bracket : Nat → Bytes → Option (Bytes × Bytes)
  | _, [] => none
  | depth, c :: line =>
      if c = closing ∧ depth = 1 then some ([], line)
      else
        let depth := if c = opening then depth + 1 else if c = closing then depth - 1 else depth
        (bracket depth line).map fun (inner, rest) => (c :: inner, rest)

/-- The name of an operand that is looked up, and the text after it, from behind the character that says its kind. -/
def nameAt (c : UInt8) (line : Bytes) : Option (Named × Bytes) :=
  if c = dollar then
    let buf := (line.takeWhile isAlnum).take 15
    some (⟨.register, buf⟩, line.drop buf.length)
  else if c = at_ then (cutAt at_ line).2.map fun rest => (⟨.module_, (cutAt at_ line).1⟩, rest)
  else if c = percent then (cutAt percent line).2.map fun rest => (⟨.thread, (cutAt percent line).1⟩, rest)
  else if c = question then (cutAt question line).2.map fun rest => (⟨.symbol, (cutAt question line).1⟩, rest)
  else none

def isKind (c : UInt8) : Bool := c = dollar ∨ c = at_ ∨ c = percent ∨ c = question

/-- What the character says that a turn of the loop begins with. -/
inductive Turn
  | fails
  | skips (st : Loop) (rest : Bytes)
  | looksUp (o : Named) (rest : Bytes)
  | number (temp : Word) (rest : Bytes)
  | opens

def turn (st : Loop) (c : UInt8) (line : Bytes) : Turn :=
  if isAspace c then .skips st line
  else if c = star ∧ st.op ≠ .none then .skips { st with deref := st.deref + 1 } line
  else if c = tilde then .skips { st with not := st.not + 1 } line
  else if isKind c then
    match nameAt c line with
    | none => .fails
    | some (o, rest) => .looksUp o rest
  else if c = opening then .opens
  else if isHex c then
    if st.op = .none then .fails
    else .number (Strtoul.strtoul 0 (c :: line)).1 (Strtoul.strtoul 0 (c :: line)).2
  else if st.op ≠ .none then .fails
  else
    match operatorAt c line with
    | none => .fails
    | some (op, rest) => .skips { st with op := op } rest

/-- The operation with an operand that has been dereferenced. -/
def Loop.after (st : Loop) (temp : Word) : Loop := ⟨.none, 0, 0, doOp st.op st.not st.val temp⟩

/-- `parse_line`. The turn after one that does not get on with the line fails. -/
def parseLine (env : Env) : Nat → Loop → Bytes → Option Word × List Evaluated
  | 0, _, _ => (none, [])
  | _ + 1, st, [] => (some st.val, [])
  | fuel + 1, st, c :: line =>
      let operate (temp : Word) (rest : Bytes) (log : List Evaluated) :=
        match env.derefAddr st.deref temp with
        | none => (none, log)
        | some temp =>
            let (result, more) := parseLine env fuel (st.after temp) rest
            (result, log ++ more)
      match turn st c line with
      | .fails => (none, [])
      | .skips st rest => parseLine env fuel st rest
      | .looksUp o rest =>
          match (env.lookup o).value with
          | none => (none, [⟨o, env.lookup o⟩])
          | some temp => operate temp rest [⟨o, env.lookup o⟩]
      | .number temp rest => operate temp rest []
      | .opens =>
          match bracket 1 line with
          | none => (none, [])
          | some (inner, rest) =>
              match parseLine env fuel .first inner with
              | (none, log) => (none, log)
              | (some temp, log) => operate temp rest log

/-- What is copied of a line. -/
def lineBuf (line : CStr) : Bytes := line.text.take 1023

/-- The value of a line, where it has one, and what has been looked up for it. -/
def decodeLog (env : Env) (line : CStr) : Option Word × List Evaluated :=
  parseLine env ((lineBuf line).length + 2) .first (lineBuf line)

def memDecode (env : Env) (line : CStr) : Option Word := (decodeLog env line).1

end Psplink.Address
