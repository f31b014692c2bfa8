import Psplink.Address.Decode

/-!
# Expression trees

What an address expression is, how it is written and what it is worth, without the loop that reads it.
-/

namespace Psplink.Address
open Psplink.Lib Psplink.Util

/-! ## Trees -/

inductive Expr
  | const (n : Nat)
  | named (o : Named)
  | paren (e : Expr)
  | prefixed (not deref : Nat) (e : Expr)
  | binary (left : Expr) (op : Operator) (right : Expr)

def Operator.apply (op : Operator) (left right : Word) : Option Word :=
  match op with
  | .plus => some (left + right)
  | .minus => some (left - right)
  | .and => some (left &&& right)
  | .or => some (left ||| right)
  | .xor => some (left ^^^ right)
  | .shl => if right.toNat < 32 then some (left <<< right.toNat) else Option.none
  | .shr => if right.toNat < 32 then some (left >>> right.toNat) else Option.none
  | .land => some (truth (left ≠ 0 ∧ right ≠ 0))
  | .lor => some (truth (left ≠ 0 ∨ right ≠ 0))
  | .neq => some (truth (left ≠ right))
  | .eq => some (truth (left = right))
  | .lt => some (truth (left < right))
  | .leq => some (truth (left ≤ right))
  | .gt => some (truth (left > right))
  | .geq => some (truth (left ≥ right))
  | .mul => some (left * right)
  | .div => if right = 0 then Option.none else some (left / right)
  | .start | .none => Option.none

/-- A number too large is the largest one. -/
def constValue (n : Nat) : Word := if 2 ^ 32 ≤ n then BitVec.allOnes 32 else BitVec.ofNat 32 n

/-- Operators are applied from left to right; a group of prefixes dereferences first and complements afterwards. -/
def Expr.eval (env : Env) : Expr → Option Word
  | .const n => some (constValue n)
  | .named o => if env.missing o then none else (env.lookup o).value
  | .paren e => e.eval env
  | .prefixed not deref e => ((e.eval env).bind (env.derefAddr deref)).map (complement not)
  | .binary left op right => (left.eval env).bind fun l => (right.eval env).bind (op.apply l)

/-! ## Spellings -/

def Spaces (text : Bytes) : Prop := ∀ c ∈ text, isAspace c

def PrefixText (text : Bytes) : Prop := ∀ c ∈ text, isAspace c ∨ c = tilde ∨ c = star

def operatorText : Operator → Option Bytes
  | .plus => some [43]
  | .minus => some [45]
  | .and => some [38]
  | .or => some [124]
  | .xor => some [94]
  | .shl => some [60, 60]
  | .shr => some [62, 62]
  | .land => some [38, 38]
  | .lor => some [124, 124]
  | .neq => some [33, 61]
  | .eq => some [61, 61]
  | .lt => some [60]
  | .leq => some [60, 61]
  | .gt => some [62]
  | .geq => some [62, 61]
  | .mul => some [42]
  | .div => some [47]
  | .start | .none => none

/-- Hexadecimal, octal and decimal numbers. -/
inductive Constant : Nat → Bytes → Prop
  | hexadecimal {x : UInt8} {digits : Bytes} : x = 120 ∨ x = 88 → digits ≠ [] → (∀ c ∈ digits, Strtoul.isDigit 16 c) →
      Constant (Strtoul.value 16 digits) (48 :: x :: digits)
  | octal {digits : Bytes} : (∀ c ∈ digits, Strtoul.isDigit 8 c) → Constant (Strtoul.value 8 (48 :: digits)) (48 :: digits)
  | decimal {c : UInt8} {digits : Bytes} : c ≠ 48 → (∀ d ∈ c :: digits, Strtoul.isDigit 10 d) →
      Constant (Strtoul.value 10 (c :: digits)) (c :: digits)

def Kind.mark : Kind → UInt8
  | .register => dollar
  | .module_ => at_
  | .thread => percent
  | .symbol => question

inductive Level
  | atom | operand | sentence

/-- `operand (operator operand)*`, where an operand is an atom behind a group of prefixes. -/
inductive Spells : Level → Expr → Bytes → Prop
  | const {n : Nat} {text : Bytes} : Constant n text → Spells .atom (.const n) text
  | register {name : Bytes} : (∀ c ∈ name, isAlnum c) → Spells .atom (.named ⟨.register, name⟩) (dollar :: name)
  | quoted {kind : Kind} {name : Bytes} : kind ≠ .register → kind.mark ∉ name →
      Spells .atom (.named ⟨kind, name⟩) (kind.mark :: name ++ [kind.mark])
  | paren {e : Expr} {text space : Bytes} : Spells .sentence e text → Spaces space →
      Spells .atom (.paren e) (opening :: (text ++ space) ++ [closing])
  | operand {e : Expr} {group text : Bytes} : PrefixText group → Spells .atom e text →
      Spells .operand (.prefixed (group.count tilde) (group.count star) e) (group ++ text)
  | single {e : Expr} {text : Bytes} : Spells .operand e text → Spells .sentence e text
  | binary {left right : Expr} {op : Operator} {ltext space sign rtext : Bytes} : Spells .sentence left ltext →
      Spaces space → operatorText op = some sign → Spells .operand right rtext →
      Spells .sentence (.binary left op right) (ltext ++ space ++ sign ++ rtext)

/-- A sentence with white space behind it. -/
def SpellsLine (e : Expr) (line : Bytes) : Prop := ∃ text space, Spells .sentence e text ∧ Spaces space ∧ line = text ++ space

/-- All names of a tree are like this. -/
def Expr.NamesAre (ok : Bytes → Prop) : Expr → Prop
  | .const _ => True
  | .named o => ok o.name
  | .paren e => e.NamesAre ok
  | .prefixed _ _ e => e.NamesAre ok
  | .binary left _ right => left.NamesAre ok ∧ right.NamesAre ok

/-- Alphanumerics, `_`, `:` and `,`. -/
def PlainName (name : Bytes) : Prop := ∀ c ∈ name, isAlnum c ∨ c = 95 ∨ c = 58 ∨ c = 44

end Psplink.Address
