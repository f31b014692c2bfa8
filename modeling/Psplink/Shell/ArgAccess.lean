import Psplink.Lib.Effect
import Psplink.Shell.ParseArgs

/-!
# Command lines, access by access

`parse_args` once more, as a program that makes every access to the line, to the buffer and to the array
of arguments a call. A pointer into the line or into the buffer is an index, and `argv` has indices into
the buffer or `NULL`.
-/

namespace Psplink.Shell
open Psplink.Lib Psplink.Util

inductive ArgCall
  | readIn (i : Nat)
  | readOut (i : Nat)
  | writeOut (i : Nat) (ch : UInt8)
  | readArgv (i : Nat)
  | writeArgv (i : Nat) (arg : Option Nat)

/-- An entry of `argv` that is read is used as a pointer. -/
@[reducible] def ArgCall.Answer : ArgCall → Type
  | .readIn _ | .readOut _ => UInt8
  | .readArgv _ => Nat
  | .writeOut _ _ | .writeArgv _ _ => Unit

abbrev Parsing (α : Type) : Type := Prog ArgCall ArgCall.Answer α

/-- The locals of `parse_args`, with `*argc`. -/
structure Cursor where
  input : Nat
  out : Nat
  argc : Nat
  inQuote : UInt8

inductive Parsed
  | failed
  | returned (argc : Nat)
  /-- The loops were given too few turns. -/
  | unfinished
deriving DecidableEq

namespace Access

def readIn (i : Nat) : Parsing UInt8 := Prog.call (ArgCall.readIn i)
def readOut (i : Nat) : Parsing UInt8 := Prog.call (ArgCall.readOut i)
def writeOut (i : Nat) (ch : UInt8) : Parsing Unit := Prog.call (ArgCall.writeOut i ch)
def readArgv (i : Nat) : Parsing Nat := Prog.call (ArgCall.readArgv i)
def writeArgv (i : Nat) (arg : Option Nat) : Parsing Unit := Prog.call (ArgCall.writeArgv i arg)

/-- `while(is_aspace(*in))` -/
def skipSpace : Nat → Nat → Parsing (Option Nat)
  | 0, _ => return none
  | fuel + 1, i => do
      let ch ← readIn i
      if isAspace ch then skipSpace fuel (i + 1) else return some i

def digits (toInt : UInt8 → Option UInt8) (bits : UInt8) (str : Nat) : Nat → UInt8 × Nat → Parsing (UInt8 × Nat)
  | 0, read => return read
  | limit + 1, (ch, i) => do
      let c ← readIn (str + i)
      match toInt c with
      | none => return (ch, i)
      | some digit => digits toInt bits str limit (ch <<< bits ||| digit, i + 1)

def decodeHex (str : Nat) : Parsing (Option (UInt8 × Nat)) := do
  return decoded (← digits hexToInt 4 str 2 (0, 0))

def decodeOct (str : Nat) : Parsing (Option (UInt8 × Nat)) := do
  return decoded (← digits octToInt 3 str 4 (0, 0))

def emit (s : Cursor) (ch : UInt8) (input : Nat) : Parsing Cursor := do
  writeOut s.out ch
  return { s with input := input, out := s.out + 1 }

def escape (s : Cursor) : Parsing (Option Cursor) := do
  let input := s.input + 1
  let c ← readIn input
  if c = 110 then return some (← emit s 10 (input + 1))
  if c = 114 then return some (← emit s 13 (input + 1))
  if c = 48 then
    match ← decodeOct (input + 1) with
    | none => return none
    | some (ch, i) => return some (← emit s ch (input + 1 + i))
  if c = 120 then
    match ← decodeHex (input + 1) with
    | none => return none
    | some (ch, i) => return some (← emit s ch (input + 1 + i))
  if c = 0 then return some { s with input := input }
  return some (← emit s c (input + 1))

def space (fuel : Nat) (s : Cursor) : Parsing (Option Cursor) := do
  writeOut s.out 0
  let out := s.out + 1
  match ← skipSpace fuel s.input with
  | none => return none
  | some input =>
      if (← readIn input) ≠ 0 then
        writeArgv s.argc (some out)
        return some { s with input := input, out := out, argc := s.argc + 1 }
      else return some { s with input := input, out := out }

def quote (s : Cursor) (c : UInt8) : Parsing Cursor :=
  if s.inQuote ≠ 0 then
    if c = s.inQuote then return { s with inQuote := 0, input := s.input + 1 }
    else emit s c (s.input + 1)
  else return { s with inQuote := c, input := s.input + 1 }

def loop (maxArgs : Nat) : Nat → Cursor → Parsing (Except Parsed Cursor)
  | 0, _ => return .error .unfinished
  | fuel + 1, s => do
      let c ← readIn s.input
      if c ≠ 0 ∧ s.argc < maxArgs then
        if c = 92 then
          match ← escape s with
          | none => return .error .failed
          | some s => loop maxArgs fuel s
        else if isAspace c ∧ s.inQuote = 0 then
          match ← space (fuel + 1) s with
          | none => return .error .unfinished
          | some s => loop maxArgs fuel s
        else if c = 34 ∨ c = 39 then loop maxArgs fuel (← quote s c)
        else loop maxArgs fuel (← emit s c (s.input + 1))
      else return .ok s

def finish (s : Cursor) : Parsing Parsed := do
  if s.inQuote ≠ 0 then return .failed
  writeOut s.out 0
  let last ← readArgv (s.argc - 1)
  let argc := if (← readOut last) = 0 then s.argc - 1 else s.argc
  writeArgv argc none
  return .returned argc

/-- None of the pointers is `NULL`. -/
def parseArgs (fuel maxArgs : Nat) : Parsing Parsed := do
  if maxArgs = 0 then return .failed
  match ← skipSpace fuel 0 with
  | none => return .unfinished
  | some input =>
      if (← readIn input) = 0 then return .returned 0
      writeArgv 0 (some 0)
      match ← loop maxArgs fuel ⟨input, 0, 1, 0⟩ with
      | .error ended => return ended
      | .ok s => finish s

end Access

/-! ## Memory -/

/-- What has been written to the buffer and to the array. -/
structure ArgMemory where
  out : Nat → Option UInt8
  argv : Nat → Option (Option Nat)

def unwritten : ArgMemory := ⟨fun _ => none, fun _ => none⟩

def memory (line : Bytes) : (q : ArgCall) → ArgMemory → q.Answer × ArgMemory
  | .readIn i, w => ((line ++ [0]).getD i 0, w)
  | .readOut i, w => ((w.out i).getD 0, w)
  | .writeOut i ch, w => ((), { w with out := Function.update w.out i (some ch) })
  | .readArgv i, w => ((w.argv i).join.getD 0, w)
  | .writeArgv i arg, w => ((), { w with argv := Function.update w.argv i (some arg) })

/-- Up to the NUL of the line, as many bytes of the buffer as the line has, `maxArgs` arguments, and nothing that
has not been written is read. -/
def ArgCall.InBounds (line : Bytes) (maxArgs : Nat) (w : ArgMemory) : ArgCall → Prop
  | .readIn i => i ≤ line.length
  | .readOut i => (w.out i).isSome
  | .writeOut i _ => i ≤ line.length
  | .readArgv i => i < maxArgs ∧ ∃ p, w.argv i = some (some p)
  | .writeArgv i _ => i < maxArgs

def bounds (line : Bytes) (maxArgs : Nat) : Prog.Contract ArgCall ArgCall.Answer ArgMemory where
  pre w q := q.InBounds line maxArgs w
  post w q a w' := (a, w') = memory line q w

section

variable {α : Type} {line : Bytes} {maxArgs : Nat} {w : ArgMemory} {R : α → ArgMemory → Prop}

theorem wp_access {q : ArgCall} {k : q.Answer → Parsing α} (allowed : q.InBounds line maxArgs w)
    (next : (k (memory line q w).1).wp (bounds line maxArgs) R (memory line q w).2) :
    (Prog.ask q k).wp (bounds line maxArgs) R w := by
  refine ⟨allowed, fun a w' answered => ?_⟩
  obtain ⟨rfl, rfl⟩ := Prod.mk.inj answered
  exact next

/-- The character that `rest` begins with, or the NUL. -/
theorem wp_readIn {before rest : Bytes} (split : line = before ++ rest) {k : UInt8 → Parsing α}
    (next : (k (rest.headD 0)).wp (bounds line maxArgs) R w) :
    (Access.readIn before.length >>= k).wp (bounds line maxArgs) R w := by
  refine wp_access ?_ ?_
  · show before.length ≤ line.length
    rw [split, List.length_append]
    exact Nat.le_add_right _ _
  · have read : (memory line (.readIn before.length) w).1 = rest.headD 0 := by
      show (line ++ [0]).getD before.length 0 = rest.headD 0
      rw [split, List.append_assoc, List.getD_eq_getElem?_getD, List.getElem?_append_right (Nat.le_refl _), Nat.sub_self]
      cases rest <;> rfl
    rw [read]
    exact next

theorem wp_writeOut {i : Nat} {ch : UInt8} {k : Unit → Parsing α} (room : i ≤ line.length)
    (next : (k ()).wp (bounds line maxArgs) R { w with out := Function.update w.out i (some ch) }) :
    (Access.writeOut i ch >>= k).wp (bounds line maxArgs) R w := wp_access room next

theorem wp_readOut {i : Nat} {ch : UInt8} {k : UInt8 → Parsing α} (there : w.out i = some ch)
    (next : (k ch).wp (bounds line maxArgs) R w) : (Access.readOut i >>= k).wp (bounds line maxArgs) R w := by
  have read : (memory line (.readOut i) w).1 = ch := by
    show (w.out i).getD 0 = ch
    rw [there, Option.getD_some]
  refine wp_access (Option.isSome_iff_exists.mpr ⟨ch, there⟩) ?_
  rw [read]
  exact next

theorem wp_writeArgv {i : Nat} {arg : Option Nat} {k : Unit → Parsing α} (room : i < maxArgs)
    (next : (k ()).wp (bounds line maxArgs) R { w with argv := Function.update w.argv i (some arg) }) :
    (Access.writeArgv i arg >>= k).wp (bounds line maxArgs) R w := wp_access room next

theorem wp_readArgv {i p : Nat} {k : Nat → Parsing α} (room : i < maxArgs) (there : w.argv i = some (some p))
    (next : (k p).wp (bounds line maxArgs) R w) : (Access.readArgv i >>= k).wp (bounds line maxArgs) R w := by
  have read : (memory line (.readArgv i) w).1 = p := by
    show (w.argv i).join.getD 0 = p
    rw [there]
    rfl
  refine wp_access ⟨room, p, there⟩ ?_
  rw [read]
  exact next

/-- A state of the parser as it stands in memory. -/
structure Stands (line : Bytes) (s : ParseState) (c : Cursor) (w : ArgMemory) : Prop where
  input : ∃ before, line = before ++ s.input ∧ c.input = before.length
  out : ∀ i, w.out i = s.out[i]?
  outEnd : c.out = s.out.length
  argv : ∀ i, w.argv i = s.argv[i]?.map some
  argc : c.argc = s.argv.length
  inQuote : c.inQuote = s.inQuote

/-- There is room for what is written. -/
structure Roomy (line : Bytes) (maxArgs : Nat) (s : ParseState) : Prop where
  out : s.out.length + s.input.length ≤ line.length
  argv : s.argv.length ≤ maxArgs
  opened : s.argv.length = maxArgs → s.argv.getLast? = some s.out.length
  begun : s.argv ≠ []
  within : ∀ p ∈ s.argv, p ≤ s.out.length

/-! ### Pieces of the loop -/

theorem Stands.put {s : ParseState} {c : Cursor} (stands : Stands line s c w) (ch : UInt8) (i : Nat) :
    Function.update w.out c.out (some ch) i = (s.out ++ [ch])[i]? := by
  rw [stands.outEnd]
  by_cases here : i = s.out.length
  · rw [here, Function.update_self, List.getElem?_concat_length]
  · rw [Function.update_of_ne here, stands.out, List.getElem?_append]
    split
    · rfl
    · rw [List.getElem?_eq_none (by omega), List.getElem?_eq_none (by simp; omega)]

theorem Stands.point {s : ParseState} {c : Cursor} (stands : Stands line s c w) (p i : Nat) :
    Function.update w.argv c.argc (some (some p)) i = (s.argv ++ [p])[i]?.map some := by
  rw [stands.argc]
  by_cases here : i = s.argv.length
  · rw [here, Function.update_self, List.getElem?_concat_length]
    rfl
  · rw [Function.update_of_ne here, stands.argv, List.getElem?_append]
    split
    · rfl
    · rw [List.getElem?_eq_none (by omega), List.getElem?_eq_none (by simp; omega)]

theorem isAspace_nul : isAspace 0 = false := by decide

theorem wp_skipSpace {fuel : Nat} {before rest : Bytes} (split : line = before ++ rest) (enough : rest.length < fuel)
    {R : Option Nat → ArgMemory → Prop} (next : R (some (before ++ rest.takeWhile isAspace).length) w) :
    (Access.skipSpace fuel before.length).wp (bounds line maxArgs) R w := by
  induction rest generalizing fuel before with
  | nil =>
      cases fuel with
      | zero => cases enough
      | succ fuel =>
          refine wp_readIn split ?_
          rw [List.headD_nil, isAspace_nul]
          rwa [List.takeWhile_nil, List.append_nil] at next
  | cons c rest ih =>
      cases fuel with
      | zero => cases enough
      | succ fuel =>
          refine wp_readIn split ?_
          rw [List.headD_cons]
          cases blank : isAspace c with
          | false =>
              rw [List.takeWhile_cons_of_neg (by rw [blank]; exact Bool.false_ne_true), List.append_nil] at next
              exact next
          | true =>
              have behind : (before ++ [c]).length = before.length + 1 := by rw [List.length_append, List.length_singleton]
              have further : (Access.skipSpace fuel (before ++ [c]).length).wp (bounds line maxArgs) R w := by
                refine ih (by rw [split, List.append_assoc]; rfl) (Nat.lt_of_succ_lt_succ enough) ?_
                rw [List.takeWhile_cons_of_pos blank] at next
                rwa [List.append_assoc, List.singleton_append]
              rwa [behind] at further

theorem wp_digits {toInt : UInt8 → Option UInt8} (nul : toInt 0 = none) {bits : UInt8} {limit str : Nat}
    {read : UInt8 × Nat} {before rest : Bytes} (split : line = before ++ rest) (here : str + read.2 = before.length)
    {R : UInt8 × Nat → ArgMemory → Prop} (next : R (digits toInt bits limit rest read) w) :
    (Access.digits toInt bits str limit read).wp (bounds line maxArgs) R w := by
  induction limit generalizing read before rest with
  | zero => exact next
  | succ limit ih =>
      rw [Access.digits, here]
      refine wp_readIn split ?_
      cases rest with
      | nil =>
          rw [List.headD_nil, nul]
          exact next
      | cons c rest =>
          rw [List.headD_cons]
          rw [digits] at next
          cases digit : toInt c with
          | none =>
              rw [digit] at next
              exact next
          | some value =>
              rw [digit] at next
              exact @ih _ (before ++ [c]) rest (by rw [split, List.append_assoc]; rfl)
                (by rw [List.length_append, ← here]; rfl) next

/-- A character is written and so many of the line are behind. -/
theorem wp_emit {s : ParseState} {c : Cursor} (stands : Stands line s c w) (room : s.out.length ≤ line.length)
    {before rest : Bytes} (split : line = before ++ rest) (ch : UInt8) {R : Cursor → ArgMemory → Prop}
    (next : ∀ c' w', Stands line (s.emit ch rest) c' w' → R c' w') :
    (Access.emit c ch before.length).wp (bounds line maxArgs) R w := by
  refine wp_access ?_ (next _ _ ?_)
  · show c.out ≤ line.length
    rwa [stands.outEnd]
  · constructor
    · exact ⟨before, split, rfl⟩
    · exact stands.put ch
    · show c.out + 1 = (s.out ++ [ch]).length
      rw [stands.outEnd, List.length_append, List.length_singleton]
    · exact stands.argv
    · exact stands.argc
    · exact stands.inQuote

theorem hexToInt_nul : hexToInt 0 = none := by decide

theorem octToInt_nul : octToInt 0 = none := by decide

/-- What a turn leaves, if it leaves anything. -/
def Follows (line : Bytes) (turned : Option ParseState) (c : Option Cursor) (w : ArgMemory) : Prop :=
  match turned with
  | none => c = none
  | some s => ∃ c', c = some c' ∧ Stands line s c' w

theorem wp_emitted {s : ParseState} {c : Cursor} (stands : Stands line s c w) (room : s.out.length ≤ line.length)
    {before rest : Bytes} (split : line = before ++ rest) (ch : UInt8) :
    (Access.emit c ch before.length >>= fun c' => (return some c' : Parsing (Option Cursor))).wp (bounds line maxArgs)
      (Follows line (some (s.emit ch rest))) w :=
  (Prog.wp_bind _ _ _ _).mpr (wp_emit stands room split ch fun c' _ stands' => ⟨c', rfl, stands'⟩)

/-- The digits of a character in octal or hexadecimal. -/
theorem wp_decoded {s : ParseState} {c : Cursor} (stands : Stands line s c w) (room : s.out.length ≤ line.length)
    {before rest : Bytes} (split : line = before ++ rest) {toInt : UInt8 → Option UInt8} (nul : toInt 0 = none)
    {bits : UInt8} {limit : Nat} :
    ((Access.digits toInt bits before.length limit (0, 0) >>= fun read =>
      (return decoded read : Parsing (Option (UInt8 × Nat)))) >>= fun read => match read with
        | none => (return none : Parsing (Option Cursor))
        | some (ch, i) => Access.emit c ch (before.length + i) >>= fun c' => return some c').wp (bounds line maxArgs)
      (Follows line ((decoded (digits toInt bits limit rest (0, 0))).map fun read => s.emit read.1 (rest.drop read.2))) w := by
  rw [Prog.wp_bind, Prog.wp_bind]
  refine wp_digits nul split rfl ?_
  dsimp only [Prog.pure_def]
  rw [Prog.wp_ret]
  cases done : decoded (digits toInt bits limit rest (0, 0)) with
  | none => exact rfl
  | some read =>
      obtain ⟨ch, i⟩ := read
      have few : i ≤ rest.length := by
        have bound := digits_le toInt bits limit rest (0, 0)
        rw [decoded_eq_some done, Nat.zero_add] at bound
        exact bound
      have behind : (before ++ rest.take i).length = before.length + i := by
        rw [List.length_append, List.length_take, Nat.min_eq_left few]
      have emitted := @wp_emitted line maxArgs w s c stands room _ _
        (show line = (before ++ rest.take i) ++ rest.drop i by rw [List.append_assoc, List.take_append_drop, split]) ch
      rwa [behind] at emitted

theorem wp_escape (noNul : 0 ∉ line) {s : ParseState} {c : Cursor} (stands : Stands line s c w) {input : Bytes}
    (front : s.input = 92 :: input) (room : s.out.length ≤ line.length) :
    (Access.escape c).wp (bounds line maxArgs) (Follows line (s.escape input)) w := by
  obtain ⟨before, split, here⟩ := stands.input
  have split₁ : line = (before ++ [92]) ++ input := by rw [split, front, List.append_assoc]; rfl
  have behind : c.input + 1 = (before ++ [92]).length := by rw [here, List.length_append, List.length_singleton]
  unfold Access.escape
  dsimp only
  rw [behind]
  refine wp_readIn split₁ ?_
  cases input with
  | nil =>
      have ends : Stands line { s with input := [] } { c with input := (before ++ [92]).length } w :=
        ⟨⟨before ++ [92], split₁, rfl⟩, stands.out, stands.outEnd, stands.argv, stands.argc, stands.inQuote⟩
      exact ⟨_, rfl, ends⟩
  | cons ch input =>
      have split₂ : line = (before ++ [92, ch]) ++ input := by rw [split₁]; simp
      have behind₂ : (before ++ [92]).length + 1 = (before ++ [92, ch]).length := by simp
      rw [List.headD_cons, ParseState.escape, behind₂]
      by_cases newline : ch = 110
      · rw [if_pos newline, if_pos newline]
        exact wp_emitted stands room split₂ 10
      rw [if_neg newline, if_neg newline]
      by_cases ret : ch = 114
      · rw [if_pos ret, if_pos ret]
        exact wp_emitted stands room split₂ 13
      rw [if_neg ret, if_neg ret]
      by_cases octal : ch = 48
      · rw [if_pos octal, if_pos octal]
        exact wp_decoded stands room split₂ octToInt_nul
      rw [if_neg octal, if_neg octal]
      by_cases hexadecimal : ch = 120
      · rw [if_pos hexadecimal, if_pos hexadecimal]
        exact wp_decoded stands room split₂ hexToInt_nul
      rw [if_neg hexadecimal, if_neg hexadecimal]
      have nul : ch ≠ 0 := fun zero => noNul (by rw [split, front, ← zero]; simp)
      rw [if_neg nul]
      exact wp_emitted stands room split₂ ch

theorem wp_space (noNul : 0 ∉ line) {s : ParseState} {c : Cursor} (stands : Stands line s c w)
    (room : s.out.length ≤ line.length) (few : s.argv.length < maxArgs) {fuel : Nat} (enough : s.input.length < fuel) :
    (Access.space fuel c).wp (bounds line maxArgs) (Follows line (some s.space)) w := by
  obtain ⟨before, split, here⟩ := stands.input
  unfold Access.space
  refine wp_writeOut (by rwa [stands.outEnd]) ?_
  generalize put : ({ w with out := Function.update w.out c.out (some 0) } : ArgMemory) = w₁
  have out : ∀ i, w₁.out i = (s.out ++ [0])[i]? := by
    rw [← put]
    exact stands.put 0
  have outEnd : c.out + 1 = (s.out ++ [0]).length := by rw [stands.outEnd, List.length_append, List.length_singleton]
  have argv : w₁.argv = w.argv := by rw [← put]
  dsimp only
  rw [here, Prog.wp_bind]
  refine wp_skipSpace split enough ?_
  have split₁ : line = (before ++ s.input.takeWhile isAspace) ++ s.input.dropWhile isAspace := by
    rw [List.append_assoc, List.takeWhile_append_dropWhile, split]
  dsimp only
  refine wp_readIn split₁ ?_
  cases rest : s.input.dropWhile isAspace with
  | nil =>
      rw [List.headD_nil, if_neg (not_not.mpr rfl)]
      refine ⟨_, rfl, ⟨_, ?_, rfl⟩, out, outEnd, ?_, ?_, stands.inQuote⟩
      · exact split₁
      · rw [ParseState.space, rest, argv]
        exact stands.argv
      · rw [ParseState.space, rest]
        exact stands.argc
  | cons ch input =>
      have nul : ch ≠ 0 := fun zero => noNul (by rw [split₁, rest, ← zero]; simp)
      rw [List.headD_cons, if_pos nul]
      refine wp_writeArgv (by rwa [stands.argc]) ⟨_, rfl, ⟨_, split₁, rfl⟩, out, outEnd, ?_, ?_, stands.inQuote⟩
      · rw [ParseState.space, rest, argv, outEnd]
        exact stands.point _
      · rw [ParseState.space, rest]
        simp [stands.argc]

theorem wp_quote {s : ParseState} {c : Cursor} (stands : Stands line s c w) (room : s.out.length ≤ line.length)
    {ch : UInt8} {input : Bytes} (front : s.input = ch :: input) {R : Cursor → ArgMemory → Prop}
    (next : ∀ c' w', Stands line (s.quote ch input) c' w' → R c' w') :
    (Access.quote c ch).wp (bounds line maxArgs) R w := by
  obtain ⟨before, split, here⟩ := stands.input
  have split₁ : line = (before ++ [ch]) ++ input := by rw [split, front, List.append_assoc]; rfl
  have behind : c.input + 1 = (before ++ [ch]).length := by rw [here, List.length_append, List.length_singleton]
  unfold Access.quote
  unfold ParseState.quote at next
  rw [stands.inQuote, behind]
  by_cases closed : s.inQuote = 0
  · rw [if_pos closed] at next
    rw [if_neg (not_not.mpr closed)]
    exact next _ _ ⟨⟨_, split₁, rfl⟩, stands.out, stands.outEnd, stands.argv, stands.argc, rfl⟩
  · rw [if_neg closed] at next
    rw [if_pos closed]
    by_cases closing : ch = s.inQuote
    · rw [if_pos closing] at next
      rw [if_pos closing]
      exact next _ _ ⟨⟨_, split₁, rfl⟩, stands.out, stands.outEnd, stands.argv, stands.argc, rfl⟩
    · rw [if_neg closing] at next
      rw [if_neg closing]
      exact wp_emit stands room split₁ ch next

theorem Roomy.turn {s s' : ParseState} (roomy : Roomy line maxArgs s) (room : s.argv.length < maxArgs)
    (turned : s.turn = some s') : Roomy line maxArgs s' := by
  have grows := ParseState.grows_turn turned
  refine ⟨grows.room.trans roomy.out, ?_, ?_, ?_, ?_⟩
  · rcases grows.argv with same | opened
    · rw [same]
      exact roomy.argv
    · rw [opened, List.length_append]
      exact room
  · intro full
    rcases grows.argv with same | opened
    · rw [same] at full
      omega
    · rw [opened, List.getLast?_concat]
  · rcases grows.argv with same | opened
    · rw [same]
      exact roomy.begun
    · rw [opened]
      exact List.concat_ne_nil _ _
  · intro p mem
    rcases grows.argv with same | opened
    · rw [same] at mem
      exact (roomy.within p mem).trans grows.longer
    · rw [opened] at mem
      rcases List.mem_append.mp mem with old | new
      · exact (roomy.within p old).trans grows.longer
      · exact (List.mem_singleton.mp new).le

/-- How the loop ends. -/
def Ends (line : Bytes) (maxArgs : Nat) (ran : Option ParseState) (r : Except Parsed Cursor) (w : ArgMemory) : Prop :=
  match ran with
  | none => r = .error .failed
  | some s => ∃ c, r = .ok c ∧ Stands line s c w ∧ Roomy line maxArgs s

theorem wp_loop (noNul : 0 ∉ line) {s : ParseState} {c : Cursor} (stands : Stands line s c w)
    (roomy : Roomy line maxArgs s) {fuel : Nat} (enough : s.input.length < fuel) :
    (Access.loop maxArgs fuel c).wp (bounds line maxArgs) (Ends line maxArgs (s.runAll maxArgs)) w := by
  induction fuel generalizing s c w with
  | zero => cases enough
  | succ fuel ih =>
      have out : s.out.length ≤ line.length := (Nat.le_add_right _ _).trans roomy.out
      obtain ⟨before, split, here⟩ := stands.input
      rw [Access.loop, here]
      refine wp_readIn split ?_
      rw [stands.argc]
      by_cases stops : s.input = [] ∨ maxArgs ≤ s.argv.length
      · rw [ParseState.runAll_stop stops, if_neg]
        · exact ⟨c, rfl, stands, roomy⟩
        · rintro ⟨more, few⟩
          rcases stops with ends | full
          · rw [ends] at more
            exact more rfl
          · omega
      · rw [not_or, Nat.not_le] at stops
        obtain ⟨more, few⟩ := stops
        obtain ⟨ch, input, front⟩ := List.exists_cons_of_ne_nil more
        have nul : ch ≠ 0 := fun zero => noNul (by rw [split, front, ← zero]; simp)
        rw [ParseState.runAll_turn more few, front, List.headD_cons, if_pos ⟨nul, few⟩]
        -- What is left to do after the turn, whichever it is.
        have after : ∀ s' c' w', s.turn = some s' → Stands line s' c' w' →
            (Access.loop maxArgs fuel c').wp (bounds line maxArgs) (Ends line maxArgs (s.turn.bind (·.runAll maxArgs))) w' := by
          intro s' c' w' turned stands'
          have shorter := ParseState.turn_shorter more turned
          rw [turned, Option.bind_some]
          exact ih stands' (roomy.turn few turned) (by omega)
        have turn := ParseState.turn_cons front
        by_cases backslash : ch = 92
        · rw [if_pos backslash] at turn ⊢
          rw [Prog.wp_bind]
          refine Prog.wp_mono ?_ (wp_escape noNul stands (by rw [front, backslash]) out)
          intro r w' follows
          rw [← turn] at follows
          cases turned : s.turn with
          | none =>
              rw [turned] at follows
              rw [show r = none from follows]
              exact rfl
          | some s' =>
              rw [turned] at follows
              obtain ⟨c', rfl, stands'⟩ := follows
              rw [← turned]
              exact after s' c' w' turned stands'
        rw [if_neg backslash] at turn ⊢
        rw [stands.inQuote]
        by_cases blank : isAspace ch ∧ s.inQuote = 0
        · rw [if_pos blank] at turn ⊢
          rw [Prog.wp_bind]
          refine Prog.wp_mono ?_ (wp_space noNul stands out few enough)
          intro r w' follows
          obtain ⟨c', rfl, stands'⟩ := follows
          exact after _ c' w' turn stands'
        rw [if_neg blank] at turn ⊢
        by_cases quotation : ch = 34 ∨ ch = 39
        · rw [if_pos quotation] at turn ⊢
          rw [Prog.wp_bind]
          exact wp_quote stands out front fun c' w' stands' => after _ c' w' turn stands'
        · rw [if_neg quotation] at turn ⊢
          have split₁ : line = (before ++ [ch]) ++ input := by rw [split, front, List.append_assoc]; rfl
          have behind : before.length + 1 = (before ++ [ch]).length := by
            rw [List.length_append, List.length_singleton]
          rw [behind, Prog.wp_bind]
          exact wp_emit stands out split₁ ch fun c' w' stands' => after _ c' w' turn stands'

/-! ### What is returned -/

def StringAt (w : ArgMemory) (p : Nat) (s : CStr) : Prop := ∀ i (h : i < s.bytes.length), w.out (p + i) = some s.bytes[i]

structure Listed (w : ArgMemory) (args : List CStr) : Prop where
  points : ∀ i (h : i < args.length), ∃ p, w.argv i = some (some p) ∧ StringAt w p args[i]
  ends : w.argv args.length = some none

def Returned (maxArgs : Nat) (parsed : Option (List CStr)) (r : Parsed) (w : ArgMemory) : Prop :=
  match parsed with
  | none => r = .failed
  | some args => r = .returned args.length ∧ Listed w args ∧ args.length < maxArgs

theorem stringAt_ofBytes {out : Bytes} (written : ∀ i, w.out i = (out ++ [0])[i]?) {p : Nat} (within : p ≤ out.length) :
    StringAt w p (CStr.ofBytes ((out ++ [0]).drop p)) := by
  intro i h
  have ends : 0 ∈ (out ++ [0]).drop p := by
    rw [List.drop_append_of_le_length within]
    exact List.mem_append_right _ (List.mem_singleton_self 0)
  obtain ⟨rest, whole⟩ := CStr.bytes_ofBytes_prefix ends
  rw [written, ← List.getElem?_drop, ← List.getElem?_eq_getElem h, ← List.getElem?_append_left h, whole]

theorem ofBytes_empty_iff {ch : UInt8} {rest : Bytes} : CStr.ofBytes (ch :: rest) = .empty ↔ ch = 0 := by
  constructor
  · intro empty
    by_contra other
    have text : (ch :: rest).takeWhile (· ≠ 0) = [] := congrArg CStr.text empty
    simp [other] at text
  · rintro rfl
    rfl

theorem dropEmpty_args {s : ParseState} (begun : s.argv ≠ []) {ch : UInt8}
    (first : (s.out ++ [0])[s.argv.getLast begun]? = some ch) :
    dropEmpty s.args = s.args.take (if ch = 0 then s.argv.length - 1 else s.argv.length) := by
  have length : s.args.length = s.argv.length := List.length_map _
  obtain ⟨inside, here⟩ := List.getElem?_eq_some_iff.mp first
  have last : s.args.getLast? = some (CStr.ofBytes ((s.out ++ [0]).drop (s.argv.getLast begun))) := by
    rw [ParseState.args, List.getLast?_map, List.getLast?_eq_getLast_of_ne_nil begun, Option.map_some]
  rw [List.drop_eq_getElem_cons inside, here] at last
  rw [dropEmpty, last]
  by_cases nul : ch = 0
  · rw [if_pos nul, if_pos (congrArg some (ofBytes_empty_iff.mpr nul)), List.dropLast_eq_take, length]
  · rw [if_neg nul, if_neg fun same => nul (ofBytes_empty_iff.mp (Option.some.inj same)), ← length, List.take_length]

theorem wp_finish {s : ParseState} {c : Cursor} (stands : Stands line s c w) (roomy : Roomy line maxArgs s) :
    (Access.finish c).wp (bounds line maxArgs)
      (Returned maxArgs (if s.inQuote = 0 then some (dropEmpty s.args) else none)) w := by
  unfold Access.finish
  rw [stands.inQuote]
  by_cases closed : s.inQuote = 0
  · rw [if_pos closed, if_neg (not_not.mpr closed)]
    have out : s.out.length ≤ line.length := (Nat.le_add_right _ _).trans roomy.out
    have some : 0 < s.argv.length := List.length_pos_iff.mpr roomy.begun
    have most := roomy.argv
    refine wp_writeOut (by rwa [stands.outEnd]) ?_
    generalize put : ({ w with out := Function.update w.out c.out (Option.some 0) } : ArgMemory) = w₁
    have written : ∀ i, w₁.out i = (s.out ++ [0])[i]? := by
      rw [← put]
      exact stands.put 0
    have argv : ∀ i, w₁.argv i = s.argv[i]?.map Option.some := by
      rw [← put]
      exact stands.argv
    have last : s.argv[s.argv.length - 1]? = Option.some (s.argv.getLast roomy.begun) := by
      rw [← List.getLast?_eq_getElem?, List.getLast?_eq_getLast_of_ne_nil roomy.begun]
    have within := roomy.within _ (List.getLast_mem roomy.begun)
    obtain ⟨ch, first⟩ : ∃ ch, (s.out ++ [0])[s.argv.getLast roomy.begun]? = Option.some ch :=
      ⟨_, List.getElem?_eq_getElem (by rw [List.length_append, List.length_singleton]; omega)⟩
    rw [dropEmpty_args roomy.begun first, stands.argc]
    refine wp_readArgv (by omega) (by rw [argv, last]; rfl) ?_
    refine wp_readOut (by rw [written, first]) ?_
    generalize count : (if ch = 0 then s.argv.length - 1 else s.argv.length) = n
    have few : n < maxArgs := by
      rw [← count]
      split
      · omega
      · rename_i other
        refine lt_of_le_of_ne most fun full => other ?_
        have opened := roomy.opened full
        rw [List.getLast?_eq_getLast_of_ne_nil roomy.begun] at opened
        rw [Option.some.inj opened, List.getElem?_concat_length] at first
        exact (Option.some.inj first).symm
    have size : n ≤ s.args.length := by
      rw [← count, ParseState.args, List.length_map]
      split <;> omega
    have taken : (s.args.take n).length = n := by rw [List.length_take, Nat.min_eq_left size]
    refine wp_writeArgv few ⟨by rw [taken], ⟨fun i h => ?_, ?_⟩, by rwa [taken]⟩
    · have less : i < n := taken ▸ h
      have inside : i < s.argv.length := by
        rw [ParseState.args, List.length_map] at size
        omega
      have arg : (s.args.take n)[i] = CStr.ofBytes ((s.out ++ [0]).drop s.argv[i]) := by
        rw [List.getElem_take]
        exact List.getElem_map _
      refine ⟨s.argv[i], ?_, ?_⟩
      · show Function.update w₁.argv n (Option.some none) i = _
        rw [Function.update_of_ne less.ne, argv, List.getElem?_eq_getElem inside]
        rfl
      · rw [arg]
        exact stringAt_ofBytes written (roomy.within _ (List.getElem_mem inside))
    · rw [taken]
      exact Function.update_self ..
  · rw [if_neg closed, if_pos closed]
    exact rfl

end

/-- What is returned and left in memory is what the parser of the line makes of it. -/
theorem wp_parseArgs (line : CStr) (maxArgs : Nat) {fuel : Nat} (enough : line.text.length < fuel) :
    (Access.parseArgs fuel maxArgs).wp (bounds line.text maxArgs) (fun r w =>
      if line.text.dropWhile isAspace = [] then r = if maxArgs = 0 then .failed else .returned 0
      else Returned maxArgs (parseArgs maxArgs line) r w) unwritten := by
  unfold Access.parseArgs parseArgs
  dsimp only
  by_cases zero : maxArgs = 0
  · rw [if_pos zero, if_pos zero, if_pos zero]
    by_cases blank : line.text.dropWhile isAspace = []
    · exact (if_pos blank).mpr rfl
    · exact (if_neg blank).mpr rfl
  rw [if_neg zero, if_neg zero, if_neg zero, Prog.wp_bind]
  have split : line.text = line.text.takeWhile isAspace ++ line.text.dropWhile isAspace :=
    List.takeWhile_append_dropWhile.symm
  refine @wp_skipSpace line.text maxArgs unwritten fuel [] line.text rfl enough _ ?_
  dsimp only
  rw [List.nil_append]
  refine wp_readIn split ?_
  have room : (line.text.dropWhile isAspace).length ≤ line.text.length := List.length_dropWhile_le ..
  cases rest : line.text.dropWhile isAspace with
  | nil =>
      rw [List.headD_nil, if_pos rfl]
      rw [Prog.pure_def, Prog.wp_ret, if_pos rfl]
  | cons ch input =>
      have nul : ch ≠ 0 := fun same => line.nulFree (by rw [split, rest, ← same]; simp)
      rw [rest] at room
      rw [List.headD_cons, if_neg nul, if_neg (List.cons_ne_nil ch input)]
      refine wp_writeArgv (Nat.pos_of_ne_zero zero) ?_
      generalize start : (⟨ch :: input, [], [0], 0⟩ : ParseState) = s
      have stands : Stands line.text s ⟨(line.text.takeWhile isAspace).length, 0, 1, 0⟩
          { unwritten with argv := Function.update unwritten.argv 0 (some (some 0)) } := by
        subst start
        refine ⟨⟨line.text.takeWhile isAspace, by rw [← rest]; exact split, rfl⟩, fun _ => rfl, rfl, fun i => ?_, rfl, rfl⟩
        cases i <;> rfl
      have roomy : Roomy line.text maxArgs s := by
        subst start
        refine ⟨?_, Nat.pos_of_ne_zero zero, fun _ => rfl, by simp, by simp⟩
        rw [List.length_nil, Nat.zero_add]
        exact room
      have inputs : s.input = ch :: input := by rw [← start]
      rw [Prog.wp_bind]
      refine Prog.wp_mono ?_ (wp_loop line.nulFree stands roomy (by rw [inputs]; omega))
      intro r w ends
      rw [ParseState.runAll, inputs] at ends
      cases ran : ParseState.run maxArgs (ch :: input).length s with
      | none =>
          rw [ran] at ends
          rw [show r = .error .failed from ends]
          exact rfl
      | some s' =>
          rw [ran] at ends
          obtain ⟨c, rfl, stands', roomy'⟩ := ends
          exact wp_finish stands' roomy'

/-- Every access stays in bounds, whatever the line is. What is returned for a line that is not blank are strings. -/
theorem parse_args_in_bounds (line : CStr) (maxArgs fuel : Nat) (enough : line.text.length < fuel) :
    (Access.parseArgs fuel maxArgs).wp (bounds line.text maxArgs) (fun r w => r ≠ .unfinished ∧
      ∀ argc, r = .returned argc → line.text.dropWhile isAspace ≠ [] → argc ≤ maxArgs - 1 ∧ w.argv argc = some none ∧
        ∀ i < argc, ∃ p s, w.argv i = some (some p) ∧ StringAt w p s) unwritten := by
  refine Prog.wp_mono ?_ (wp_parseArgs line maxArgs enough)
  intro r w parsed
  by_cases blank : line.text.dropWhile isAspace = []
  · rw [if_pos blank] at parsed
    refine ⟨?_, fun _ _ more => absurd blank more⟩
    rw [parsed]
    split <;> decide
  rw [if_neg blank] at parsed
  cases list : parseArgs maxArgs line with
  | none =>
      rw [list] at parsed
      rw [show r = .failed from parsed]
      exact ⟨by decide, fun argc same => by cases same⟩
  | some args =>
      rw [list] at parsed
      obtain ⟨rfl, listed, few⟩ := parsed
      refine ⟨(fun same => by cases same), fun argc same _ => ?_⟩
      cases same
      refine ⟨by omega, listed.ends, fun i h => ?_⟩
      obtain ⟨p, entry, text⟩ := listed.points i h
      exact ⟨p, args[i], entry, text⟩

def twoWords : CStr := .ofBytes [97, 32, 98]

/-- The second argument is opened at the limit and dropped. -/
theorem parse_args_in_bounds_limit : (Access.parseArgs 4 2).wp (bounds twoWords.text 2) (fun r w => r ≠ .unfinished ∧
    ∀ argc, r = .returned argc → twoWords.text.dropWhile isAspace ≠ [] → argc ≤ 1 ∧ w.argv argc = some none ∧
      ∀ i < argc, ∃ p s, w.argv i = some (some p) ∧ StringAt w p s) unwritten :=
  parse_args_in_bounds twoWords 2 4 (by decide)

end Psplink.Shell
