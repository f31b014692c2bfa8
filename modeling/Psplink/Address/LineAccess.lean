import Psplink.Address.Tokens
import Psplink.Lib.Effect

/-!
# Address expressions, access by access

`parse_line` once more, as a program that makes every access to the line a call: the line is cut in place by NULs, and
the functions that are given a string of it read it up to its end. A pointer is an index into the line.
-/

namespace Psplink.Address
open Psplink.Lib Psplink.Util Psplink.Kernel

/-! ## The code -/

/-- `parseLine` and `returns` are the call of `parse_line` itself and its end. -/
inductive LineCall
  | read (i : Nat)
  | write (i : Nat) (ch : UInt8)
  | strchr (s : Nat) (c : UInt8)
  | strcmp (s : Nat) (text : Bytes)
  | strtoul (s base : Nat)
  | exceptionGetReg (reg : Bytes)
  | sceKernelFindModuleByName (name : Nat)
  | psplinkReferModule (uid : Word)
  | libsFindExportByNid (uid : Word) (library : Nat) (nid : Word)
  | libsFindExportByName (uid : Word) (library name : Nat)
  | referThreadStatusByName (name : Nat)
  | sceKernelReferThreadStatus (uid : Word)
  | symbolFindByName (name : Nat)
  | derefAddr (deref : Nat) (val : Word)
  | parseLine (line : Nat)
  | returns

/-- A `NULL` or an error is `none`; `strtoul` gives a value and where it ended, `symbolFindByName` a value and a size. -/
@[reducible] def LineCall.Answer : LineCall → Type
  | .read _ => UInt8
  | .write .. | .parseLine _ | .returns => Unit
  | .strchr .. => Option Nat
  | .strcmp .. => Bool
  | .strtoul .. => Word × Nat
  | .exceptionGetReg _ | .sceKernelFindModuleByName _ | .referThreadStatusByName _ | .derefAddr .. => Option Word
  | .psplinkReferModule _ => ModuleInfo
  | .libsFindExportByNid .. | .libsFindExportByName .. => Word
  | .sceKernelReferThreadStatus _ => Option ThreadInfo
  | .symbolFindByName _ => Word × Word

abbrev Parsing (α : Type) : Type := Prog LineCall LineCall.Answer α

inductive Ended
  | failed
  | value (val : Word)
  /-- The loops were given too few turns. -/
  | unfinished
deriving DecidableEq

namespace Access

def read (i : Nat) : Parsing UInt8 := Prog.call (LineCall.read i)
def write (i : Nat) (ch : UInt8) : Parsing Unit := Prog.call (LineCall.write i ch)
def strchr (s : Nat) (c : UInt8) : Parsing (Option Nat) := Prog.call (LineCall.strchr s c)
def strcmp (s : Nat) (text : Bytes) : Parsing Bool := Prog.call (LineCall.strcmp s text)
def strtoul (s base : Nat) : Parsing (Word × Nat) := Prog.call (LineCall.strtoul s base)

/-- The text after a colon, which is cut off. -/
def cutColon (name : Nat) : Parsing (Option Nat) := do
  match ← strchr name Symbols.colon with
  | none => return none
  | some pcolon => do
      write pcolon 0
      return some (pcolon + 1)

/-- The number that a name is when there is nothing of that name. -/
def uidOf (name : Nat) (found : Option Word) : Parsing (Option Word) := do
  match found with
  | some uid => return some uid
  | none => do
      let (uid, endp) ← strtoul name 16
      if (← read endp) ≠ 0 then return none else return some uid

/-- A digit of a segment that ends its string. -/
def digitAt (i : Nat) : Parsing (Option UInt8) := do
  let digit ← read i
  if 49 ≤ digit ∧ digit ≤ 52 then
    if (← read (i + 1)) = 0 then return some digit else return none
  else return none

def segmentAt (info : ModuleInfo) (pcolon : Nat) : Parsing (Option Word) := do
  let size ← if (← read pcolon) = 115 then digitAt (pcolon + 1) else pure none
  match size with
  | some digit => return Env.segment info info.segmentsize digit
  | none =>
      match ← digitAt pcolon with
      | some digit => return Env.segment info info.segmentaddr digit
      | none => return none

def exportAt (uid : Word) (pcolon pcomma : Nat) : Parsing Word := do
  let second ← if (← read pcomma) = 48 then read (pcomma + 1) else pure 0
  if second = 120 then
    let (nid, _) ← strtoul pcomma 16
    Prog.call (LineCall.libsFindExportByNid uid pcolon nid)
  else Prog.call (LineCall.libsFindExportByName uid pcolon pcomma)

def moduleField (uid : Word) (info : ModuleInfo) (pcolon : Nat) : Parsing (Option Word) := do
  if ← strcmp pcolon (ascii "text") then return some info.textAddr
  if ← strcmp pcolon (ascii "stext") then return some info.textSize
  if ← strcmp pcolon (ascii "sdata") then return some info.dataSize
  if ← strcmp pcolon (ascii "sbss") then return some info.bssSize
  match ← strchr pcolon comma with
  | some pcomma => do
      write pcomma 0
      return some (← exportAt uid pcolon (pcomma + 1))
  | none => segmentAt info pcolon

def getModaddr (name : Nat) : Parsing (Option Word) := do
  let pcolon ← cutColon name
  match ← uidOf name (← Prog.call (LineCall.sceKernelFindModuleByName name)) with
  | none => return none
  | some uid => do
      let info ← Prog.call (LineCall.psplinkReferModule uid)
      match pcolon with
      | none => return some info.textAddr
      | some pcolon => moduleField uid info pcolon

def getThreadaddr (name : Nat) : Parsing (Option Word) := do
  let pcolon ← cutColon name
  match ← uidOf name (← Prog.call (LineCall.referThreadStatusByName name)) with
  | none => return none
  | some uid => do
      match ← Prog.call (LineCall.sceKernelReferThreadStatus uid) with
      | none => return none
      | some info => do
          match pcolon with
          | none => return some info.entry
          | some pcolon => do
              if ← strcmp pcolon (ascii "stack") then return some info.stack
              if ← strcmp pcolon (ascii "sstack") then return some info.stackSize
              return none

def getSymbol (line : Nat) : Parsing (Option Word) := do
  let getsize := (← read line) = backquote
  let (temp, size) ← Prog.call (LineCall.symbolFindByName (if getsize then line + 1 else line))
  if temp = 0 then return none else return some (if getsize then size else temp)

def alnums : Nat → Nat → Parsing Bytes
  | 0, _ => return []
  | limit + 1, line => do
      let c ← read line
      if isAlnum c then return c :: (← alnums limit (line + 1)) else return []

/-- An operand between two of the same character, and what is behind it. -/
def quoted (mark : UInt8) (line : Nat) (get : Nat → Parsing (Option Word)) : Parsing (Option (Word × Nat)) := do
  match ← strchr line mark with
  | none => return none
  | some endp => do
      write endp 0
      match ← get line with
      | none => return none
      | some temp => return some (temp, endp + 1)

/-- The operator at a character, and where the line goes on. -/
def operatorAt (c : UInt8) (line : Nat) : Parsing (Option (Operator × Nat)) := do
  match c with
  | 43 => return some (.plus, line + 1)
  | 45 => return some (.minus, line + 1)
  | 38 => if (← read (line + 1)) = 38 then return some (.land, line + 2) else return some (.and, line + 1)
  | 124 => if (← read (line + 1)) = 124 then return some (.lor, line + 2) else return some (.or, line + 1)
  | 94 => return some (.xor, line + 1)
  | 61 => if (← read (line + 1)) = 61 then return some (.eq, line + 2) else return none
  | 33 => if (← read (line + 1)) = 61 then return some (.neq, line + 2) else return none
  | 60 =>
      if (← read (line + 1)) = 60 then return some (.shl, line + 2)
      else if (← read (line + 1)) = 61 then return some (.leq, line + 2)
      else return some (.lt, line + 1)
  | 62 =>
      if (← read (line + 1)) = 62 then return some (.shr, line + 2)
      else if (← read (line + 1)) = 61 then return some (.geq, line + 2)
      else return some (.gt, line + 1)
  | 42 => return some (.mul, line + 1)
  | 47 => return some (.div, line + 1)
  | _ => return none

/-- What a turn of the loop comes to. -/
inductive Turned
  | fails
  | skips (st : Loop) (line : Nat)
  | operand (temp : Word) (line : Nat)
  | opens

def found : Option (Word × Nat) → Turned
  | none => .fails
  | some (temp, line) => .operand temp line

def turn (st : Loop) (c : UInt8) (line : Nat) : Parsing Turned := do
  if isAspace c then return .skips st (line + 1)
  else if c = star ∧ st.op ≠ .none then return .skips { st with deref := st.deref + 1 } (line + 1)
  else if c = tilde then return .skips { st with not := st.not + 1 } (line + 1)
  else if c = dollar then
    let buf ← alnums 15 (line + 1)
    match ← Prog.call (LineCall.exceptionGetReg buf) with
    | none => return .fails
    | some temp => return .operand temp (line + 1 + buf.length)
  else if c = at_ then return found (← quoted at_ (line + 1) getModaddr)
  else if c = percent then return found (← quoted percent (line + 1) getThreadaddr)
  else if c = question then return found (← quoted question (line + 1) getSymbol)
  else if c = opening then return .opens
  else if isHex c then
    if st.op = .none then return .fails
    else
      let (temp, endp) ← strtoul line 0
      return .operand temp endp
  else if st.op ≠ .none then return .fails
  else
    match ← operatorAt c line with
    | none => return .fails
    | some (op, line) => return .skips { st with op := op } line

/-- The depth that is left at the bracket that closes, or at the end. -/
def scan : Nat → Nat → Nat → Parsing (Option (Nat × Nat))
  | 0, _, _ => return none
  | fuel + 1, depth, pos => do
      let c ← read pos
      if c = 0 then return some (depth, pos)
      else if c = opening then scan fuel (depth + 1) (pos + 1)
      else if c = closing then
        if depth - 1 = 0 then return some (0, pos) else scan fuel (depth - 1) (pos + 1)
      else scan fuel depth (pos + 1)

def loop : Nat → Loop → Nat → Parsing Ended
  | 0, _, _ => return .unfinished
  | fuel + 1, st, line => do
      let c ← read line
      if c = 0 then return .value st.val
      let operate (temp : Word) (line : Nat) : Parsing Ended := do
        match ← Prog.call (LineCall.derefAddr st.deref temp) with
        | none => return .failed
        | some temp => loop fuel (st.after temp) line
      match ← turn st c line with
      | .fails => return .failed
      | .skips st line => loop fuel st line
      | .operand temp line => operate temp line
      | .opens =>
          match ← scan fuel 1 (line + 1) with
          | none => return .unfinished
          | some (depth, pos) =>
              if depth ≠ 0 then return .failed
              write pos 0
              Prog.call (LineCall.parseLine (line + 1))
              let ended ← loop fuel .first (line + 1)
              Prog.call LineCall.returns
              match ended with
              | .value temp => operate temp (pos + 1)
              | ended => return ended

def parseLine (fuel line : Nat) : Parsing Ended := do
  Prog.call (LineCall.parseLine line)
  let ended ← loop fuel .first line
  Prog.call LineCall.returns
  return ended

end Access

/-! ## The copied line -/

/-- `calls` are the lengths of the strings of the calls of `parse_line` in progress. -/
structure LineMemory where
  bytes : Bytes
  calls : List Nat := []

/-- The string at a pointer. -/
structure Text (bytes : Bytes) (i : Nat) (text : Bytes) : Prop where
  nulFree : 0 ∉ text
  there : ∀ j ≤ text.length, bytes[i + j]? = (text ++ [0])[j]?

def Readable (w : LineMemory) (i : Nat) : Prop := ∃ text, Text w.bytes i text

/-- Every access is to the line, every string ends in it, and `parse_line` calls itself with a shorter one. -/
def LineCall.InBounds (w : LineMemory) : LineCall → Prop
  | .read i | .write i _ => i < w.bytes.length
  | .strchr s _ | .strcmp s _ | .strtoul s _ => Readable w s
  | .sceKernelFindModuleByName name | .referThreadStatusByName name | .symbolFindByName name => Readable w name
  | .libsFindExportByNid _ library _ => Readable w library
  | .libsFindExportByName _ library name => Readable w library ∧ Readable w name
  | .parseLine line => ∃ text, Text w.bytes line text ∧ ∀ n ∈ w.calls.head?, text.length < n
  | .exceptionGetReg _ | .psplinkReferModule _ | .sceKernelReferThreadStatus _ | .derefAddr .. | .returns => True

/-- `strtoul` takes as much of its string as it likes. -/
def lineBounds : Prog.Contract LineCall LineCall.Answer LineMemory where
  pre w q := q.InBounds w
  post w
    | .read i, ch, w' => w' = w ∧ ch = w.bytes.getD i 0
    | .write i ch, _, w' => w' = { w with bytes := w.bytes.set i ch }
    | .strchr s c, found, w' => w' = w ∧ ∀ text, Text w.bytes s text →
        found = (cutAt c text).2.map fun _ => s + (cutAt c text).1.length
    | .strcmp s other, same, w' => w' = w ∧ ∀ text, Text w.bytes s text → same = decide (text = other)
    | .strtoul s _, (_, endp), w' => w' = w ∧ ∀ text, Text w.bytes s text → s ≤ endp ∧ endp ≤ s + text.length
    | .parseLine line, _, w' => ∀ text, Text w.bytes line text → w' = { w with calls := text.length :: w.calls }
    | .returns, _, w' => w' = { w with calls := w.calls.tail }
    | _, _, w' => w' = w

/-- So many bytes from a pointer on may have changed. -/
structure Frame (i n : Nat) (w w' : LineMemory) : Prop where
  length : w'.bytes.length = w.bytes.length
  calls : w'.calls = w.calls
  same : ∀ j, j < i ∨ i + n ≤ j → w'.bytes[j]? = w.bytes[j]?

section

variable {α : Type} {w w' w'' : LineMemory} {bytes bytes' text front rest : Bytes} {i j n m : Nat} {c : UInt8}
  {R : α → LineMemory → Prop}

theorem Frame.refl (i n : Nat) (w : LineMemory) : Frame i n w w := ⟨rfl, rfl, fun _ _ => rfl⟩

theorem Frame.trans (first : Frame i n w w') (second : Frame i n w' w'') : Frame i n w w'' where
  length := second.length.trans first.length
  calls := second.calls.trans first.calls
  same j outside := (second.same j outside).trans (first.same j outside)

theorem Frame.widen (frame : Frame j m w w') (left : i ≤ j) (right : j + m ≤ i + n) : Frame i n w w' where
  length := frame.length
  calls := frame.calls
  same k outside := frame.same k (by omega)

theorem Frame.write (inside : i ≤ j ∧ j < i + n) (ch : UInt8) : Frame i n w { w with bytes := w.bytes.set j ch } where
  length := List.length_set
  calls := rfl
  same k outside := List.getElem?_set_ne (by omega)

namespace Text

theorem congr (here : Text bytes i text) (same : ∀ j, i ≤ j → j ≤ i + text.length → bytes'[j]? = bytes[j]?) :
    Text bytes' i text where
  nulFree := here.nulFree
  there j le := (same (i + j) (Nat.le_add_right i j) (by omega)).trans (here.there j le)

theorem getElem? (here : Text bytes i text) (le : j ≤ text.length) : bytes[i + j]? = some (text.getD j 0) := by
  rw [here.there j le, List.getD_eq_getElem?_getD]
  rcases Nat.lt_or_eq_of_le le with less | rfl
  · rw [List.getElem?_append_left less, List.getElem?_eq_getElem less]
    rfl
  · rw [List.getElem?_concat_length, List.getElem?_eq_none (Nat.le_refl _)]
    rfl

theorem inside (here : Text bytes i text) (le : j ≤ text.length) : i + j < bytes.length :=
  (List.getElem?_eq_some_iff.mp (here.getElem? le)).1

theorem suffix (here : Text bytes i (front ++ rest)) : Text bytes (i + front.length) rest where
  nulFree mem := here.nulFree (List.mem_append_right _ mem)
  there j le := by
    rw [Nat.add_assoc, here.there _ (by rw [List.length_append]; omega), List.append_assoc,
      List.getElem?_append_right (Nat.le_add_right _ _), Nat.add_sub_cancel_left]

/-- A NUL ends the string where it is put. -/
theorem cut (here : Text bytes i (front ++ c :: rest)) : Text (bytes.set (i + front.length) 0) i front where
  nulFree mem := here.nulFree (List.mem_append_left _ mem)
  there j le := by
    rcases Nat.lt_or_eq_of_le le with less | rfl
    · rw [List.getElem?_set_ne (by omega), here.there j (by rw [List.length_append]; omega), List.append_assoc,
        List.getElem?_append_left less, List.getElem?_append_left less]
    · rw [List.getElem?_set_self (here.inside (by rw [List.length_append]; omega)), List.getElem?_concat_length]

/-- The string behind the character that is cut out. -/
theorem behind (here : Text bytes i (front ++ c :: rest)) :
    Text (bytes.set (i + front.length) 0) (i + front.length + 1) rest := by
  have split : front ++ c :: rest = (front ++ [c]) ++ rest := by rw [List.append_assoc]; rfl
  have back : Text bytes (i + (front ++ [c]).length) rest := suffix (split ▸ here)
  rw [List.length_append, List.length_singleton, ← Nat.add_assoc] at back
  exact back.congr fun j le _ => List.getElem?_set_ne (by omega)

end Text

/-! ## Calls -/

theorem wp_read {k : UInt8 → Parsing α} (here : Text w.bytes i text) (le : j ≤ text.length)
    (next : (k (text.getD j 0)).wp lineBounds R w) : (Access.read (i + j) >>= k).wp lineBounds R w := by
  refine ⟨here.inside le, ?_⟩
  rintro ch _ ⟨rfl, rfl⟩
  rw [List.getD_eq_getElem?_getD, here.getElem? le]
  exact next

theorem wp_strchr {k : Option Nat → Parsing α} (here : Text w.bytes i text)
    (absent : (k none).wp lineBounds R w)
    (present : ∀ front rest, text = front ++ c :: rest → (k (some (i + front.length))).wp lineBounds R w) :
    (Access.strchr i c >>= k).wp lineBounds R w := by
  refine ⟨⟨text, here⟩, ?_⟩
  rintro found _ ⟨rfl, answer⟩
  obtain rfl := answer text here
  cases cut : (cutAt c text).2 with
  | none => exact absent
  | some rest => exact present _ rest (cutAt_some cut).2

theorem wp_strcmp {k : Bool → Parsing α} {other : Bytes} (here : Text w.bytes i text)
    (next : ∀ same, (k same).wp lineBounds R w) : (Access.strcmp i other >>= k).wp lineBounds R w := by
  refine ⟨⟨text, here⟩, ?_⟩
  rintro same _ ⟨rfl, -⟩
  exact next same

theorem wp_strtoul {k : Word × Nat → Parsing α} {base : Nat} (here : Text w.bytes i text)
    (next : ∀ v m, m ≤ text.length → (k (v, i + m)).wp lineBounds R w) :
    (Access.strtoul i base >>= k).wp lineBounds R w := by
  refine ⟨⟨text, here⟩, ?_⟩
  rintro ⟨v, endp⟩ _ ⟨rfl, answer⟩
  obtain ⟨le, most⟩ := answer text here
  obtain ⟨m, rfl⟩ := Nat.exists_eq_add_of_le le
  exact next v m (by omega)

/-- A character of the string is overwritten by a NUL. -/
theorem wp_cut {k : Unit → Parsing α} (here : Text w.bytes i (front ++ c :: rest))
    (next : ∀ w', Frame i (front ++ c :: rest).length w w' → Text w'.bytes i front →
      Text w'.bytes (i + front.length + 1) rest → (k ()).wp lineBounds R w') :
    (Access.write (i + front.length) 0 >>= k).wp lineBounds R w := by
  have length : (front ++ c :: rest).length = front.length + (rest.length + 1) := List.length_append
  refine ⟨here.inside (by omega), ?_⟩
  rintro - _ rfl
  exact next _ (.write ⟨Nat.le_add_right _ _, by omega⟩ 0) here.cut here.behind

theorem wp_asks {q : LineCall} {k : q.Answer → Parsing α} (allowed : q.InBounds w)
    (kept : ∀ a w', lineBounds.post w q a w' → w' = w) (next : ∀ a, (k a).wp lineBounds R w) :
    (Prog.call q >>= k).wp lineBounds R w := by
  refine ⟨allowed, fun a w' answered => ?_⟩
  obtain rfl := kept a w' answered
  exact next a

theorem wp_enter {k : Unit → Parsing α} (here : Text w.bytes i text) (shorter : ∀ n ∈ w.calls.head?, text.length < n)
    (next : (k ()).wp lineBounds R { w with calls := text.length :: w.calls }) :
    (Prog.call (LineCall.parseLine i) >>= k).wp lineBounds R w := by
  refine ⟨⟨text, here, shorter⟩, ?_⟩
  intro _ w' called
  obtain rfl := called text here
  exact next

theorem wp_returns {k : Unit → Parsing α} (next : (k ()).wp lineBounds R { w with calls := w.calls.tail }) :
    (Prog.call LineCall.returns >>= k).wp lineBounds R w := by
  refine ⟨trivial, ?_⟩
  rintro - _ rfl
  exact next

/-! ## Lookups -/

theorem Text.from (here : Text bytes i text) (le : j ≤ text.length) : Text bytes (i + j) (text.drop j) := by
  have split : text = text.take j ++ text.drop j := (List.take_append_drop j text).symm
  have length : (text.take j).length = j := by rw [List.length_take, Nat.min_eq_left le]
  have back := suffix (split ▸ here)
  rwa [length] at back

/-- A character that is no NUL is one of the string. -/
theorem getD_inside {text : Bytes} {j : Nat} {c : UInt8} (same : text.getD j 0 = c) (other : c ≠ 0) : j < text.length := by
  by_contra past
  rw [List.getD_eq_getElem?_getD, List.getElem?_eq_none (Nat.not_lt.mp past)] at same
  exact other same.symm

theorem wp_cutColon (here : Text w.bytes i text) :
    (Access.cutColon i).wp lineBounds (fun pcolon w' => Frame i text.length w w' ∧ Readable w' i ∧
      ∀ p, pcolon = some p → ∃ ext, Text w'.bytes p ext ∧ i ≤ p ∧ p + ext.length ≤ i + text.length) w := by
  refine wp_strchr here ⟨.refl _ _ _, ⟨text, here⟩, nofun⟩ fun front rest split => ?_
  subst split
  refine wp_cut here fun w' frame left right => ⟨frame, ⟨front, left⟩, ?_⟩
  rintro p ⟨⟩
  refine ⟨rest, right, by omega, ?_⟩
  rw [List.length_append, List.length_cons]
  omega

theorem wp_uidOf (readable : Readable w i) (found : Option Word) :
    (Access.uidOf i found).wp lineBounds (fun _ w' => w' = w) w := by
  obtain ⟨text, here⟩ := readable
  cases found with
  | some uid => exact rfl
  | none =>
      refine wp_strtoul here fun v m most => wp_read here most ?_
      split
      · exact rfl
      · exact rfl

theorem wp_digitAt (here : Text w.bytes i text) : (Access.digitAt i).wp lineBounds (fun _ w' => w' = w) w := by
  refine wp_read (j := 0) here (Nat.zero_le _) ?_
  split
  · next digit =>
    have some_ : 0 < text.length := getD_inside rfl fun nul => absurd digit.1 (by rw [nul]; decide)
    refine wp_read here some_ ?_
    split
    · exact rfl
    · exact rfl
  · exact rfl

theorem wp_segmentAt (info : ModuleInfo) (here : Text w.bytes i text) :
    (Access.segmentAt info i).wp lineBounds (fun _ w' => w' = w) w := by
  have rest (size : Option UInt8) : (match size with
      | some digit => return Env.segment info info.segmentsize digit
      | none => do
          match ← Access.digitAt i with
          | some digit => return Env.segment info info.segmentaddr digit
          | none => return none : Parsing (Option Word)).wp lineBounds (fun _ w' => w' = w) w := by
    cases size with
    | some digit => exact rfl
    | none =>
        refine (Prog.wp_bind _ _ _ _).mpr (Prog.wp_mono ?_ (wp_digitAt here))
        rintro (- | digit) w' rfl
        · exact rfl
        · exact rfl
  refine wp_read (j := 0) here (Nat.zero_le _) ?_
  split
  · next isS =>
    have some_ : 0 < text.length := getD_inside isS (by decide)
    refine (Prog.wp_bind _ _ _ _).mpr (Prog.wp_mono ?_ (wp_digitAt (here.from some_)))
    rintro size w' rfl
    exact rest size
  · exact rest none

theorem wp_exportAt (uid : Word) {pcolon : Nat} (library : Readable w pcolon) (here : Text w.bytes i text) :
    (Access.exportAt uid pcolon i).wp lineBounds (fun _ w' => w' = w) w := by
  have rest (second : UInt8) : (if second = 120 then do
        let (nid, _) ← Access.strtoul i 16
        Prog.call (LineCall.libsFindExportByNid uid pcolon nid)
      else Prog.call (LineCall.libsFindExportByName uid pcolon i) : Parsing Word).wp lineBounds (fun _ w' => w' = w) w := by
    split
    · exact wp_strtoul here fun v m most => ⟨library, fun _ _ kept => kept⟩
    · exact ⟨⟨library, text, here⟩, fun _ _ kept => kept⟩
  refine wp_read (j := 0) here (Nat.zero_le _) ?_
  split
  · next zero =>
    exact wp_read here (getD_inside zero (by decide)) (rest _)
  · exact rest 0

theorem wp_moduleField (uid : Word) (info : ModuleInfo) (here : Text w.bytes i text) :
    (Access.moduleField uid info i).wp lineBounds (fun _ w' => Frame i text.length w w') w := by
  have done (r : Option Word) : (return r : Parsing (Option Word)).wp lineBounds (fun _ w' => Frame i text.length w w') w :=
    .refl _ _ _
  refine wp_strcmp here fun isText => ?_
  split
  · exact done _
  refine wp_strcmp here fun isStext => ?_
  split
  · exact done _
  refine wp_strcmp here fun isSdata => ?_
  split
  · exact done _
  refine wp_strcmp here fun isSbss => ?_
  split
  · exact done _
  refine wp_strchr here ?_ fun front rest split => ?_
  · refine Prog.wp_mono ?_ (wp_segmentAt info here)
    rintro _ _ rfl
    exact .refl _ _ _
  · subst split
    refine wp_cut here fun w' frame left right => ?_
    refine (Prog.wp_bind _ _ _ _).mpr (Prog.wp_mono ?_ (wp_exportAt uid ⟨front, left⟩ right))
    rintro _ _ rfl
    exact frame

theorem wp_getModaddr (here : Text w.bytes i text) :
    (Access.getModaddr i).wp lineBounds (fun _ w' => Frame i text.length w w') w := by
  refine (Prog.wp_bind _ _ _ _).mpr (Prog.wp_mono ?_ (wp_cutColon here))
  rintro pcolon w₁ ⟨frame, readable, ext⟩
  refine wp_asks readable (fun _ _ kept => kept) fun found => ?_
  refine (Prog.wp_bind _ _ _ _).mpr (Prog.wp_mono ?_ (wp_uidOf readable found))
  rintro (- | uid) _ rfl
  · exact frame
  refine wp_asks trivial (fun _ _ kept => kept) fun info => ?_
  cases pcolon with
  | none => exact frame
  | some p =>
      obtain ⟨ext, there, left, right⟩ := ext p rfl
      exact Prog.wp_mono (fun _ _ frame' => frame.trans (frame'.widen left right)) (wp_moduleField uid info there)

theorem wp_getThreadaddr (here : Text w.bytes i text) :
    (Access.getThreadaddr i).wp lineBounds (fun _ w' => Frame i text.length w w') w := by
  refine (Prog.wp_bind _ _ _ _).mpr (Prog.wp_mono ?_ (wp_cutColon here))
  rintro pcolon w₁ ⟨frame, readable, ext⟩
  refine wp_asks readable (fun _ _ kept => kept) fun found => ?_
  refine (Prog.wp_bind _ _ _ _).mpr (Prog.wp_mono ?_ (wp_uidOf readable found))
  rintro (- | uid) _ rfl
  · exact frame
  refine wp_asks trivial (fun _ _ kept => kept) fun info => ?_
  cases info with
  | none => exact frame
  | some info =>
      cases pcolon with
      | none => exact frame
      | some p =>
          obtain ⟨ext, there, -⟩ := ext p rfl
          refine wp_strcmp there fun isStack => ?_
          split
          · exact frame
          refine wp_strcmp there fun isSstack => ?_
          split
          · exact frame
          · exact frame

theorem wp_getSymbol (here : Text w.bytes i text) :
    (Access.getSymbol i).wp lineBounds (fun _ w' => Frame i text.length w w') w := by
  refine wp_read (j := 0) here (Nat.zero_le _) ?_
  refine wp_asks ?_ (fun _ _ kept => kept) fun found => ?_
  · show Readable w _
    split
    · next size => exact ⟨_, here.from (getD_inside size (by decide))⟩
    · exact ⟨text, here⟩
  · obtain ⟨temp, size⟩ := found
    dsimp only
    split
    · exact .refl _ _ _
    · exact .refl _ _ _

/-! ## The loop -/

theorem wp_alnums (limit : Nat) (here : Text w.bytes i text) :
    (Access.alnums limit i).wp lineBounds (fun buf w' => w' = w ∧ buf.length ≤ text.length) w := by
  induction limit generalizing i text with
  | zero => exact ⟨rfl, Nat.zero_le _⟩
  | succ limit ih =>
      refine wp_read (j := 0) here (Nat.zero_le _) ?_
      split
      · next alnum =>
        have some_ : 0 < text.length := getD_inside rfl fun nul => by
          rw [nul] at alnum
          exact absurd alnum (by decide)
        refine (Prog.wp_bind _ _ _ _).mpr (Prog.wp_mono ?_ (ih (here.from some_)))
        rintro buf _ ⟨rfl, short⟩
        refine ⟨rfl, ?_⟩
        rw [List.length_drop] at short
        rw [List.length_cons]
        omega
      · exact ⟨rfl, Nat.zero_le _⟩

/-- The string goes on at a pointer, up to its old end. -/
def Goes (w : LineMemory) (p e : Nat) : Prop := ∃ rest, Text w.bytes p rest ∧ p + rest.length = e

theorem goes_from (here : Text w.bytes i text) (le : j ≤ text.length) : Goes w (i + j) (i + text.length) :=
  ⟨_, here.from le, by rw [List.length_drop]; omega⟩

theorem wp_quoted {mark : UInt8} {get : Nat → Parsing (Option Word)}
    (gets : ∀ {w : LineMemory} {text : Bytes}, Text w.bytes i text →
      (get i).wp lineBounds (fun _ w' => Frame i text.length w w') w) (here : Text w.bytes i text) :
    (Access.quoted mark i get).wp lineBounds (fun r w' => Frame i text.length w w' ∧
      ∀ temp p, r = some (temp, p) → i < p ∧ Goes w' p (i + text.length)) w := by
  refine wp_strchr here ⟨.refl _ _ _, nofun⟩ fun front rest split => ?_
  subst split
  have length : (front ++ mark :: rest).length = front.length + (rest.length + 1) := List.length_append
  refine wp_cut here fun w₁ frame left right => (Prog.wp_bind _ _ _ _).mpr (Prog.wp_mono ?_ (gets left))
  intro r w₂ frame'
  have whole : Frame i (front ++ mark :: rest).length w w₂ := frame.trans (frame'.widen (Nat.le_refl _) (by omega))
  cases r with
  | none => exact ⟨whole, nofun⟩
  | some temp =>
      refine ⟨whole, ?_⟩
      rintro _ _ ⟨⟩
      exact ⟨by omega, rest, right.congr fun j le _ => frame'.same j (by omega), by omega⟩

/-- The pointer that comes with an operator. -/
def Past (i e : Nat) (w : LineMemory) (r : Option (Operator × Nat)) (w' : LineMemory) : Prop :=
  w' = w ∧ ∀ op p, r = some (op, p) → i < p ∧ Goes w p e

theorem wp_operatorAt (c : UInt8) (here : Text w.bytes i text) (some_ : 0 < text.length) :
    (Access.operatorAt c i).wp lineBounds (Past i (i + text.length) w) w := by
  have none_ : Past i (i + text.length) w none w := ⟨rfl, nofun⟩
  have one (op : Operator) : Past i (i + text.length) w (some (op, i + 1)) w := by
    refine ⟨rfl, ?_⟩
    rintro _ _ ⟨⟩
    exact ⟨by omega, goes_from here some_⟩
  have two {d : UInt8} (op : Operator) (same : text.getD 1 0 = d) (other : d ≠ 0) :
      Past i (i + text.length) w (some (op, i + 2)) w := by
    refine ⟨rfl, ?_⟩
    rintro _ _ ⟨⟩
    exact ⟨by omega, goes_from here (getD_inside same other)⟩
  unfold Access.operatorAt
  split
  · exact one _
  · exact one _
  · refine wp_read here some_ ?_
    split
    · next same => exact two _ same (by decide)
    · exact one _
  · refine wp_read here some_ ?_
    split
    · next same => exact two _ same (by decide)
    · exact one _
  · exact one _
  · refine wp_read here some_ ?_
    split
    · next same => exact two _ same (by decide)
    · exact none_
  · refine wp_read here some_ ?_
    split
    · next same => exact two _ same (by decide)
    · exact none_
  · refine wp_read here some_ ?_
    split
    · next same => exact two _ same (by decide)
    · refine wp_read here some_ ?_
      split
      · next same => exact two _ same (by decide)
      · exact one _
  · refine wp_read here some_ ?_
    split
    · next same => exact two _ same (by decide)
    · refine wp_read here some_ ?_
      split
      · next same => exact two _ same (by decide)
      · exact one _
  · exact one _
  · exact one _
  · exact none_

/-- A turn gets on with the string, or it has read a number while one was expected. -/
def Turns (st : Loop) (i e : Nat) (w' : LineMemory) : Access.Turned → Prop
  | .fails | .opens => True
  | .skips _ p => i < p ∧ Goes w' p e
  | .operand _ p => (i < p ∨ p = i ∧ st.op ≠ .none) ∧ Goes w' p e

theorem wp_turn (st : Loop) (c : UInt8) (here : Text w.bytes i text) (some_ : 0 < text.length) :
    (Access.turn st c i).wp lineBounds (fun t w' => Frame i text.length w w' ∧ (t = .opens → w' = w) ∧
      Turns st i (i + text.length) w' t) w := by
  have next : i < i + 1 ∧ Goes w (i + 1) (i + text.length) := ⟨by omega, goes_from here some_⟩
  have whole := Frame.refl i text.length w
  unfold Access.turn
  refine Prog.wp_ite (fun _ => ⟨whole, nofun, next⟩) fun _ => ?_
  refine Prog.wp_ite (fun _ => ⟨whole, nofun, next⟩) fun _ => ?_
  refine Prog.wp_ite (fun _ => ⟨whole, nofun, next⟩) fun _ => ?_
  refine Prog.wp_ite (fun _ => ?_) fun _ => ?_
  · refine (Prog.wp_bind _ _ _ _).mpr (Prog.wp_mono ?_ (wp_alnums 15 (here.from some_)))
    rintro buf _ ⟨rfl, short⟩
    rw [List.length_drop] at short
    refine wp_asks trivial (fun _ _ kept => kept) fun reg => ?_
    cases reg with
    | none => exact ⟨whole, nofun, trivial⟩
    | some temp =>
        refine ⟨whole, nofun, .inl (by omega), ?_⟩
        rw [Nat.add_assoc]
        exact goes_from here (by omega)
  have quotes {mark : UInt8} {get : Nat → Parsing (Option Word)}
      (gets : ∀ {w : LineMemory} {j : Nat} {text : Bytes}, Text w.bytes j text →
        (get j).wp lineBounds (fun _ w' => Frame j text.length w w') w) :
      (Access.quoted mark (i + 1) get >>= fun r => return Access.found r).wp lineBounds (fun t w' =>
        Frame i text.length w w' ∧ (t = .opens → w' = w) ∧ Turns st i (i + text.length) w' t) w := by
    refine (Prog.wp_bind _ _ _ _).mpr (Prog.wp_mono ?_ (wp_quoted gets (here.from some_)))
    rintro r w' ⟨frame, goes⟩
    rw [List.length_drop] at frame goes
    refine ⟨frame.widen (by omega) (by omega), ?_⟩
    cases r with
    | none => exact ⟨nofun, trivial⟩
    | some found =>
        obtain ⟨less, rest, there, ends⟩ := goes _ _ rfl
        exact ⟨nofun, .inl (by omega), rest, there, by omega⟩
  refine Prog.wp_ite (fun _ => quotes wp_getModaddr) fun _ => ?_
  refine Prog.wp_ite (fun _ => quotes wp_getThreadaddr) fun _ => ?_
  refine Prog.wp_ite (fun _ => quotes wp_getSymbol) fun _ => ?_
  refine Prog.wp_ite (fun _ => ⟨whole, fun _ => rfl, trivial⟩) fun _ => ?_
  refine Prog.wp_ite (fun _ => ?_) fun _ => ?_
  · refine Prog.wp_ite (fun _ => ⟨whole, nofun, trivial⟩) fun number => ?_
    refine wp_strtoul here fun v m most => ⟨whole, nofun, ?_, goes_from here most⟩
    rcases Nat.eq_zero_or_pos m with rfl | more
    · exact .inr ⟨rfl, number⟩
    · exact .inl (by omega)
  refine Prog.wp_ite (fun _ => ⟨whole, nofun, trivial⟩) fun _ => ?_
  refine (Prog.wp_bind _ _ _ _).mpr (Prog.wp_mono ?_ (wp_operatorAt c here some_))
  rintro r _ ⟨rfl, goes⟩
  cases r with
  | none => exact ⟨whole, nofun, trivial⟩
  | some found => exact ⟨whole, nofun, goes _ _ rfl⟩

/-- The bracket that is found is a character of the string. -/
theorem wp_scan {fuel depth : Nat} (opened : 0 < depth) (here : Text w.bytes i text) (enough : text.length < fuel) :
    (Access.scan fuel depth i).wp lineBounds (fun r w' => w' = w ∧ ∃ left pos, r = some (left, pos) ∧
      (left = 0 → ∃ front c rest, text = front ++ c :: rest ∧ pos = i + front.length)) w := by
  induction fuel generalizing depth i text with
  | zero => cases enough
  | succ fuel ih =>
      refine wp_read (j := 0) here (Nat.zero_le _) ?_
      split
      · exact ⟨rfl, _, _, rfl, fun none => absurd opened (by omega)⟩
      next some_ =>
      cases text with
      | nil => exact absurd rfl some_
      | cons c rest =>
          have further {depth : Nat} (opened : 0 < depth) :
              (Access.scan fuel depth (i + 1)).wp lineBounds (fun r w' => w' = w ∧ ∃ left pos, r = some (left, pos) ∧
                (left = 0 → ∃ front d back, c :: rest = front ++ d :: back ∧ pos = i + front.length)) w := by
            refine Prog.wp_mono ?_ (ih opened (here.from (j := 1) (by simp)) (Nat.lt_of_succ_lt_succ enough))
            rintro r w' ⟨same, left, pos, found, closes⟩
            refine ⟨same, left, pos, found, fun none => ?_⟩
            obtain ⟨front, d, back, split, there⟩ := closes none
            refine ⟨c :: front, d, back, congrArg (c :: ·) split, ?_⟩
            rw [there, List.length_cons]
            omega
          split
          · exact further (Nat.succ_pos _)
          split
          · split
            · exact ⟨rfl, _, _, rfl, fun _ => ⟨[], c, rest, rfl, rfl⟩⟩
            · exact further (by omega)
          · exact further opened

/-- The turns that a string takes: the one at a number that does not get on with it is the last. -/
def turnsFor (st : Loop) (n : Nat) : Nat := 2 * n + if st.op = .none then 1 else 2

theorem turnsFor_le (st : Loop) (n : Nat) : turnsFor st n ≤ 2 * n + 2 := by
  unfold turnsFor
  split <;> omega

/-- The calls in progress are of strings that are no shorter. -/
def Shortest (w : LineMemory) (n : Nat) : Prop := ∃ len rest, w.calls = len :: rest ∧ n ≤ len

theorem wp_loop {fuel : Nat} (st : Loop) (here : Text w.bytes i text) (enough : turnsFor st text.length ≤ fuel)
    (shortest : Shortest w text.length) :
    (Access.loop fuel st i).wp lineBounds (fun ended w' => ended ≠ .unfinished ∧ Frame i text.length w w') w := by
  induction fuel generalizing st i text w with
  | zero =>
      unfold turnsFor at enough
      split at enough <;> omega
  | succ fuel ih =>
      refine wp_read (j := 0) here (Nat.zero_le _) ?_
      split
      · exact ⟨nofun, .refl _ _ _⟩
      next more =>
      have some_ : 0 < text.length := getD_inside rfl more
      -- the rest of the string, after a turn
      have goesOn {w₁ : LineMemory} {st' : Loop} {p : Nat} (frame : Frame i text.length w w₁) (le : i ≤ p)
          (goes : Goes w₁ p (i + text.length)) (turns : ∀ n, i + text.length = p + n → turnsFor st' n ≤ fuel) :
          (Access.loop fuel st' p).wp lineBounds (fun ended w' => ended ≠ .unfinished ∧ Frame i text.length w w') w₁ := by
        obtain ⟨rest, there, ends⟩ := goes
        have shortest₁ : Shortest w₁ rest.length := by
          obtain ⟨len, calls, same, le⟩ := shortest
          exact ⟨len, calls, frame.calls.trans same, by omega⟩
        refine Prog.wp_mono ?_ (ih st' there (turns _ ends.symm) shortest₁)
        rintro ended w' ⟨finished, frame'⟩
        exact ⟨finished, frame.trans (frame'.widen le (by omega))⟩
      have operates {w₁ : LineMemory} {temp : Word} {p : Nat} (frame : Frame i text.length w w₁)
          (turns : i < p ∨ p = i ∧ st.op ≠ .none) (goes : Goes w₁ p (i + text.length)) :
          (Prog.call (LineCall.derefAddr st.deref temp) >>= fun r => match r with
            | none => return .failed
            | some temp => Access.loop fuel (st.after temp) p : Parsing Ended).wp lineBounds
            (fun ended w' => ended ≠ .unfinished ∧ Frame i text.length w w') w₁ := by
        refine wp_asks trivial (fun _ _ kept => kept) fun r => ?_
        cases r with
        | none => exact ⟨nofun, frame⟩
        | some temp =>
            refine goesOn frame (by omega) goes fun n ends => ?_
            have after : turnsFor (st.after temp) n = 2 * n + 1 := rfl
            rw [after]
            rcases turns with less | ⟨rfl, expected⟩
            · have := turnsFor_le st text.length
              unfold turnsFor at enough
              split at enough <;> omega
            · rw [turnsFor, if_neg expected] at enough
              omega
      refine (Prog.wp_bind _ _ _ _).mpr (Prog.wp_mono ?_ (wp_turn st _ here some_))
      rintro t w₁ ⟨frame, unchanged, turns⟩
      cases t with
      | fails => exact ⟨nofun, frame⟩
      | skips st' p =>
          refine goesOn frame turns.1.le turns.2 fun n ends => ?_
          have := turnsFor_le st' n
          have := turns.1
          unfold turnsFor at enough
          split at enough <;> omega
      | operand temp p => exact operates frame turns.1 turns.2
      | opens =>
          obtain rfl := unchanged rfl
          have inside := here.from some_
          have length : (text.drop 1).length + 1 = text.length := by
            rw [List.length_drop]
            omega
          have room : (text.drop 1).length < fuel := by
            unfold turnsFor at enough
            split at enough <;> omega
          refine (Prog.wp_bind _ _ _ _).mpr (Prog.wp_mono ?_ (wp_scan Nat.one_pos inside room))
          rintro _ w₁ ⟨rfl, left, pos, rfl, closes⟩
          dsimp only
          split
          · exact ⟨nofun, frame⟩
          next closed =>
          obtain ⟨front, d, rest, split, rfl⟩ := closes (not_not.mp closed)
          rw [split] at inside length
          rw [List.length_append, List.length_cons] at length
          refine wp_cut inside fun w₂ frame₂ inner behind => ?_
          obtain ⟨len, calls, same, le⟩ := shortest
          have calls₂ := frame₂.calls.trans same
          refine wp_enter inner ?_ ?_
          · rw [calls₂]
            rintro n ⟨⟩
            omega
          have nested := ih .first (w := { w₂ with calls := front.length :: w₂.calls }) inner
            (by have := turnsFor_le .first front.length; unfold turnsFor at enough; split at enough <;> omega)
            ⟨front.length, w₂.calls, rfl, Nat.le_refl _⟩
          refine (Prog.wp_bind _ _ _ _).mpr (Prog.wp_mono ?_ nested)
          rintro ended w₄ ⟨finished, frame₄⟩
          refine wp_returns ?_
          have frame₅ : Frame (i + 1) front.length w₂ { w₄ with calls := w₄.calls.tail } :=
            ⟨frame₄.length, congrArg List.tail frame₄.calls, frame₄.same⟩
          have whole : Frame i text.length w₁ { w₄ with calls := w₄.calls.tail } := by
            refine .trans (frame₂.widen (by omega) ?_) (frame₅.widen (by omega) (by omega))
            rw [List.length_append, List.length_cons]
            omega
          cases ended with
          | failed => exact ⟨nofun, whole⟩
          | unfinished => exact absurd rfl finished
          | value temp =>
              refine operates whole (.inl (by omega)) ⟨rest, ?_, by omega⟩
              exact behind.congr fun j le _ => frame₅.same j (by omega)

end

theorem text_copied (line : CStr) : Text (line.text ++ [0]) 0 line.text := by
  refine ⟨line.nulFree, fun j _ => ?_⟩
  rw [Nat.zero_add]

/-- Every line comes to an end, with every access inside of it and every call with a shorter string. -/
theorem parse_line_ends (line : CStr) (fuel : Nat) (enough : 2 * line.text.length + 2 ≤ fuel) :
    (Access.parseLine fuel 0).wp lineBounds (fun ended w => ended ≠ .unfinished ∧
      w.bytes.length = line.text.length + 1 ∧ w.calls = []) ⟨line.text ++ [0], []⟩ := by
  have here := text_copied line
  refine wp_enter here nofun ?_
  have run := wp_loop (w := ⟨line.text ++ [0], [line.text.length]⟩) .first here
    ((turnsFor_le _ _).trans enough) ⟨_, _, rfl, Nat.le_refl _⟩
  refine (Prog.wp_bind _ _ _ _).mpr (Prog.wp_mono ?_ run)
  rintro ended w' ⟨finished, frame⟩
  refine wp_returns ?_
  exact ⟨finished, by rw [frame.length, List.length_append]; rfl, congrArg List.tail frame.calls⟩

/-- `(a)+a`: after the bracket, a digit of which `strtoul` may take nothing. -/
def bracketed : CStr := .ofBytes [40, 97, 41, 43, 97]

theorem bracketed_ends : (Access.parseLine 12 0).wp lineBounds (fun ended w => ended ≠ .unfinished ∧
    w.bytes.length = bracketed.text.length + 1 ∧ w.calls = []) ⟨bracketed.text ++ [0], []⟩ :=
  parse_line_ends bracketed 12 (by decide)

end Psplink.Address
