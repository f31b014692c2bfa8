import Psplink.Util.Reader
import Psplink.Util.Text

/-!
# Reading the configuration

`psplinkConfigReadNext` of psplink/psplinkcnf.c, over the buffered reader.
-/

namespace Psplink.Config
open Psplink.Lib Psplink.Util

def equals : UInt8 := 61
def doubleQuote : UInt8 := 34
def hash : UInt8 := 35

abbrev Entry := Bytes × Bytes

structure ConfigFile where
  file : PspFile
  line : Nat

/-- What follows the equals sign: a quoted value ends at the next quote. -/
def readValue (text : Bytes) : Option Bytes :=
  if text.head? = some doubleQuote then
    if doubleQuote ∈ text.tail then some (text.tail.takeWhile (· ≠ doubleQuote)) else none
  else some text

/-- The entry on a line, if there is one. -/
def readLine (line : Bytes) : Option Entry :=
  let text := stripWhitesp (line.takeWhile (· ≠ 0))
  if text.head? = some hash ∨ text = [] then none
  else if equals ∈ text then
    (readValue (text.dropWhile (· ≠ equals)).tail).map fun val => (text.takeWhile (· ≠ equals), val)
  else none

/-- Each turn of the loop takes a line. -/
def psplinkConfigReadNext : Nat → ConfigFile → Option Entry × ConfigFile
  | 0, cnf => (none, cnf)
  | fuel + 1, cnf =>
      let got := cnf.file.fdgets maxBuffer
      if got.1 = [] then (none, ⟨got.2, cnf.line⟩)
      else match readLine got.1 with
        | some entry => (some entry, ⟨got.2, cnf.line + 1⟩)
        | none => psplinkConfigReadNext fuel ⟨got.2, cnf.line + 1⟩

/-- The entries that the loop around `psplinkConfigReadNext` is given. -/
def readEntries (fuel : Nat) : Nat → ConfigFile → List Entry
  | 0, _ => []
  | n + 1, cnf =>
      match (psplinkConfigReadNext fuel cnf).1 with
      | some entry => entry :: readEntries fuel n (psplinkConfigReadNext fuel cnf).2
      | none => []

def entriesOf {content : Bytes} (reads : Reads content) : List Entry :=
  readEntries (content.length + 1) (content.length + 1) ⟨openfile reads.chunks, 0⟩

/-! ## Lines -/

def linesFrom : Nat → Bytes → List Bytes
  | 0, _ => []
  | n + 1, rest =>
      if (lineOf (maxBuffer - 1) rest).1 = [] then []
      else (lineOf (maxBuffer - 1) rest).1 :: linesFrom n (lineOf (maxBuffer - 1) rest).2

/-- The lines up to an empty one, which is the end. -/
def linesOf (rest : Bytes) : List Bytes := linesFrom (rest.length + 1) rest

theorem left_length_lt {rest : Bytes} (line : (lineOf (maxBuffer - 1) rest).1 ≠ []) :
    (lineOf (maxBuffer - 1) rest).2.length < rest.length := by
  cases rest with
  | nil => exact absurd rfl line
  | cons b rest => exact lineOf_length_lt _ b rest

theorem linesFrom_eq {n m : Nat} {rest : Bytes} (enough : rest.length < n) (enough' : rest.length < m) :
    linesFrom n rest = linesFrom m rest := by
  induction n generalizing m rest with
  | zero => exact absurd enough (Nat.not_lt_zero _)
  | succ n ih =>
      cases m with
      | zero => exact absurd enough' (Nat.not_lt_zero _)
      | succ m =>
          rw [linesFrom, linesFrom]
          split
          · rfl
          · rename_i line
            have shorter := left_length_lt line
            rw [ih (m := m) (by omega) (by omega)]

theorem linesOf_nil {rest : Bytes} (line : (lineOf (maxBuffer - 1) rest).1 = []) : linesOf rest = [] := by
  rw [linesOf, linesFrom, if_pos line]

theorem linesOf_cons {rest : Bytes} (line : (lineOf (maxBuffer - 1) rest).1 ≠ []) :
    linesOf rest = (lineOf (maxBuffer - 1) rest).1 :: linesOf (lineOf (maxBuffer - 1) rest).2 := by
  have shorter := left_length_lt line
  rw [linesOf, linesFrom, if_neg line, linesOf, linesFrom_eq shorter (Nat.lt_succ_self _)]

def lineEntries (rest : Bytes) : List Entry := (linesOf rest).filterMap readLine

/-- What is read next from a file that serves this. -/
def ReadsNext (rest : Bytes) (next : Option Entry × ConfigFile) : Prop :=
  match next.1 with
  | none => lineEntries rest = []
  | some entry => ∃ left, Serves next.2.file left ∧ left.length < rest.length ∧
      lineEntries rest = entry :: lineEntries left

theorem readNext_serves {cnf : ConfigFile} {rest : Bytes} {fuel : Nat} (serves : Serves cnf.file rest)
    (enough : rest.length < fuel) : ReadsNext rest (psplinkConfigReadNext fuel cnf) := by
  induction fuel generalizing cnf rest with
  | zero => exact absurd enough (Nat.not_lt_zero _)
  | succ fuel ih =>
      obtain ⟨line, left⟩ := serves.fdgetsLoop (maxBuffer - 1)
      have got : (cnf.file.fdgets maxBuffer).1 = (lineOf (maxBuffer - 1) rest).1 := line
      rw [psplinkConfigReadNext, got]
      by_cases none : (lineOf (maxBuffer - 1) rest).1 = []
      · rw [if_pos none]
        change lineEntries rest = []
        rw [lineEntries, linesOf_nil none, List.filterMap_nil]
      · rw [if_neg none]
        have shorter := left_length_lt none
        cases entry : readLine (lineOf (maxBuffer - 1) rest).1 with
        | some entry' =>
            refine ⟨_, left, shorter, ?_⟩
            rw [lineEntries, linesOf_cons none, List.filterMap_cons_some entry, lineEntries]
        | none =>
            have skipped : lineEntries rest = lineEntries (lineOf (maxBuffer - 1) rest).2 := by
              rw [lineEntries, linesOf_cons none, List.filterMap_cons_none entry, lineEntries]
            have next : ReadsNext _ (psplinkConfigReadNext fuel ⟨(cnf.file.fdgets maxBuffer).2, cnf.line + 1⟩) :=
              ih left (by omega)
            rw [ReadsNext] at next ⊢
            split at next <;> rename_i same
            · rw [same]
              exact skipped.trans next
            · rw [same]
              obtain ⟨after, serves', fewer, entries⟩ := next
              exact ⟨after, serves', by omega, skipped.trans entries⟩

theorem readEntries_serves {cnf : ConfigFile} {rest : Bytes} {fuel n : Nat} (serves : Serves cnf.file rest)
    (enough : rest.length < fuel) (turns : rest.length < n) : readEntries fuel n cnf = lineEntries rest := by
  induction n generalizing cnf rest with
  | zero => exact absurd turns (Nat.not_lt_zero _)
  | succ n ih =>
      have next := readNext_serves serves enough
      rw [readEntries]
      rw [ReadsNext] at next
      split at next <;> rename_i same
      · rw [same, next]
      · obtain ⟨left, after, fewer, entries⟩ := next
        rw [same, entries]
        exact congrArg _ (ih after (by omega) (by omega))

theorem entriesOf_eq {content : Bytes} (reads : Reads content) :
    entriesOf reads = lineEntries (reads.chunks.headD []) := by
  have shorter := reads.head_prefix.length_le
  exact readEntries_serves reads.serves (by omega) (by omega)

end Psplink.Config
