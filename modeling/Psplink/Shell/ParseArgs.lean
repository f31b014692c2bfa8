import Psplink.Util.Text

/-!
# Command lines

`parse_args` of psplink/parse_args.c: the arguments are offsets into the buffer they are written to.
-/

namespace Psplink.Shell
open Psplink.Lib Psplink.Util

/-- Up to so many digits of so many bits each: the character and how many digits there are. -/
def digits (toInt : UInt8 → Option UInt8) (bits : UInt8) : Nat → Bytes → UInt8 × Nat → UInt8 × Nat
  | 0, _, read => read
  | _ + 1, [], read => read
  | limit + 1, c :: str, (ch, i) =>
      match toInt c with
      | none => (ch, i)
      | some digit => digits toInt bits limit str (ch <<< bits ||| digit, i + 1)

/-- No digits and a NUL are errors. -/
def decoded (read : UInt8 × Nat) : Option (UInt8 × Nat) :=
  if read.2 = 0 then none else if read.1 = 0 then none else some read

theorem digits_le (toInt : UInt8 → Option UInt8) (bits : UInt8) (limit : Nat) (str : Bytes) (read : UInt8 × Nat) :
    (digits toInt bits limit str read).2 ≤ read.2 + str.length := by
  induction limit generalizing str read with
  | zero => exact Nat.le_add_right _ _
  | succ limit ih =>
      cases str with
      | nil => exact Nat.le_add_right _ _
      | cons c str =>
          rw [digits]
          cases toInt c with
          | none => exact Nat.le_add_right _ _
          | some digit =>
              refine (ih str _).trans ?_
              rw [List.length_cons]
              omega

theorem decoded_eq_some {read read' : UInt8 × Nat} (done : decoded read = some read') : read = read' := by
  unfold decoded at done
  split at done
  · cases done
  split at done
  · cases done
  · exact Option.some.inj done

def decodeHex (str : Bytes) : Option (UInt8 × Nat) := decoded (digits hexToInt 4 2 str (0, 0))

def decodeOct (str : Bytes) : Option (UInt8 × Nat) := decoded (digits octToInt 3 4 str (0, 0))

structure ParseState where
  input : Bytes
  out : Bytes
  argv : List Nat
  inQuote : UInt8
deriving DecidableEq

namespace ParseState

def emit (s : ParseState) (ch : UInt8) (input : Bytes) : ParseState :=
  { s with input := input, out := s.out ++ [ch] }

/-- What follows a backslash. -/
def escape (s : ParseState) : Bytes → Option ParseState
  | [] => some { s with input := [] }
  | c :: input =>
      if c = 110 then some (s.emit 10 input)
      else if c = 114 then some (s.emit 13 input)
      else if c = 48 then (decodeOct input).map fun read => s.emit read.1 (input.drop read.2)
      else if c = 120 then (decodeHex input).map fun read => s.emit read.1 (input.drop read.2)
      else some (s.emit c input)

/-- The space ends the argument, and another begins unless the line ends. -/
def space (s : ParseState) : ParseState :=
  let input := s.input.dropWhile isAspace
  let out := s.out ++ [0]
  { s with input := input, out := out, argv := if input = [] then s.argv else s.argv ++ [out.length] }

def quote (s : ParseState) (c : UInt8) (input : Bytes) : ParseState :=
  if s.inQuote = 0 then { s with input := input, inQuote := c }
  else if c = s.inQuote then { s with input := input, inQuote := 0 }
  else s.emit c input

def turn (s : ParseState) : Option ParseState :=
  match s.input with
  | [] => some s
  | c :: input =>
      if c = 92 then s.escape input
      else if isAspace c ∧ s.inQuote = 0 then some s.space
      else if c = 34 ∨ c = 39 then some (s.quote c input)
      else some (s.emit c input)

/-- Each turn takes a character at least. -/
def run (maxArgs : Nat) : Nat → ParseState → Option ParseState
  | 0, s => some s
  | fuel + 1, s => if s.input = [] ∨ maxArgs ≤ s.argv.length then some s else s.turn.bind (run maxArgs fuel)

/-! ### Turns -/

theorem turn_cons {s : ParseState} {c : UInt8} {input : Bytes} (front : s.input = c :: input) : s.turn =
    if c = 92 then s.escape input
    else if isAspace c ∧ s.inQuote = 0 then some s.space
    else if c = 34 ∨ c = 39 then some (s.quote c input)
    else some (s.emit c input) := by rw [turn, front]

theorem escape_shorter {s s' : ParseState} {input : Bytes} (escaped : s.escape input = some s') :
    s'.input.length ≤ input.length := by
  cases input with
  | nil =>
      cases escaped
      exact Nat.le_refl _
  | cons c input =>
      rw [escape] at escaped
      have rest : ∀ s' : ParseState, s'.input.length ≤ input.length → s'.input.length ≤ (c :: input).length :=
        fun s' shorter => shorter.trans (Nat.le_succ _)
      split at escaped
      · cases escaped
        exact rest _ (Nat.le_refl _)
      split at escaped
      · cases escaped
        exact rest _ (Nat.le_refl _)
      split at escaped
      · obtain ⟨read, -, rfl⟩ := Option.map_eq_some_iff.mp escaped
        exact rest _ (List.drop_sublist _ _).length_le
      split at escaped
      · obtain ⟨read, -, rfl⟩ := Option.map_eq_some_iff.mp escaped
        exact rest _ (List.drop_sublist _ _).length_le
      · cases escaped
        exact rest _ (Nat.le_refl _)

theorem turn_shorter {s s' : ParseState} (more : s.input ≠ []) (turned : s.turn = some s') :
    s'.input.length < s.input.length := by
  unfold turn at turned
  split at turned
  · exact absurd ‹_› more
  · rename_i c input front
    rw [front, List.length_cons]
    apply Nat.lt_succ_of_le
    split at turned
    · exact escape_shorter turned
    split at turned
    · rename_i blank
      cases turned
      have first : s.input.dropWhile isAspace = input.dropWhile isAspace := by
        rw [front, List.dropWhile_cons_of_pos blank.1]
      exact (congrArg List.length first).trans_le (List.length_dropWhile_le ..)
    split at turned
    · cases turned
      unfold quote
      split
      · exact Nat.le_refl _
      split
      · exact Nat.le_refl _
      · exact Nat.le_refl _
    · cases turned
      exact Nat.le_refl _

/-- What a piece of the line leaves: no more than a byte for each character. -/
structure Grows (s : ParseState) (input : Bytes) (s' : ParseState) : Prop where
  longer : s.out.length ≤ s'.out.length
  room : s'.out.length + s'.input.length ≤ s.out.length + input.length
  argv : s'.argv = s.argv ∨ s'.argv = s.argv ++ [s'.out.length]

theorem grows_emit (s : ParseState) (ch c : UInt8) {input rest : Bytes} (shorter : rest.length ≤ input.length) :
    s.Grows (c :: input) (s.emit ch rest) := by
  have length : (s.emit ch rest).out.length = s.out.length + 1 := List.length_append
  refine ⟨by omega, ?_, .inl rfl⟩
  rw [length, List.length_cons]
  show s.out.length + 1 + rest.length ≤ _
  omega

theorem grows_escape {s s' : ParseState} {input : Bytes} (escaped : s.escape input = some s') : s.Grows input s' := by
  cases input with
  | nil =>
      cases escaped
      exact ⟨Nat.le_refl _, Nat.le_refl _, .inl rfl⟩
  | cons c input =>
      rw [escape] at escaped
      split at escaped
      · cases escaped
        exact s.grows_emit _ _ (Nat.le_refl _)
      split at escaped
      · cases escaped
        exact s.grows_emit _ _ (Nat.le_refl _)
      split at escaped
      · obtain ⟨read, -, rfl⟩ := Option.map_eq_some_iff.mp escaped
        exact s.grows_emit _ _ (List.drop_sublist _ _).length_le
      split at escaped
      · obtain ⟨read, -, rfl⟩ := Option.map_eq_some_iff.mp escaped
        exact s.grows_emit _ _ (List.drop_sublist _ _).length_le
      · cases escaped
        exact s.grows_emit _ _ (Nat.le_refl _)

theorem grows_space (s : ParseState) {c : UInt8} {input : Bytes} (front : s.input = c :: input) (blank : isAspace c = true) :
    s.Grows s.input s.space := by
  have rest : s.space.input = input.dropWhile isAspace := by
    rw [space, front, List.dropWhile_cons_of_pos blank]
  have shorter := List.length_dropWhile_le isAspace input
  have length : s.space.out.length = s.out.length + 1 := List.length_append
  refine ⟨by omega, ?_, ?_⟩
  · rw [rest, length, front, List.length_cons]
    omega
  · unfold space
    dsimp only
    split
    · exact .inl rfl
    · exact .inr rfl

theorem grows_quote (s : ParseState) (c : UInt8) (input : Bytes) : s.Grows (c :: input) (s.quote c input) := by
  unfold quote
  split
  · exact ⟨Nat.le_refl _, Nat.add_le_add_left (Nat.le_succ _) _, .inl rfl⟩
  split
  · exact ⟨Nat.le_refl _, Nat.add_le_add_left (Nat.le_succ _) _, .inl rfl⟩
  · exact s.grows_emit _ _ (Nat.le_refl _)

theorem grows_turn {s s' : ParseState} (turned : s.turn = some s') : s.Grows s.input s' := by
  unfold turn at turned
  split at turned
  · cases turned
    exact ⟨Nat.le_refl _, Nat.le_refl _, .inl rfl⟩
  · rename_i c input front
    split at turned
    · have grows := grows_escape turned
      rw [front]
      exact ⟨grows.longer, grows.room.trans (Nat.add_le_add_left (Nat.le_succ _) _), grows.argv⟩
    split at turned
    · rename_i blank
      cases turned
      exact s.grows_space front blank.1
    rw [front]
    split at turned
    · cases turned
      exact s.grows_quote c input
    · cases turned
      exact s.grows_emit _ _ (Nat.le_refl _)

theorem run_of_enough (maxArgs : Nat) {s : ParseState} {n m : Nat} (enough : s.input.length ≤ n)
    (enough' : s.input.length ≤ m) : run maxArgs n s = run maxArgs m s := by
  induction n generalizing s m with
  | zero =>
      have ends : s.input = [] := List.length_eq_zero_iff.mp (Nat.le_zero.mp enough)
      cases m with
      | zero => rfl
      | succ m => rw [run, run, if_pos (.inl ends)]
  | succ n ih =>
      cases m with
      | zero =>
          have ends : s.input = [] := List.length_eq_zero_iff.mp (Nat.le_zero.mp enough')
          rw [run, run, if_pos (.inl ends)]
      | succ m =>
          rw [run, run]
          by_cases stops : s.input = [] ∨ maxArgs ≤ s.argv.length
          · rw [if_pos stops, if_pos stops]
          · rw [if_neg stops, if_neg stops]
            cases turned : s.turn with
            | none => rfl
            | some s' =>
                have shorter := turn_shorter (fun ends => stops (.inl ends)) turned
                exact ih (by omega) (by omega)

/-- The loop to its end. -/
def runAll (maxArgs : Nat) (s : ParseState) : Option ParseState := run maxArgs s.input.length s

theorem runAll_stop {maxArgs : Nat} {s : ParseState} (stops : s.input = [] ∨ maxArgs ≤ s.argv.length) :
    s.runAll maxArgs = some s := by
  rw [runAll]
  cases s.input.length with
  | zero => rfl
  | succ n => rw [run, if_pos stops]

theorem runAll_turn {maxArgs : Nat} {s : ParseState} (more : s.input ≠ []) (room : s.argv.length < maxArgs) :
    s.runAll maxArgs = s.turn.bind (runAll maxArgs) := by
  have goes : ¬ (s.input = [] ∨ maxArgs ≤ s.argv.length) := not_or.mpr ⟨more, Nat.not_le.mpr room⟩
  obtain ⟨n, size⟩ : ∃ n, s.input.length = n + 1 := Nat.exists_eq_succ_of_ne_zero (List.length_eq_zero_iff.not.mpr more)
  rw [runAll, size, run, if_neg goes]
  cases turned : s.turn with
  | none => rfl
  | some s' =>
      have shorter := turn_shorter more turned
      exact run_of_enough maxArgs (by omega) (Nat.le_refl _)

/-! ### Arguments -/

def args (s : ParseState) : List CStr := s.argv.map fun start => CStr.ofBytes ((s.out ++ [0]).drop start)

end ParseState

def dropEmpty (args : List CStr) : List CStr :=
  if args.getLast? = some CStr.empty then args.dropLast else args

/-- The arguments, unless the line is in error. -/
def parseArgs (maxArgs : Nat) (line : CStr) : Option (List CStr) :=
  let input := line.text.dropWhile isAspace
  if maxArgs = 0 then none
  else if input = [] then some []
  else
    (ParseState.run maxArgs input.length ⟨input, [], [0], 0⟩).bind fun s =>
      if s.inQuote = 0 then some (dropEmpty s.args) else none

end Psplink.Shell
