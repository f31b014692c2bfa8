import Psplink.Shell.ArgAccess

/-!
# Quoted command lines

What `parse_args` makes of arguments that are written between double quotes.
-/

namespace Psplink.Shell
open Psplink.Lib Psplink.Util

abbrev backslash : UInt8 := 92
abbrev quotation : UInt8 := 34

/-! ## Lines -/

def escaped (text : Bytes) : Bytes :=
  text.flatMap fun c => if c = quotation ∨ c = backslash then [backslash, c] else [c]

def quoted (arg : CStr) : Bytes := quotation :: escaped arg.text ++ [quotation]

abbrev Blank (space : Bytes) : Prop := ∀ c ∈ space, isAspace c = true

/-- The arguments one after another with white space between them and maybe after them. -/
inductive Written : List CStr → Bytes → Prop
  | last (arg : CStr) {space : Bytes} (blank : Blank space) : Written [arg] (quoted arg ++ space)
  | next (arg : CStr) {space : Bytes} (blank : Blank space) (apart : space ≠ []) {args : List CStr} {rest : Bytes}
      (more : Written args rest) : Written (arg :: args) (quoted arg ++ space ++ rest)

theorem escaped_cons (c : UInt8) (text : Bytes) :
    escaped (c :: text) = (if c = quotation ∨ c = backslash then [backslash, c] else [c]) ++ escaped text :=
  List.flatMap_cons

theorem Written.starts {args : List CStr} {input : Bytes} (written : Written args input) :
    ∃ rest, input = quotation :: rest := by
  cases written with
  | last arg => exact ⟨_, rfl⟩
  | next arg => exact ⟨_, rfl⟩

theorem Written.some {args : List CStr} {input : Bytes} (written : Written args input) : 0 < args.length := by
  cases written <;> exact Nat.succ_pos _

/-! ## The parser on them -/

namespace ParseState

variable {maxArgs : Nat} {s : ParseState} {rest : Bytes}

theorem turn_escaped (inside : s.inQuote = quotation) {c : UInt8} {text : Bytes}
    (input : s.input = escaped (c :: text) ++ quotation :: rest) :
    s.turn = some (s.emit c (escaped text ++ quotation :: rest)) := by
  rw [escaped_cons] at input
  by_cases special : c = quotation ∨ c = backslash
  · rw [if_pos special] at input
    have first : s.input = backslash :: c :: (escaped text ++ quotation :: rest) := input
    rw [turn_cons first, if_pos rfl]
    rcases special with rfl | rfl <;> rfl
  · rw [if_neg special] at input
    rw [not_or] at special
    have first : s.input = c :: (escaped text ++ quotation :: rest) := input
    have kept : s.quote c (escaped text ++ quotation :: rest) = s.emit c (escaped text ++ quotation :: rest) := by
      rw [quote, inside, if_neg (by decide), if_neg special.1]
    rw [turn_cons first, if_neg special.2, if_neg fun blank => absurd (inside.symm.trans blank.2) (by decide), kept, ite_self]

/-- The text between the quotes goes to the buffer. -/
theorem runAll_escaped (room : s.argv.length < maxArgs) (inside : s.inQuote = quotation) (text : Bytes)
    (input : s.input = escaped text ++ quotation :: rest) :
    s.runAll maxArgs = { s with input := quotation :: rest, out := s.out ++ text }.runAll maxArgs := by
  induction text generalizing s with
  | nil =>
      have same : { s with input := quotation :: rest, out := s.out ++ [] } = s := by
        rw [List.append_nil, ← show s.input = quotation :: rest from input]
      rw [same]
  | cons c text ih =>
      have more : s.input ≠ [] := by
        rw [input]
        simp
      rw [runAll_turn more room, turn_escaped inside input, Option.bind_some]
      have further := @ih (s.emit c (escaped text ++ quotation :: rest)) room inside rfl
      rw [further, emit]
      simp

theorem runAll_quoted (room : s.argv.length < maxArgs) (outside : s.inQuote = 0) {arg : CStr}
    (input : s.input = quoted arg ++ rest) :
    s.runAll maxArgs = { s with input := rest, out := s.out ++ arg.text }.runAll maxArgs := by
  have first : s.input = quotation :: (escaped arg.text ++ quotation :: rest) := by
    rw [input, quoted]
    simp
  have opened : s.turn = some { s with input := escaped arg.text ++ quotation :: rest, inQuote := quotation } := by
    rw [turn_cons first, if_neg (by decide), if_neg fun blank => absurd blank.1 (by decide), if_pos (.inl rfl), quote,
      if_pos outside]
  have inside := @runAll_escaped maxArgs ⟨escaped arg.text ++ quotation :: rest, s.out, s.argv, quotation⟩ rest room rfl
    arg.text rfl
  have closed : turn ⟨quotation :: rest, s.out ++ arg.text, s.argv, quotation⟩ =
      some ⟨rest, s.out ++ arg.text, s.argv, 0⟩ := rfl
  have closing := @runAll_turn maxArgs ⟨quotation :: rest, s.out ++ arg.text, s.argv, quotation⟩ (List.cons_ne_nil _ _) room
  rw [closed, Option.bind_some] at closing
  rw [runAll_turn (by rw [first]; exact List.cons_ne_nil _ _) room, opened, Option.bind_some, inside, outside]
  exact closing

theorem dropWhile_blank {space : Bytes} (blank : Blank space) (ends : isAspace (rest.headD 0) = false) :
    (space ++ rest).dropWhile isAspace = rest := by
  rw [List.dropWhile_append_of_pos blank]
  cases rest with
  | nil => rfl
  | cons c rest => exact List.dropWhile_cons_of_neg (by simpa using ends)

theorem runAll_blank (room : s.argv.length < maxArgs) (outside : s.inQuote = 0) {space : Bytes} (blank : Blank space)
    (apart : space ≠ []) (ends : isAspace (rest.headD 0) = false) (input : s.input = space ++ rest) :
    s.runAll maxArgs = { s with
      input := rest
      out := s.out ++ [0]
      argv := if rest = [] then s.argv else s.argv ++ [(s.out ++ [0]).length] }.runAll maxArgs := by
  obtain ⟨c, space, rfl⟩ := List.exists_cons_of_ne_nil apart
  have first : s.input = c :: (space ++ rest) := input
  have white : isAspace c = true := blank c List.mem_cons_self
  have plain : c ≠ 92 := by
    rintro rfl
    exact absurd white (by decide)
  have skipped : s.space = ⟨rest, s.out ++ [0], if rest = [] then s.argv else s.argv ++ [(s.out ++ [0]).length], s.inQuote⟩ := by
    rw [ParseState.space, input, dropWhile_blank blank ends]
  rw [runAll_turn (by rw [first]; exact List.cons_ne_nil _ _) room, turn_cons first, if_neg plain, if_pos ⟨white, outside⟩,
    Option.bind_some, skipped]

theorem ofBytes_drop (out : Bytes) (arg : CStr) (rest : Bytes) :
    CStr.ofBytes ((out ++ arg.text ++ 0 :: rest).drop out.length) = arg := by
  rw [List.append_assoc, List.drop_left]
  have here := CStr.ofBytes_bytes_append arg rest
  rwa [CStr.bytes, List.append_assoc, List.singleton_append] at here

/-- The rest of the line, from the beginning of an argument that has been opened. -/
theorem runAll_written {args : List CStr} {input : Bytes} (written : Written args input) {before : List Nat}
    (begins : s.input = input) (outside : s.inQuote = 0) (opened : s.argv = before ++ [s.out.length])
    (few : before.length + args.length < maxArgs) :
    ∃ out starts, s.runAll maxArgs = some ⟨[], s.out ++ out, before ++ starts, 0⟩ ∧
      starts.map (fun p => CStr.ofBytes ((s.out ++ out ++ [0]).drop p)) = args := by
  have room : s.argv.length < maxArgs := by
    have some := written.some
    rw [opened, List.length_append, List.length_singleton]
    omega
  induction written generalizing s before with
  | @last arg space blank =>
      have read := runAll_quoted room outside begins
      by_cases apart : space = []
      · refine ⟨arg.text, [s.out.length], ?_, ?_⟩
        · rw [read, apart, runAll_stop (.inl rfl), outside, opened]
        · rw [List.map_singleton, ofBytes_drop]
      · have skipped := @runAll_blank maxArgs ⟨space, s.out ++ arg.text, s.argv, s.inQuote⟩ [] room outside space blank apart rfl
          (List.append_nil space).symm
        refine ⟨arg.text ++ [0], [s.out.length], ?_, ?_⟩
        · rw [read, skipped, if_pos rfl, runAll_stop (.inl rfl), outside, opened, List.append_assoc]
        · rw [List.map_singleton, ← List.append_assoc, List.append_assoc (s.out ++ arg.text), List.singleton_append, ofBytes_drop]
  | @next arg space blank apart args rest more ih =>
      have read := runAll_quoted room outside (begins.trans (List.append_assoc ..))
      obtain ⟨tail, front⟩ := more.starts
      have ends : isAspace (rest.headD 0) = false := by
        rw [front]
        rfl
      have some : rest ≠ [] := by
        rw [front]
        exact List.cons_ne_nil _ _
      have skipped := @runAll_blank maxArgs ⟨space ++ rest, s.out ++ arg.text, s.argv, s.inQuote⟩ rest room outside space blank
        apart ends rfl
      rw [if_neg some] at skipped
      rw [List.length_cons] at few
      have further := @ih ⟨rest, s.out ++ arg.text ++ [0], s.argv ++ [(s.out ++ arg.text ++ [0]).length], s.inQuote⟩ s.argv rfl
        outside rfl (by rw [opened, List.length_append, List.length_singleton]; omega) (by
          have one := more.some
          rw [List.length_append, List.length_singleton, opened, List.length_append, List.length_singleton]
          omega)
      obtain ⟨out, starts, ran, texts⟩ := further
      refine ⟨arg.text ++ 0 :: out, s.out.length :: starts, ?_, ?_⟩
      · rw [read, skipped, ran, opened]
        simp
      · have first : s.out ++ (arg.text ++ 0 :: out) ++ [0] = s.out ++ arg.text ++ 0 :: (out ++ [0]) := by simp
        have same : s.out ++ (arg.text ++ 0 :: out) ++ [0] = s.out ++ arg.text ++ [0] ++ out ++ [0] := by simp
        rw [List.map_cons, ← texts, ← same, first, ofBytes_drop]

end ParseState

theorem dropEmpty_of_nonempty {args : List CStr} (nonempty : ∀ a ∈ args, a.text ≠ []) : dropEmpty args = args := by
  rw [dropEmpty, if_neg]
  intro last
  exact nonempty _ (List.mem_of_getLast? last) rfl

/-- A line of quoted arguments is parsed into these arguments. -/
theorem parseArgs_written {maxArgs : Nat} {args : List CStr} (few : args.length < maxArgs) (nonempty : ∀ a ∈ args, a.text ≠ [])
    {line : CStr} {lead input : Bytes} (blank : Blank lead) (split : line.text = lead ++ input)
    (written : Written args input) : parseArgs maxArgs line = some args := by
  obtain ⟨rest, front⟩ := written.starts
  have skipped : line.text.dropWhile isAspace = input := by
    rw [split]
    refine ParseState.dropWhile_blank blank ?_
    rw [front]
    rfl
  have some : input ≠ [] := by
    rw [front]
    exact List.cons_ne_nil _ _
  obtain ⟨out, starts, ran, texts⟩ := @ParseState.runAll_written maxArgs ⟨input, [], [0], 0⟩ args input written [] rfl rfl rfl
    (by rw [List.length_nil]; omega)
  have result : ParseState.run maxArgs input.length ⟨input, [], [0], 0⟩ = Option.some ⟨[], out, starts, 0⟩ := ran
  have list : ParseState.args ⟨[], out, starts, 0⟩ = args := texts
  rw [parseArgs, skipped, if_neg (Nat.ne_of_gt (Nat.zero_lt_of_lt few)), if_neg some, result, Option.bind_some, if_pos rfl,
    list, dropEmpty_of_nonempty nonempty]

/-- The call returns these arguments, each a string in the buffer, and a `NULL` after them. -/
theorem parse_args_quoted (maxArgs : Nat) (args : List CStr) (few : args.length < maxArgs)
    (nonempty : ∀ a ∈ args, a.text ≠ []) (line : CStr) (lead input : Bytes) (blank : Blank lead)
    (split : line.text = lead ++ input) (written : Written args input) (fuel : Nat) (enough : line.text.length < fuel) :
    ((Access.parseArgs fuel maxArgs).interp (memory line.text) unwritten).1 = .returned args.length ∧
      Listed ((Access.parseArgs fuel maxArgs).interp (memory line.text) unwritten).2 args := by
  have parsed := Prog.interp_of_wp (h := memory line.text) (fun _ _ => rfl) (wp_parseArgs line maxArgs enough)
  obtain ⟨rest, front⟩ := written.starts
  have some : line.text.dropWhile isAspace ≠ [] := by
    rw [split, ParseState.dropWhile_blank blank (by rw [front]; rfl), front]
    exact List.cons_ne_nil _ _
  rw [if_neg some, parseArgs_written few nonempty blank split written] at parsed
  exact ⟨parsed.1, parsed.2.1⟩

/-- `a"b` and `\ ` -/
def specialArgs : List CStr := [.ofBytes [97, 34, 98], .ofBytes [92, 32]]

def specialLine : Bytes := quoted (.ofBytes [97, 34, 98]) ++ [9, 32] ++ (quoted (.ofBytes [92, 32]) ++ [10])

theorem written_special : Written specialArgs specialLine :=
  .next _ (List.forall_mem_cons.2 ⟨rfl, List.forall_mem_singleton.2 rfl⟩) (List.cons_ne_nil _ _)
    (.last _ (List.forall_mem_singleton.2 rfl))

theorem parse_args_quoted_special :
    ((Access.parseArgs 17 3).interp (memory (CStr.ofBytes (32 :: specialLine)).text) unwritten).1 = .returned 2 ∧
      Listed ((Access.parseArgs 17 3).interp (memory (CStr.ofBytes (32 :: specialLine)).text) unwritten).2 specialArgs :=
  parse_args_quoted 3 specialArgs (by decide) (by decide) (CStr.ofBytes (32 :: specialLine)) [32] specialLine
    (List.forall_mem_singleton.2 rfl) (by decide) written_special 17 (by decide)

end Psplink.Shell
