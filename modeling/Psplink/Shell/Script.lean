import Psplink.Lib.CStr
import Psplink.Util.Reader

/-!
# Arguments of a script

`process_arguments` of psplink/script.c puts the arguments of the script into a line. The line stands in
a buffer with what earlier lines have left after its NUL.
-/

namespace Psplink.Shell
open Psplink.Lib Psplink.Lib.CStr Psplink.Util

def isNum (ch : UInt8) : Bool := 48 ≤ ch ∧ ch ≤ 57

def decimal (digits : Bytes) : Nat := digits.foldl (fun n c => n * 10 + (c.toNat - 48)) 0

/-- A value too large is cut down to the largest. -/
def atoi (num : Bytes) : Nat := min (decimal num) (2 ^ 31 - 1)

/-- `argc` is an `int`. -/
structure ScriptArgs where
  argv : Option (List CStr)
  counted : (argv.getD []).length < 2 ^ 31
  lastmod : Option CStr

namespace ScriptArgs

def argc (args : ScriptArgs) : Nat := (args.argv.getD []).length

theorem argc_lt (args : ScriptArgs) : args.argc < 2 ^ 31 := args.counted

def argument (args : ScriptArgs) (val : Nat) : Bytes :=
  match args.argv with
  | none => []
  | some argv => if val < args.argc then (argv.getD val empty).text else []

def module (args : ScriptArgs) : Bytes := args.lastmod.elim [] text

/-- No arguments, and no module has been loaded. -/
def absent : ScriptArgs := ⟨none, Nat.two_pow_pos 31, none⟩

theorem argument_atoi (args : ScriptArgs) (num : Bytes) : args.argument (atoi num) = args.argument (decimal num) := by
  have few := args.argc_lt
  unfold argument atoi
  cases args.argv with
  | none => rfl
  | some argv =>
      dsimp only
      by_cases large : 2 ^ 31 - 1 ≤ decimal num
      · rw [Nat.min_eq_right large, if_neg (by omega), if_neg (by omega)]
      · rw [Nat.min_eq_left (by omega)]

theorem argument_nulFree (args : ScriptArgs) (val : Nat) : 0 ∉ args.argument val := by
  unfold argument
  split
  · exact List.not_mem_nil
  split
  · exact CStr.nulFree _
  · exact List.not_mem_nil

theorem module_nulFree (args : ScriptArgs) : 0 ∉ args.module := by
  unfold module
  cases args.lastmod with
  | none => exact List.not_mem_nil
  | some name => exact name.nulFree

end ScriptArgs

/-- `numsize` stays below the size of `num`. -/
abbrev maxDigits : Nat := 15

structure Scan where
  inptr : Nat
  tmpbuf : Bytes
  /-- The positions in the line that have been read. -/
  reads : List Nat

namespace Scan

variable (args : ScriptArgs) (line : Bytes)

def peek (line : Bytes) (i : Nat) : UInt8 := line.getD i 0

/-- `while((*str) && (outptr < (MAX_BUFFER-1)))` -/
def copy (tmpbuf str : Bytes) : Bytes := tmpbuf ++ str.take (maxBuffer - 1 - tmpbuf.length)

/-- The digits from there on, with room for so many. -/
def number (line : Bytes) : Nat → Nat → Bytes
  | 0, _ => []
  | room + 1, i => if isNum (peek line i) then peek line i :: number line room (i + 1) else []

/-- One turn of the loop. -/
def turn (s : Scan) : Scan :=
  if peek line s.inptr = 36 then
    let i := s.inptr + 1
    if isNum (peek line i) then
      let num := number line maxDigits i
      ⟨i + num.length, copy s.tmpbuf (args.argument (atoi num)),
        s.reads ++ s.inptr :: List.range' i (num.length + 1)⟩
    else if peek line i = 33 then ⟨i + 1, copy s.tmpbuf args.module, s.reads ++ [s.inptr, i]⟩
    else ⟨i + 1, s.tmpbuf ++ [peek line i], s.reads ++ [s.inptr, i]⟩
  else ⟨s.inptr + 1, s.tmpbuf ++ [peek line s.inptr], s.reads ++ [s.inptr]⟩

def running (s : Scan) : Prop := peek line s.inptr ≠ 0 ∧ s.tmpbuf.length < maxBuffer - 1

instance (s : Scan) : Decidable (s.running line) := inferInstanceAs (Decidable (_ ∧ _))

/-- The condition of the loop reads the line as well. -/
def test (s : Scan) : Scan := { s with reads := s.reads ++ [s.inptr] }

def run : Nat → Scan → Scan
  | 0, s => s
  | fuel + 1, s => if s.running line then run fuel (turn args line s.test) else s.test

end Scan

/-- The line and the positions in it that have been read. Each turn takes a byte at least. -/
def processArguments (args : ScriptArgs) (line : Bytes) : Bytes × List Nat :=
  let s := Scan.run args line (line.length + 1) ⟨0, [], []⟩
  ((ofBytes s.tmpbuf).bytes ++ line.drop (ofBytes s.tmpbuf).bytes.length, s.reads)

/-! ## The expansion -/

/-- What a line is made of. -/
inductive Piece
  | char (c : UInt8)
  | dollar (c : UInt8)
  | number (digits : Bytes)
  | lastModule
  /-- `$` at the end of the line. -/
  | lone
deriving DecidableEq

def Piece.value (args : ScriptArgs) : Piece → Bytes
  | .char c | .dollar c => [c]
  | .number digits => args.argument (decimal digits)
  | .lastModule => args.module
  | .lone => []

/-- The digits in front, so many at most where there is a limit. -/
def leading (limit : Option Nat) (text : Bytes) : Bytes :=
  limit.elim (text.takeWhile isNum) (text.takeWhile isNum).take

/-- The piece in front and the text after it. -/
def firstPiece (limit : Option Nat) (c : UInt8) (text : Bytes) : Piece × Bytes :=
  if c ≠ 36 then (.char c, text)
  else match text with
    | [] => (.lone, [])
    | d :: text =>
        if isNum d then
          (.number (leading limit (d :: text)), (d :: text).drop (leading limit (d :: text)).length)
        else if d = 33 then (.lastModule, text)
        else (.dollar d, text)

theorem firstPiece_length (limit : Option Nat) (c : UInt8) (text : Bytes) :
    (firstPiece limit c text).2.length ≤ text.length := by
  unfold firstPiece
  split
  · exact Nat.le_refl _
  · cases text with
    | nil => exact Nat.le_refl _
    | cons d text => dsimp only; split_ifs <;> simp

theorem firstPiece_char (limit : Option Nat) {c : UInt8} (plain : c ≠ 36) (text : Bytes) :
    firstPiece limit c text = (.char c, text) := by
  unfold firstPiece
  exact if_pos plain

theorem firstPiece_number (limit : Option Nat) {d : UInt8} (digit : isNum d) (text : Bytes) :
    firstPiece limit 36 (d :: text) =
      (.number (leading limit (d :: text)), (d :: text).drop (leading limit (d :: text)).length) := by
  unfold firstPiece
  rw [if_neg (not_not.mpr rfl)]
  exact if_pos digit

def pieces (limit : Option Nat) : Bytes → List Piece
  | [] => []
  | c :: text => (firstPiece limit c text).1 :: pieces limit (firstPiece limit c text).2
termination_by text => text.length
decreasing_by exact Nat.lt_succ_of_le (firstPiece_length limit c text)

theorem pieces_cons (limit : Option Nat) (c : UInt8) (text : Bytes) :
    pieces limit (c :: text) = (firstPiece limit c text).1 :: pieces limit (firstPiece limit c text).2 := by
  rw [pieces]

def valueOf (args : ScriptArgs) (ps : List Piece) : Bytes := ps.flatMap (Piece.value args)

/-- What a line stands for. -/
def expansion (args : ScriptArgs) (text : Bytes) : Bytes := valueOf args (pieces none text)

theorem firstPiece_suffix (limit : Option Nat) (c : UInt8) (text : Bytes) : (firstPiece limit c text).2 <:+ text := by
  unfold firstPiece
  split
  · exact List.suffix_rfl
  · cases text with
    | nil => exact List.suffix_rfl
    | cons d text =>
        dsimp only
        split_ifs
        · exact List.drop_suffix _ _
        · exact List.suffix_cons _ _
        · exact List.suffix_cons _ _

theorem firstPiece_lone {limit : Option Nat} {c : UInt8} {text : Bytes} (lone : (firstPiece limit c text).1 = .lone) :
    c = 36 ∧ text = [] := by
  unfold firstPiece at lone
  split at lone
  · cases lone
  · next dollar =>
    refine ⟨not_not.mp dollar, ?_⟩
    cases text with
    | nil => rfl
    | cons d text => dsimp only at lone; split_ifs at lone

theorem value_nulFree (args : ScriptArgs) {limit : Option Nat} {c : UInt8} {text : Bytes} (clean : 0 ∉ c :: text) :
    0 ∉ ((firstPiece limit c text).1.value args) := by
  have cleared (d : UInt8) (mem : d ∈ c :: text) : (0 : UInt8) ∉ [d] := fun nul =>
    clean (List.mem_singleton.mp nul ▸ mem)
  unfold firstPiece
  split
  · exact cleared c (List.mem_cons_self ..)
  · cases text with
    | nil => exact List.not_mem_nil
    | cons d text =>
        dsimp only
        split_ifs
        · exact args.argument_nulFree _
        · exact args.module_nulFree
        · exact cleared d (List.mem_cons_of_mem _ (List.mem_cons_self ..))

/-! ## The loop takes piece after piece -/

namespace Scan

variable {args : ScriptArgs} {line : Bytes}

theorem peek_of_drop {i : Nat} {c : UInt8} {after : Bytes} (there : line.drop i = c :: after) :
    peek line i = c ∧ line.drop (i + 1) = after := by
  have head : (line)[i]? = some c := by
    have := congrArg List.head? there
    rwa [List.head?_drop] at this
  refine ⟨by rw [peek, List.getD_eq_getElem?_getD, head]; rfl, ?_⟩
  rw [← List.drop_drop, there]
  rfl

theorem number_eq {text remains : Bytes} (room : Nat) {i : Nat} (there : line.drop i = text ++ 0 :: remains) :
    number line room i = (text.takeWhile isNum).take room := by
  induction room generalizing text i with
  | zero => rw [number, List.take_zero]
  | succ room ih =>
      cases text with
      | nil =>
          obtain ⟨here, -⟩ := peek_of_drop there
          rw [number, here]
          rfl
      | cons c text =>
          obtain ⟨here, next⟩ := peek_of_drop there
          rw [number, here]
          by_cases digit : isNum c
          · rw [if_pos digit, ih next, List.takeWhile_cons_of_pos digit, List.take_succ_cons]
          · rw [if_neg digit, List.takeWhile_cons_of_neg digit, List.take_nil]

theorem copy_nil (tmpbuf : Bytes) : copy tmpbuf [] = tmpbuf := by simp [copy]

theorem copy_full {tmpbuf : Bytes} (full : maxBuffer - 1 ≤ tmpbuf.length) (str : Bytes) : copy tmpbuf str = tmpbuf := by
  rw [copy, Nat.sub_eq_zero_of_le full, List.take_zero, List.append_nil]

theorem copy_single {tmpbuf : Bytes} (free : tmpbuf.length < maxBuffer - 1) (c : UInt8) : copy tmpbuf [c] = tmpbuf ++ [c] := by
  rw [copy, List.take_of_length_le]
  exact Nat.sub_pos_of_lt free

theorem copy_append (tmpbuf front back : Bytes) : copy (copy tmpbuf front) back = copy tmpbuf (front ++ back) := by
  have left : maxBuffer - 1 - (tmpbuf ++ front.take (maxBuffer - 1 - tmpbuf.length)).length =
      maxBuffer - 1 - tmpbuf.length - front.length := by
    rw [List.length_append, List.length_take]
    omega
  rw [copy, copy, left, copy, List.take_append, List.append_assoc]

theorem length_copy (tmpbuf str : Bytes) :
    (copy tmpbuf str).length = tmpbuf.length + min (maxBuffer - 1 - tmpbuf.length) str.length := by
  rw [copy, List.length_append, List.length_take]

theorem copy_nulFree {tmpbuf str : Bytes} (free : 0 ∉ tmpbuf) (free' : 0 ∉ str) : 0 ∉ copy tmpbuf str := by
  intro mem
  rcases List.mem_append.mp mem with mem | mem
  · exact free mem
  · exact free' (List.mem_of_mem_take mem)

/-- The state after a turn that took a piece, with the text that is left. -/
structure Took (args : ScriptArgs) (line : Bytes) (s s' : Scan) (text : Bytes) (p : Piece) (rest : Bytes) : Prop where
  inptr : s'.inptr + rest.length = s.inptr + text.length
  tmpbuf : s'.tmpbuf = copy s.tmpbuf (p.value args)
  reads : ∃ more, s'.reads = s.reads ++ more ∧ ∀ i ∈ more, i ≤ s'.inptr
  there : ∃ remains, line.drop s'.inptr = rest ++ 0 :: remains

theorem turn_took {s : Scan} {c : UInt8} {text remains : Bytes} (there : line.drop s.inptr = c :: text ++ 0 :: remains)
    (free : s.tmpbuf.length < maxBuffer - 1) (closed : (firstPiece (some maxDigits) c text).1 ≠ .lone) :
    Took args line s (s.turn args line) (c :: text) (firstPiece (some maxDigits) c text).1
      (firstPiece (some maxDigits) c text).2 := by
  obtain ⟨here, next⟩ := peek_of_drop there
  unfold turn
  rw [here]
  by_cases plain : c = 36
  swap
  · rw [if_neg plain]
    simp only [firstPiece, if_pos plain]
    exact ⟨by simp only [List.length_cons]; omega, (copy_single free c).symm, ⟨_, rfl, by simp⟩, _, next⟩
  subst plain
  rw [if_pos rfl]
  cases text with
  | nil => exact absurd rfl closed
  | cons d text =>
      obtain ⟨here', next'⟩ := peek_of_drop next
      simp only [here', firstPiece, ne_eq, not_true_eq_false, if_false]
      by_cases digit : isNum d
      · simp only [if_pos digit, number_eq maxDigits next]
        have fewer : (leading (some maxDigits) (d :: text)).length ≤ (d :: text).length :=
          (List.length_take_le' _ _).trans (List.takeWhile_prefix _).length_le
        refine ⟨?_, ?_, ⟨_, rfl, ?_⟩, remains, ?_⟩
        · change s.inptr + 1 + (leading (some maxDigits) (d :: text)).length + _ = _
          rw [List.length_drop, List.length_cons (a := 36)]
          omega
        · change copy s.tmpbuf (args.argument (atoi _)) = _
          rw [args.argument_atoi]
          rfl
        · intro i mem
          rcases List.mem_cons.mp mem with rfl | mem
          · exact (Nat.le_succ _).trans (Nat.le_add_right _ _)
          · exact Nat.le_of_lt_succ (List.mem_range'_1.mp mem).2
        · change line.drop (s.inptr + 1 + (leading (some maxDigits) (d :: text)).length) = _
          rw [← List.drop_drop, next]
          exact List.drop_append_of_le_length fewer
      · simp only [if_neg digit]
        by_cases last : d = 33
        · simp only [if_pos last]
          exact ⟨by simp only [List.length_cons]; omega, rfl, ⟨_, rfl, by simp; omega⟩, remains, next'⟩
        · simp only [if_neg last]
          exact ⟨by simp only [List.length_cons]; omega, (copy_single free d).symm, ⟨_, rfl, by simp; omega⟩,
            remains, next'⟩

theorem turn_extends (args : ScriptArgs) (line : Bytes) (s : Scan) :
    s.tmpbuf <+: (s.turn args line).tmpbuf ∧ s.reads <+: (s.turn args line).reads := by
  unfold turn
  dsimp only
  split_ifs
  all_goals exact ⟨List.prefix_append _ _, List.prefix_append _ _⟩

theorem run_extends (args : ScriptArgs) (line : Bytes) (fuel : Nat) (s : Scan) :
    s.tmpbuf <+: (run args line fuel s).tmpbuf ∧ s.reads <+: (run args line fuel s).reads := by
  induction fuel generalizing s with
  | zero => exact ⟨List.prefix_rfl, List.prefix_rfl⟩
  | succ fuel ih =>
      rw [run]
      split
      · obtain ⟨tmpbuf, reads⟩ := turn_extends args line s.test
        obtain ⟨tmpbuf', reads'⟩ := ih (s.test.turn args line)
        exact ⟨tmpbuf.trans tmpbuf', (List.prefix_append _ _).trans (reads.trans reads')⟩
      · exact ⟨List.prefix_rfl, List.prefix_append _ _⟩

theorem turn_lone {s : Scan} {remains : Bytes} (there : line.drop s.inptr = 36 :: 0 :: remains) :
    s.turn args line = ⟨s.inptr + 2, s.tmpbuf ++ [0], s.reads ++ [s.inptr, s.inptr + 1]⟩ := by
  obtain ⟨here, next⟩ := peek_of_drop there
  obtain ⟨here', -⟩ := peek_of_drop next
  rw [turn, if_pos here]
  simp only [here']
  rfl

/-- At the end of the text, or with the buffer full, the loop ends. -/
theorem run_stops {fuel : Nat} {s : Scan} (stops : ¬ s.running line) : run args line (fuel + 1) s = s.test := by
  rw [run, if_neg stops]

theorem run_runs {fuel : Nat} {s : Scan} (runs : s.running line) :
    run args line (fuel + 1) s = run args line fuel (s.test.turn args line) := by
  rw [run, if_pos runs]

theorem run_reads_next (args : ScriptArgs) (line : Bytes) (fuel : Nat) (s : Scan) :
    s.inptr ∈ (run args line (fuel + 1) s).reads := by
  have read : s.inptr ∈ s.test.reads := List.mem_append_right _ (List.mem_singleton_self _)
  rw [run]
  split
  · exact (run_extends args line fuel _).2.subset ((turn_extends args line s.test).2.subset read)
  · exact read

theorem test_text {s : Scan} (written : 0 ∉ s.tmpbuf) : (ofBytes s.test.tmpbuf).text = s.tmpbuf :=
  takeWhile_whole written

/-- What the loop makes of a text. -/
structure Ran (args : ScriptArgs) (s s' : Scan) (text : Bytes) : Prop where
  written : (ofBytes s'.tmpbuf).text = copy s.tmpbuf (valueOf args (pieces (some maxDigits) text))
  within : (.lone ∉ pieces (some maxDigits) text ∨
      maxBuffer - 1 ≤ s.tmpbuf.length + (valueOf args (pieces (some maxDigits) text)).length) →
    ∀ i ∈ s'.reads, i ∈ s.reads ∨ i ≤ s.inptr + text.length
  beyond : .lone ∈ pieces (some maxDigits) text →
    s.tmpbuf.length + (valueOf args (pieces (some maxDigits) text)).length < maxBuffer - 1 →
    s.inptr + text.length + 1 ∈ s'.reads

theorem ran_stop {s : Scan} {text : Bytes} (written : 0 ∉ s.tmpbuf) (stops : text = [] ∨ maxBuffer - 1 ≤ s.tmpbuf.length) :
    Ran args s s.test text where
  written := by
    rw [test_text written]
    rcases stops with rfl | full
    · rw [pieces, valueOf, List.flatMap_nil, copy_nil]
    · rw [copy_full full]
  within _ i mem := by
    rcases List.mem_append.mp mem with mem | mem
    · exact .inl mem
    · exact .inr (List.mem_singleton.mp mem ▸ Nat.le_add_right _ _)
  beyond lone short := by
    rcases stops with rfl | full
    · rw [pieces] at lone
      cases lone
    · omega

theorem ran_lone {s : Scan} {remains : Bytes} (there : line.drop s.inptr = 36 :: 0 :: remains) (written : 0 ∉ s.tmpbuf)
    (free : s.tmpbuf.length < maxBuffer - 1) (fuel : Nat) :
    Ran args s (run args line (fuel + 1) (s.test.turn args line)) [36] := by
  have only : pieces (some maxDigits) [36] = [.lone] := by
    rw [pieces]
    exact congrArg (Piece.lone :: ·) (by rw [firstPiece]; exact pieces.eq_1 _)
  have after : s.test.turn args line = ⟨s.inptr + 2, s.tmpbuf ++ [0], s.test.reads ++ [s.inptr, s.inptr + 1]⟩ :=
    turn_lone there
  refine ⟨?_, fun safe => ?_, fun _ _ => ?_⟩
  · obtain ⟨more, whole⟩ := (run_extends args line (fuel + 1) (s.test.turn args line)).1
    rw [only, ← whole, after]
    have text := ofBytes_bytes_append ⟨s.tmpbuf, written⟩ more
    exact (congrArg CStr.text text).trans (copy_nil _).symm
  · rw [only] at safe
    rcases safe with none | full
    · exact absurd (List.mem_singleton_self _) none
    · exact absurd free (not_lt.mpr full)
  · have read := run_reads_next args line fuel (s.test.turn args line)
    rw [after] at read ⊢
    exact read

theorem Ran.took {s s' s'' : Scan} {c : UInt8} {text : Bytes}
    (took : Took args line s.test s' (c :: text) (firstPiece (some maxDigits) c text).1
      (firstPiece (some maxDigits) c text).2)
    (closed : (firstPiece (some maxDigits) c text).1 ≠ .lone)
    (ran : Ran args s' s'' (firstPiece (some maxDigits) c text).2) : Ran args s s'' (c :: text) := by
  obtain ⟨inptr, tmpbuf, ⟨more, reads, early⟩, -⟩ := took
  change s'.inptr + _ = s.inptr + _ at inptr
  change s'.tmpbuf = copy s.tmpbuf _ at tmpbuf
  have size := length_copy s.tmpbuf ((firstPiece (some maxDigits) c text).1.value args)
  rw [← tmpbuf] at size
  have split : valueOf args (pieces (some maxDigits) (c :: text)) =
      (firstPiece (some maxDigits) c text).1.value args ++
        valueOf args (pieces (some maxDigits) (firstPiece (some maxDigits) c text).2) := by
    rw [pieces, valueOf, List.flatMap_cons]
    rfl
  have lone : .lone ∈ pieces (some maxDigits) (c :: text) ↔
      .lone ∈ pieces (some maxDigits) (firstPiece (some maxDigits) c text).2 := by
    rw [pieces, List.mem_cons]
    exact or_iff_right (Ne.symm closed)
  refine ⟨?_, fun safe i mem => ?_, fun ends short => ?_⟩
  · rw [ran.written, tmpbuf, copy_append, split]
  · rw [lone, split, List.length_append] at safe
    rcases ran.within (safe.imp_right fun full => by omega) i mem with mem | le
    · rw [reads] at mem
      rcases List.mem_append.mp mem with mem | mem
      · rcases List.mem_append.mp mem with mem | mem
        · exact .inl mem
        · exact .inr (List.mem_singleton.mp mem ▸ Nat.le_add_right _ _)
      · have := early i mem
        exact .inr (by omega)
    · exact .inr (by omega)
  · rw [split, List.length_append] at short
    rw [← inptr]
    exact ran.beyond (lone.mp ends) (by omega)

theorem ran_run {text remains : Bytes} {fuel : Nat} {s : Scan} (there : line.drop s.inptr = text ++ 0 :: remains)
    (fuelled : text.length + 1 < fuel) (clean : 0 ∉ text) (written : 0 ∉ s.tmpbuf) :
    Ran args s (run args line fuel s) text := by
  induction text using pieces.induct (some maxDigits) generalizing fuel s remains with
  | case1 =>
      obtain ⟨fuel, rfl⟩ := Nat.exists_eq_add_of_lt fuelled
      obtain ⟨here, -⟩ := peek_of_drop there
      rw [run_stops fun runs => runs.1 here]
      exact ran_stop written (.inl rfl)
  | case2 c text ih =>
      obtain ⟨fuel, rfl⟩ := Nat.exists_eq_add_of_lt fuelled
      obtain ⟨here, next⟩ := peek_of_drop there
      by_cases free : s.tmpbuf.length < maxBuffer - 1
      swap
      · rw [run_stops fun runs => free runs.2]
        exact ran_stop written (.inr (not_lt.mp free))
      rw [run_runs ⟨fun nul => clean (by simp [← here, nul]), free⟩]
      by_cases lone : (firstPiece (some maxDigits) c text).1 = .lone
      · obtain ⟨rfl, rfl⟩ := firstPiece_lone lone
        rw [Nat.add_right_comm]
        exact ran_lone there written free _
      · have took := @turn_took args line s.test c text remains there free lone
        obtain ⟨remains, there'⟩ := took.there
        have shorter := firstPiece_length (some maxDigits) c text
        refine .took took lone (ih there' ?_ ?_ ?_)
        · rw [List.length_cons]
          omega
        · exact fun mem => clean (List.mem_cons_of_mem _ ((firstPiece_suffix _ c text).subset mem))
        · rw [took.tmpbuf]
          exact copy_nulFree written (value_nulFree args clean)

end Scan

/-! ## Long numbers -/

/-- Whether the digits of a number have room in `num`. -/
def Piece.Fits : Piece → Prop
  | .number digits => digits.length ≤ maxDigits
  | _ => True

instance : DecidablePred Piece.Fits := fun p =>
  match p with
  | .number digits => inferInstanceAs (Decidable (digits.length ≤ maxDigits))
  | .char _ | .dollar _ | .lastModule | .lone => inferInstanceAs (Decidable True)

theorem isNum_ne_dollar {c : UInt8} (digit : isNum c) : c ≠ 36 := by
  rintro rfl
  exact absurd digit (by decide)

theorem pieces_digits (limit : Option Nat) {digits : Bytes} (all : ∀ c ∈ digits, isNum c) (text : Bytes) :
    pieces limit (digits ++ text) = digits.map .char ++ pieces limit text := by
  induction digits with
  | nil => rfl
  | cons c digits ih =>
      have plain := isNum_ne_dollar (all c (List.mem_cons_self ..))
      rw [List.cons_append, pieces, firstPiece_char limit plain, ih fun c mem => all c (List.mem_cons_of_mem _ mem)]
      rfl

/-- Only a number depends on the limit. -/
theorem firstPiece_limit (limit : Option Nat) (c : UInt8) (text : Bytes) :
    firstPiece limit c text = firstPiece none c text ∧ (firstPiece none c text).1.Fits ∨
      c = 36 ∧ ∃ d after, text = d :: after ∧ isNum d := by
  by_cases plain : c = 36
  swap
  · rw [firstPiece_char limit plain, firstPiece_char none plain]
    exact .inl ⟨rfl, trivial⟩
  cases text with
  | nil =>
      unfold firstPiece
      rw [if_neg (not_not.mpr plain)]
      exact .inl ⟨rfl, trivial⟩
  | cons d after =>
      by_cases digit : isNum d
      · exact .inr ⟨plain, d, after, rfl, digit⟩
      · simp only [firstPiece, plain, ne_eq, not_true_eq_false, if_false, if_neg digit]
        split
        · exact .inl ⟨trivial, trivial⟩
        · exact .inl ⟨trivial, trivial⟩

/-- How the first piece looks when the number of digits is limited; those that have no room are characters. -/
structure Cut (c : UInt8) (text : Bytes) (excess : Bytes) : Prop where
  pieces : pieces (some maxDigits) (c :: text) = (firstPiece (some maxDigits) c text).1 ::
    (excess.map .char ++ pieces (some maxDigits) (firstPiece none c text).2)
  fits : excess = [] ↔ (firstPiece none c text).1.Fits
  same : (firstPiece none c text).1.Fits → (firstPiece (some maxDigits) c text).1 = (firstPiece none c text).1
  lone : (firstPiece (some maxDigits) c text).1 = .lone ↔ (firstPiece none c text).1 = .lone
  absent : (firstPiece (some maxDigits) c text).1.value .absent = (firstPiece none c text).1.value .absent

theorem cut_exists (c : UInt8) (text : Bytes) : ∃ excess, Cut c text excess := by
  rcases firstPiece_limit (some maxDigits) c text with ⟨same, fits⟩ | ⟨rfl, d, after, rfl, digit⟩
  · refine ⟨[], ⟨?_, ?_, fun _ => ?_, ?_, ?_⟩⟩
    · rw [pieces, same]
      rfl
    · exact ⟨fun _ => fits, fun _ => rfl⟩
    · rw [same]
    · rw [same]
    · rw [same]
  · have short := firstPiece_number (some maxDigits) digit after
    have long := firstPiece_number none digit after
    let digits := (d :: after).takeWhile isNum
    have rest : (d :: after).drop (leading (some maxDigits) (d :: after)).length =
        digits.drop maxDigits ++ (d :: after).drop digits.length := by
      have split : digits ++ (d :: after).drop digits.length = d :: after :=
        List.prefix_iff_eq_append.mp (List.takeWhile_prefix _)
      change (d :: after).drop (digits.take maxDigits).length = _
      conv_lhs => rw [← split]
      have cut : digits.drop (min maxDigits digits.length) = digits.drop maxDigits :=
        List.drop_eq_drop_iff.mpr (by omega)
      rw [List.drop_append_of_le_length (List.length_take_le' _ _), List.length_take, cut]
    refine ⟨digits.drop maxDigits, ⟨?_, ?_, ?_, ?_, ?_⟩⟩
    · rw [pieces, short, long]
      rw [rest, pieces_digits]
      · rfl
      · exact fun c mem => List.mem_takeWhile_imp (List.mem_of_mem_drop mem)
    · rw [long]
      exact List.drop_eq_nil_iff
    · rw [short, long]
      exact fun fits => congrArg Piece.number (List.take_of_length_le fits)
    · rw [short, long]
      exact iff_of_false (fun same => by cases same) (fun same => by cases same)
    · rw [short, long]
      rfl

theorem pieces_fits {text : Bytes} (fits : ∀ p ∈ pieces none text, p.Fits) :
    pieces (some maxDigits) text = pieces none text := by
  induction text using pieces.induct none with
  | case1 => rw [pieces, pieces]
  | case2 c text ih =>
      obtain ⟨excess, cut⟩ := cut_exists c text
      rw [pieces] at fits
      obtain ⟨first, others⟩ := List.forall_mem_cons.mp fits
      rw [cut.pieces, cut.fits.mpr first, cut.same first, ih others, pieces_cons none]
      rfl

theorem length_chars (args : ScriptArgs) (text : Bytes) : (valueOf args (text.map .char)).length = text.length := by
  induction text with
  | nil => rfl
  | cons c text ih => exact congrArg (· + 1) ih

theorem length_absent (text : Bytes) :
    (valueOf .absent (pieces none text)).length ≤ (valueOf .absent (pieces (some maxDigits) text)).length ∧
      ((∀ p ∈ pieces none text, p.Fits) ∨
        (valueOf .absent (pieces none text)).length < (valueOf .absent (pieces (some maxDigits) text)).length) := by
  induction text using pieces.induct none with
  | case1 => 
      rw [pieces, pieces]
      exact ⟨Nat.le_refl _, .inl fun p mem => by cases mem⟩
  | case2 c text ih =>
      obtain ⟨excess, cut⟩ := cut_exists c text
      have limited : (valueOf .absent (pieces (some maxDigits) (c :: text))).length =
          ((firstPiece none c text).1.value .absent).length + (excess.length +
            (valueOf .absent (pieces (some maxDigits) (firstPiece none c text).2)).length) := by
        rw [cut.pieces, valueOf, List.flatMap_cons, List.flatMap_append, List.length_append, List.length_append,
          cut.absent]
        exact congrArg (_ + ·) (congrArg (· + _) (length_chars _ excess))
      have whole : (valueOf .absent (pieces none (c :: text))).length =
          ((firstPiece none c text).1.value .absent).length +
            (valueOf .absent (pieces none (firstPiece none c text).2)).length := by
        rw [pieces, valueOf, List.flatMap_cons, List.length_append]
        rfl
      rw [limited, whole]
      refine ⟨by omega, ?_⟩
      by_cases first : (firstPiece none c text).1.Fits
      · rw [pieces, List.forall_mem_cons]
        exact ih.2.imp (fun others => ⟨first, others⟩) fun less => by omega
      · have excessive : 0 < excess.length := List.length_pos_iff.mpr (mt cut.fits.mp first)
        exact .inr (by omega)

/-! ## Lines of a script -/

/-- What `fdgets` reads with room for 1024 characters. -/
structure ScriptLine extends CStr where
  short : text.length ≤ 1023

namespace ScriptLine

/-- The line becomes its expansion, and nothing after its NUL is read. -/
def Expanded (line : ScriptLine) (args : ScriptArgs) (remains : Bytes) : Prop :=
  (ofBytes (processArguments args (line.bytes ++ remains)).1).text = (expansion args line.text).take (maxBuffer - 1) ∧
    ∀ i ∈ (processArguments args (line.bytes ++ remains)).2, i ≤ line.text.length

def ShortNumbers (line : ScriptLine) : Prop := ∀ p ∈ pieces none line.text, p.Fits

def LoneDollar (line : ScriptLine) : Prop := .lone ∈ pieces none line.text

theorem ran (line : ScriptLine) (args : ScriptArgs) (remains : Bytes) :
    ∃ s, Scan.Ran args ⟨0, [], []⟩ s line.text ∧ processArguments args (line.bytes ++ remains) =
      ((ofBytes s.tmpbuf).bytes ++ (line.bytes ++ remains).drop (ofBytes s.tmpbuf).bytes.length, s.reads) := by
  refine ⟨_, Scan.ran_run (show _ = line.text ++ 0 :: remains from ?_) ?_ line.nulFree List.not_mem_nil, rfl⟩
  · rw [List.drop_zero, bytes, List.append_assoc]
    rfl
  · rw [List.length_append, length_bytes]
    omega

/-- With numbers that fit only a lone dollar is wrong, where the buffer is not full before it. -/
theorem expanded_iff (line : ScriptLine) (numbers : line.ShortNumbers) (args : ScriptArgs) (remains : Bytes) :
    line.Expanded args remains ↔ ¬ (line.LoneDollar ∧ (expansion args line.text).length < maxBuffer - 1) := by
  obtain ⟨s, ran, done⟩ := line.ran args remains
  have whole := pieces_fits numbers
  have size : (expansion args line.text).length = 0 + (expansion args line.text).length := (Nat.zero_add _).symm
  rw [Expanded, done, LoneDollar]
  constructor
  · intro expanded lone
    have read := ran.beyond (whole ▸ lone.1) (by rw [whole]; exact size ▸ lone.2)
    have := expanded.2 _ read
    change 0 + _ + 1 ≤ _ at this
    omega
  · intro sound
    refine ⟨?_, fun i mem => ?_⟩
    · rw [ofBytes_bytes_append, ran.written, whole]
      rfl
    · have safe : .lone ∉ pieces none line.text ∨ maxBuffer - 1 ≤ (expansion args line.text).length := by
        rw [← not_lt]
        exact not_and_or.mp sound
      rcases ran.within (by rw [whole]; exact size ▸ safe) i mem with mem | le
      · cases mem
      · exact le.trans_eq (Nat.zero_add _)

theorem value_absent_le (p : Piece) : (p.value .absent).length ≤ 1 := by
  cases p with
  | char c => exact Nat.le_refl 1
  | dollar c => exact Nat.le_refl 1
  | number digits => exact Nat.zero_le 1
  | lastModule => exact Nat.zero_le 1
  | lone => exact Nat.zero_le 1

theorem valueOf_absent_le (limit : Option Nat) (text : Bytes) :
    (valueOf .absent (pieces limit text)).length ≤ text.length := by
  induction text using pieces.induct limit with
  | case1 => rw [pieces]; rfl
  | case2 c text ih =>
      have first := value_absent_le (firstPiece limit c text).1
      have rest := firstPiece_length limit c text
      rw [pieces_cons, valueOf, List.flatMap_cons, List.length_append, List.length_cons]
      change _ + (valueOf .absent _).length ≤ _
      omega

theorem short_numbers_of_expanded {line : ScriptLine} (expanded : line.Expanded .absent []) : line.ShortNumbers := by
  obtain ⟨s, ran, done⟩ := line.ran .absent []
  have short := line.short
  have small := valueOf_absent_le (some maxDigits) line.text
  have small' : (expansion .absent line.text).length ≤ line.text.length := valueOf_absent_le none line.text
  have text := expanded.1
  rw [done, ofBytes_bytes_append, ran.written, Scan.copy, List.nil_append,
    List.take_of_length_le (small.trans (short.trans (by decide))),
    List.take_of_length_le (small'.trans (short.trans (by decide)))] at text
  rcases (length_absent line.text).2 with fits | less
  · exact fits
  · exact absurd (congrArg List.length text) less.ne'

/-- A line is expanded, whatever the arguments, if and only if its numbers fit and no dollar ends it. With
numbers that fit the arguments decide only whether the buffer is full before that dollar. -/
theorem process_arguments_iff (line : ScriptLine) :
    ((∀ args remains, line.Expanded args remains) ↔ line.ShortNumbers ∧ ¬ line.LoneDollar) ∧
      (line.ShortNumbers → ∀ args remains, line.Expanded args remains ↔
        ¬ (line.LoneDollar ∧ (expansion args line.text).length < maxBuffer - 1)) := by
  refine ⟨⟨fun expanded => ?_, fun sound args remains => ?_⟩, fun numbers => line.expanded_iff numbers⟩
  · have numbers := short_numbers_of_expanded (expanded .absent [])
    have free : (expansion .absent line.text).length < maxBuffer - 1 :=
      ((valueOf_absent_le none line.text).trans line.short).trans_lt (by decide)
    exact ⟨numbers, fun lone => (line.expanded_iff numbers .absent []).mp (expanded _ _) ⟨lone, free⟩⟩
  · exact (line.expanded_iff sound.1 args remains).mpr fun lone => sound.2 lone.1

theorem dollar_nulFree : 0 ∉ ([36] : Bytes) := by decide

theorem dollar_short : ([36] : Bytes).length ≤ 1023 := by decide

def dollar : ScriptLine := ⟨⟨[36], dollar_nulFree⟩, dollar_short⟩

/-- `$` and then what an earlier line has left: it is read. -/
theorem dollar_overreads : ¬ dollar.Expanded .absent [97, 98, 0] := by
  intro expanded
  exact absurd (expanded.2 2 (by decide)) (by decide)

end ScriptLine

end Psplink.Shell
