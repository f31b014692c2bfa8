import Mathlib.Data.List.Basic
import Mathlib.Logic.Function.Basic
import Psplink.Lib.CStr

/-!
# The prompt

`print_prompt` of psplink/shell.c puts the prompt together in an array on its stack. With pcterm it stands between two
marks.
-/

namespace Psplink.Shell.Prompt
open Psplink.Lib

def maxShellVar : Nat := 128
def passprompt : UInt8 := 255

/-! ## The code -/

/-- The array, with every index that is written to. -/
structure Buffer where
  tmp : Nat → UInt8
  out : Nat
  written : List Nat

namespace Buffer

def set (b : Buffer) (i : Nat) (c : UInt8) : Buffer :=
  { b with tmp := Function.update b.tmp i c, written := b.written ++ [i] }

def put (b : Buffer) (c : UInt8) : Buffer := { b.set b.out c with out := b.out + 1 }

/-- `strncpy`, which fills up with NULs. -/
def strncpy : Nat → Nat → Bytes → Buffer → Buffer
  | 0, _, _, b => b
  | n + 1, i, src, b => strncpy n (i + 1) src.tail (b.set i (src.headD 0))

def skip : Nat → Buffer → Buffer
  | 0, b => b
  | fuel + 1, b => if b.tmp b.out = 0 then b else skip fuel { b with out := b.out + 1 }

def putDir (currdir : Bytes) (b : Buffer) : Buffer :=
  skip maxShellVar ((strncpy (maxShellVar - b.out - 1) b.out currdir b).set (maxShellVar - 1) 0)

def mark (pcterm : Bool) (b : Buffer) : Buffer := if pcterm then b.put passprompt else b

end Buffer

def loop (currdir : Bytes) : Bytes → Buffer → Buffer
  | [], b => b
  | [c], b =>
      if b.out < maxShellVar - 2 then
        if c = 37 then b else b.put c
      else b
  | c :: d :: cliprompt, b =>
      if b.out < maxShellVar - 2 then
        if c = 37 then
          if d = 37 then loop currdir cliprompt (b.put 37)
          else if d = 100 then loop currdir cliprompt (b.putDir currdir)
          else loop currdir (d :: cliprompt) b
        else loop currdir (d :: cliprompt) (b.put c)
      else b

def filled (pcterm : Bool) (currdir prompt : CStr) (stack : Nat → UInt8) : Buffer :=
  let b := ((loop currdir.text prompt.text (Buffer.mark pcterm ⟨stack, 0, []⟩)).mark pcterm)
  b.set b.out 0

/-- `%s` of the array, and a space. -/
def printed (b : Buffer) : Bytes := ((List.range (maxShellVar + 1)).map b.tmp).takeWhile (· ≠ 0) ++ [32]

/-- Nothing is printed in tty mode. -/
def printPrompt (ttymode pcterm : Bool) (currdir prompt : CStr) (stack : Nat → UInt8) : Option (Buffer × Bytes) :=
  if ttymode then none
  else some (filled pcterm currdir prompt stack, printed (filled pcterm currdir prompt stack))

/-! ## Expansion -/

inductive Token where
  | plain (c : UInt8)
  | percent
  | dir
  /-- A `%` before anything else. -/
  | stray
deriving DecidableEq

def tokens : Bytes → List Token
  | [] => []
  | [c] => [if c = 37 then .stray else .plain c]
  | c :: d :: prompt =>
      if c = 37 then
        if d = 37 then .percent :: tokens prompt
        else if d = 100 then .dir :: tokens prompt
        else .stray :: tokens (d :: prompt)
      else .plain c :: tokens (d :: prompt)

def Token.text (currdir : Bytes) : Token → Bytes
  | .plain c => [c]
  | .percent => [37]
  | .dir => currdir
  | .stray => []

def expand (currdir : Bytes) (ts : List Token) : Bytes := ts.flatMap (Token.text currdir)

/-- As much of a text as there is space for behind so many marks. -/
def Cut (marks : Nat) (text whole : Bytes) : Prop :=
  text <+: whole ∧ (text = whole ∨ maxShellVar - 2 ≤ marks + text.length)

def wrapped (pcterm : Bool) (text : Bytes) : Bytes := if pcterm then passprompt :: text ++ [passprompt] else text

/-- The directory starts before the last two bytes and does not end before the last. -/
def Overruns (currdir prompt : CStr) : Prop :=
  ∃ before after, tokens prompt.text = before ++ .dir :: after ∧
    1 + (expand currdir.text before).length < maxShellVar - 2 ∧
    maxShellVar - 2 < 1 + (expand currdir.text before).length + currdir.text.length

/-! ## The array -/

namespace Buffer

def front (b : Buffer) : Bytes := (List.range b.out).map b.tmp

def InBounds (b : Buffer) : Prop := ∀ i ∈ b.written, i < maxShellVar

variable {b : Buffer}

@[simp] theorem length_front (b : Buffer) : b.front.length = b.out := by simp [front]

theorem set_inBounds {i : Nat} {c : UInt8} (bounds : b.InBounds) (less : i < maxShellVar) : (b.set i c).InBounds := by
  intro j mem
  rcases List.mem_append.mp mem with before | last
  · exact bounds j before
  · rw [List.mem_singleton.mp last]
    exact less

theorem front_congr {b' : Buffer} (out : b'.out = b.out) (same : ∀ i < b.out, b'.tmp i = b.tmp i) :
    b'.front = b.front := by
  rw [front, front, out]
  exact List.map_congr_left fun i mem => same i (List.mem_range.mp mem)

theorem front_put (b : Buffer) (c : UInt8) : (b.put c).front = b.front ++ [c] := by
  have before : (List.range b.out).map (Function.update b.tmp b.out c) = b.front :=
    List.map_congr_left fun i mem => Function.update_of_ne (List.mem_range.mp mem).ne _ _
  change (List.range (b.out + 1)).map (Function.update b.tmp b.out c) = _
  rw [List.range_succ, List.map_append, before, List.map_singleton, Function.update_self]

theorem put_inBounds {c : UInt8} (bounds : b.InBounds) (less : b.out < maxShellVar) : (b.put c).InBounds :=
  @set_inBounds b b.out c bounds less

theorem strncpy_out (n i : Nat) (src : Bytes) (b : Buffer) : (strncpy n i src b).out = b.out := by
  induction n generalizing i src b with
  | zero => rfl
  | succ n ih => exact ih _ _ _

theorem strncpy_inBounds {n i : Nat} {src : Bytes} (bounds : b.InBounds) (fits : i + n ≤ maxShellVar) :
    (strncpy n i src b).InBounds := by
  induction n generalizing i src b with
  | zero => exact bounds
  | succ n ih => exact ih (set_inBounds bounds (by omega)) (by omega)

theorem strncpy_tmp (n i : Nat) (src : Bytes) (b : Buffer) (j : Nat) :
    (strncpy n i src b).tmp j = if i ≤ j ∧ j < i + n then src.getD (j - i) 0 else b.tmp j := by
  induction n generalizing i src b with
  | zero => exact (if_neg (by omega)).symm
  | succ n ih =>
      rw [strncpy, ih]
      by_cases first : j = i
      · subst first
        rw [if_neg (by omega), if_pos (by omega), Nat.sub_self]
        change Function.update b.tmp j (src.headD 0) j = _
        rw [Function.update_self]
        cases src with
        | nil => rfl
        | cons c src => rfl
      · by_cases later : i + 1 ≤ j ∧ j < i + 1 + n
        · rw [if_pos later, if_pos (by omega)]
          have behind : j - i = j - (i + 1) + 1 := by omega
          rw [behind]
          cases src with
          | nil => rfl
          | cons c src => rfl
        · rw [if_neg later, if_neg (by omega)]
          exact Function.update_of_ne first _ _

theorem skip_eq {fuel k : Nat} (enough : k < fuel) (text : ∀ i < k, b.tmp (b.out + i) ≠ 0) (ends : b.tmp (b.out + k) = 0) :
    skip fuel b = { b with out := b.out + k } := by
  induction k generalizing fuel b with
  | zero =>
      cases fuel with
      | zero => omega
      | succ fuel => exact if_pos ends
  | succ k ih =>
      cases fuel with
      | zero => omega
      | succ fuel =>
          have here := text 0 (Nat.succ_pos k)
          rw [Nat.add_zero] at here
          rw [skip, if_neg here]
          have rest := @ih { b with out := b.out + 1 } fuel (by omega)
            (fun i less => by
              rw [Nat.add_assoc, Nat.add_comm 1 i]
              exact text (i + 1) (by omega))
            (by rwa [Nat.add_assoc, Nat.add_comm 1 k])
          rw [rest, Nat.add_assoc, Nat.add_comm 1 k]

def copied (currdir : Bytes) (b : Buffer) : Buffer :=
  (strncpy (maxShellVar - b.out - 1) b.out currdir b).set (maxShellVar - 1) 0

theorem copied_before {currdir : Bytes} {j : Nat} (before : j < b.out) (room : b.out < maxShellVar) :
    (b.copied currdir).tmp j = b.tmp j := by
  change Function.update (strncpy (maxShellVar - b.out - 1) b.out currdir b).tmp (maxShellVar - 1) 0 j = _
  rw [Function.update_of_ne (by omega), strncpy_tmp, if_neg (by omega)]

theorem copied_tmp {currdir : Bytes} {i : Nat} (inside : i < maxShellVar - 1 - b.out) :
    (b.copied currdir).tmp (b.out + i) = currdir.getD i 0 := by
  change Function.update (strncpy (maxShellVar - b.out - 1) b.out currdir b).tmp (maxShellVar - 1) 0 (b.out + i) = _
  rw [Function.update_of_ne (by omega), strncpy_tmp, if_pos (by omega), Nat.add_sub_cancel_left]

theorem copied_end (currdir : Bytes) (b : Buffer) : (b.copied currdir).tmp (maxShellVar - 1) = 0 := by
  change Function.update (strncpy (maxShellVar - b.out - 1) b.out currdir b).tmp (maxShellVar - 1) 0 (maxShellVar - 1) = 0
  rw [Function.update_self]

theorem putDir_eq {currdir : Bytes} (nulFree : 0 ∉ currdir) (room : b.out < maxShellVar) :
    b.putDir currdir = { b.copied currdir with out := b.out + min currdir.length (maxShellVar - 1 - b.out) } := by
  have size : maxShellVar = 128 := rfl
  have kept : (b.copied currdir).out = b.out := strncpy_out _ _ _ _
  have skipped := @skip_eq (b.copied currdir) maxShellVar (min currdir.length (maxShellVar - 1 - b.out)) (by omega)
    (fun i less => by
      have inside : i < currdir.length := by omega
      rw [kept, copied_tmp (by omega), List.getD_eq_getElem?_getD, List.getElem?_eq_getElem inside]
      exact fun nul => nulFree (nul ▸ List.getElem_mem inside))
    (by
      rw [kept]
      by_cases cut : maxShellVar - 1 - b.out ≤ currdir.length
      · have last : b.out + min currdir.length (maxShellVar - 1 - b.out) = maxShellVar - 1 := by omega
        rw [last, copied_end]
      · rw [Nat.min_eq_left (by omega), copied_tmp (by omega), List.getD_eq_getElem?_getD,
          List.getElem?_eq_none (Nat.le_refl _)]
        rfl)
  rw [kept] at skipped
  exact skipped

/-- The directory, as much of it as there is space for. -/
theorem front_putDir {currdir : Bytes} (nulFree : 0 ∉ currdir) (room : b.out < maxShellVar) :
    (b.putDir currdir).front = b.front ++ currdir.take (maxShellVar - 1 - b.out) := by
  rw [putDir_eq nulFree room]
  change (List.range (b.out + _)).map (b.copied currdir).tmp = _
  rw [List.range_add, List.map_append, List.map_map]
  have before : (List.range b.out).map (b.copied currdir).tmp = b.front :=
    List.map_congr_left fun i mem => copied_before (List.mem_range.mp mem) room
  rw [before]
  refine congrArg (b.front ++ ·) (List.ext_getElem ?_ fun i here there => ?_)
  · simp only [List.length_map, List.length_range, List.length_take, Nat.min_comm]
  · rw [List.length_take] at there
    simp only [List.getElem_map, List.getElem_range, List.getElem_take, Function.comp_apply]
    rw [copied_tmp (by omega), List.getD_eq_getElem?_getD, List.getElem?_eq_getElem (by omega)]
    rfl

theorem putDir_inBounds {currdir : Bytes} (nulFree : 0 ∉ currdir) (bounds : b.InBounds) (room : b.out < maxShellVar) :
    (b.putDir currdir).InBounds := by
  have copies : (b.copied currdir).InBounds := set_inBounds (strncpy_inBounds bounds (by omega)) (by decide)
  rw [putDir_eq nulFree room]
  exact copies

end Buffer

/-! ## The loop -/

def step (currdir : Bytes) (b : Buffer) : Token → Buffer
  | .plain c => b.put c
  | .percent => b.put 37
  | .dir => b.putDir currdir
  | .stray => b

def runTokens (currdir : Bytes) : List Token → Buffer → Buffer
  | [], b => b
  | t :: ts, b => if b.out < maxShellVar - 2 then runTokens currdir ts (step currdir b t) else b

theorem runTokens_full {currdir : Bytes} {b : Buffer} (full : ¬ b.out < maxShellVar - 2) (ts : List Token) :
    runTokens currdir ts b = b := by
  cases ts with
  | nil => rfl
  | cons t ts => exact if_neg full

theorem loop_eq (currdir prompt : Bytes) (b : Buffer) :
    loop currdir prompt b = runTokens currdir (tokens prompt) b := by
  fun_induction loop currdir prompt b with
  | case1 b => rfl
  | case2 b less => simp [tokens, runTokens, step, less]
  | case3 c b less plain => simp [tokens, runTokens, step, less, plain]
  | case4 c b full => exact (runTokens_full full _).symm
  | case5 rest b less ih => simp [tokens, runTokens, step, less, ih]
  | case6 rest b less other ih => simp [tokens, runTokens, step, less, ih]
  | case7 d rest b less percent dir ih => simp [tokens, runTokens, step, less, percent, dir, ih]
  | case8 c d rest b less plain ih => simp [tokens, runTokens, step, less, plain, ih]
  | case9 c d rest b full => exact (runTokens_full full _).symm

section Run

variable {currdir : Bytes} {b : Buffer}

def put (currdir : Bytes) (b : Buffer) (t : Token) : Bytes := (t.text currdir).take (maxShellVar - 1 - b.out)

theorem step_front (nulFree : 0 ∉ currdir) (room : b.out < maxShellVar - 2) (t : Token) :
    (step currdir b t).front = b.front ++ put currdir b t := by
  have one (c : UInt8) : [c].take (maxShellVar - 1 - b.out) = [c] := List.take_of_length_le (by rw [List.length_singleton]; omega)
  cases t with
  | plain c => exact (Buffer.front_put b c).trans (congrArg (b.front ++ ·) (one c).symm)
  | percent => exact (Buffer.front_put b 37).trans (congrArg (b.front ++ ·) (one 37).symm)
  | dir => exact Buffer.front_putDir nulFree (by omega)
  | stray =>
      change b.front = b.front ++ [].take (maxShellVar - 1 - b.out)
      rw [List.take_nil, List.append_nil]

theorem step_out (nulFree : 0 ∉ currdir) (room : b.out < maxShellVar - 2) (t : Token) :
    (step currdir b t).out = min (b.out + (t.text currdir).length) (maxShellVar - 1) := by
  have size := congrArg List.length (step_front nulFree room t)
  rw [List.length_append, Buffer.length_front, Buffer.length_front, put, List.length_take] at size
  omega

theorem step_inBounds (nulFree : 0 ∉ currdir) (bounds : b.InBounds) (room : b.out < maxShellVar - 2) (t : Token) :
    (step currdir b t).InBounds := by
  cases t with
  | plain c => exact Buffer.put_inBounds bounds (by omega)
  | percent => exact Buffer.put_inBounds bounds (by omega)
  | dir => exact Buffer.putDir_inBounds nulFree bounds (by omega)
  | stray => exact bounds

theorem expand_cons (t : Token) (ts : List Token) : expand currdir (t :: ts) = t.text currdir ++ expand currdir ts :=
  List.flatMap_cons

/-- The loop stays inside, and what it adds is the expansion, cut. -/
theorem runTokens_spec (nulFree : 0 ∉ currdir) (ts : List Token) (bounds : b.InBounds) (room : b.out < maxShellVar) :
    (runTokens currdir ts b).InBounds ∧ (runTokens currdir ts b).out < maxShellVar ∧
      ∃ text, (runTokens currdir ts b).front = b.front ++ text ∧ Cut b.out text (expand currdir ts) := by
  induction ts generalizing b with
  | nil => exact ⟨bounds, room, [], (List.append_nil _).symm, List.prefix_refl _, .inl rfl⟩
  | cons t ts ih =>
      by_cases more : b.out < maxShellVar - 2
      · rw [runTokens, if_pos more]
        have moved := step_out nulFree more t
        obtain ⟨inside, less, text, front, cut⟩ := ih (step_inBounds nulFree bounds more t) (by omega)
        rw [step_front nulFree more, List.append_assoc] at front
        refine ⟨inside, less, _, front, ?_⟩
        rw [expand_cons, put]
        by_cases fits : b.out + (t.text currdir).length ≤ maxShellVar - 1
        · rw [List.take_of_length_le (by omega)]
          refine ⟨(List.prefix_append_right_inj _).mpr cut.1, cut.2.imp (congrArg _) fun full => ?_⟩
          rw [List.length_append]
          omega
        · -- the directory is cut, and nothing comes behind it
          have last : ¬ (step currdir b t).out < maxShellVar - 2 := by omega
          rw [runTokens_full last] at front
          have nothing : text = [] := by
            have same := congrArg List.length front
            rw [← List.append_assoc, ← step_front nulFree more, List.length_append, Nat.left_eq_add] at same
            exact List.length_eq_zero_iff.mp same
          rw [nothing, List.append_nil]
          refine ⟨(List.take_prefix _ _).trans (List.prefix_append _ _), .inr ?_⟩
          rw [List.length_take]
          omega
      · rw [runTokens_full more]
        exact ⟨bounds, room, [], (List.append_nil _).symm, List.nil_prefix, .inr (by simpa using Nat.le_of_not_lt more)⟩

/-- The loop comes to the last byte of the array if and only if a directory does that starts in time. -/
theorem runTokens_last (nulFree : 0 ∉ currdir) (ts : List Token) (room : b.out < maxShellVar) :
    (runTokens currdir ts b).out = maxShellVar - 1 ↔ b.out = maxShellVar - 1 ∨
      ∃ before after, ts = before ++ .dir :: after ∧ b.out + (expand currdir before).length < maxShellVar - 2 ∧
        maxShellVar - 2 < b.out + (expand currdir before).length + currdir.length := by
  induction ts generalizing b with
  | nil =>
      refine (or_iff_left ?_).symm
      rintro ⟨before, after, split, -⟩
      exact absurd split (by simp)
  | cons t ts ih =>
      by_cases more : b.out < maxShellVar - 2
      · rw [runTokens, if_pos more]
        have moved := step_out nulFree more t
        rw [ih (by omega)]
        constructor
        · rintro (last | ⟨before, after, rfl, starts, ends⟩)
          · have long : 1 < (t.text currdir).length := by omega
            cases t with
            | dir =>
                change (step currdir b .dir).out = min (b.out + currdir.length) (maxShellVar - 1) at moved
                refine .inr ⟨[], ts, rfl, more, ?_⟩
                change maxShellVar - 2 < b.out + 0 + currdir.length
                omega
            | plain c => exact absurd long (Nat.lt_irrefl 1)
            | percent => exact absurd long (Nat.lt_irrefl 1)
            | stray => exact absurd long (Nat.not_lt_zero 1)
          · refine .inr ⟨t :: before, after, rfl, ?_, ?_⟩
            all_goals rw [expand_cons, List.length_append]; omega
        · rintro (last | ⟨before, after, split, starts, ends⟩)
          · omega
          · cases before with
            | nil =>
                obtain ⟨rfl, rfl⟩ := List.cons.inj split
                change _ = min (b.out + currdir.length) _ at moved
                change _ < b.out + 0 + currdir.length at ends
                exact .inl (by omega)
            | cons t' before =>
                obtain ⟨rfl, rfl⟩ := List.cons.inj split
                rw [expand_cons, List.length_append] at starts ends
                exact .inr ⟨before, after, rfl, by omega, by omega⟩
      · rw [runTokens_full more]
        refine (or_iff_left ?_).symm
        rintro ⟨before, after, -, starts, -⟩
        omega

theorem mem_of_plain {prompt : Bytes} {x : UInt8} (mem : .plain x ∈ tokens prompt) : x ∈ prompt := by
  fun_induction tokens prompt with
  | case1 => exact absurd mem List.not_mem_nil
  | case2 c =>
      by_cases percent : c = 37
      · simp [percent] at mem
      · simpa [percent] using mem
  | case3 rest ih => exact .tail _ (.tail _ (ih (by simpa using mem)))
  | case4 rest other ih => exact .tail _ (.tail _ (ih (by simpa using mem)))
  | case5 d rest percent dir ih => exact .tail _ (ih (by simpa using mem))
  | case6 c d rest plain ih =>
      rcases List.mem_cons.mp mem with same | mem
      · rw [Token.plain.inj same]
        exact .head _
      · exact .tail _ (ih mem)

theorem expand_nulFree (nulFree : 0 ∉ currdir) {prompt : Bytes} (nulFree' : 0 ∉ prompt) :
    0 ∉ expand currdir (tokens prompt) := by
  intro mem
  obtain ⟨t, token, nul⟩ := List.mem_flatMap.mp mem
  cases t with
  | plain c =>
      obtain rfl : 0 = c := List.mem_singleton.mp nul
      exact nulFree' (mem_of_plain token)
  | percent => exact absurd (List.mem_singleton.mp nul) (by decide)
  | dir => exact nulFree nul
  | stray => exact List.not_mem_nil nul

end Run

/-! ## The whole prompt -/

/-- Inside the array, and the text as it should be between the marks. -/
def Faithful (ttymode pcterm : Bool) (currdir prompt : CStr) (stack : Nat → UInt8) : Prop :=
  ∀ b line, printPrompt ttymode pcterm currdir prompt stack = some (b, line) →
    b.InBounds ∧ ∃ text, line = wrapped pcterm text ++ [32] ∧
      Cut (if pcterm then 1 else 0) text (expand currdir.text (tokens prompt.text))

section Whole

variable {b : Buffer}

theorem mark_front (pcterm : Bool) (b : Buffer) :
    (b.mark pcterm).front = b.front ++ if pcterm then [passprompt] else [] := by
  cases pcterm with
  | false => exact (List.append_nil _).symm
  | true => exact Buffer.front_put b passprompt

theorem printed_eq (room : b.out ≤ maxShellVar) (nulFree : 0 ∉ b.front) : printed (b.set b.out 0) = b.front ++ [32] := by
  have behind : maxShellVar + 1 = b.out + (maxShellVar - b.out + 1) := by omega
  have before : (b.set b.out 0).front = b.front :=
    Buffer.front_congr rfl fun i less => Function.update_of_ne less.ne _ _
  have ends : (b.set b.out 0).tmp b.out = 0 := Function.update_self _ _ _
  rw [printed, behind, List.range_add, List.map_append, List.range_succ_eq_map]
  change List.takeWhile _ ((b.set b.out 0).front ++ _) ++ _ = _
  rw [before, List.takeWhile_append_of_pos (ne_of_before nulFree)]
  simp [ends]

theorem filled_spec (pcterm : Bool) (currdir prompt : CStr) (stack : Nat → UInt8) :
    ((filled pcterm currdir prompt stack).InBounds ↔ ¬ pcterm ∨ ¬ Overruns currdir prompt) ∧
      ∃ text, printed (filled pcterm currdir prompt stack) = wrapped pcterm text ++ [32] ∧
        Cut (if pcterm then 1 else 0) text (expand currdir.text (tokens prompt.text)) := by
  have size : maxShellVar = 128 := rfl
  generalize opened : Buffer.mark pcterm ⟨stack, 0, []⟩ = b₀
  have front₀ : b₀.front = if pcterm then [passprompt] else [] := by rw [← opened, mark_front]; rfl
  have out₀ : b₀.out = if pcterm then 1 else 0 := by
    rw [← opened]
    cases pcterm with
    | false => rfl
    | true => rfl
  have bounds₀ : b₀.InBounds := by
    rw [← opened]
    cases pcterm with
    | false => exact fun i mem => absurd mem List.not_mem_nil
    | true =>
        have empty : Buffer.InBounds ⟨stack, 0, []⟩ := fun i mem => absurd mem List.not_mem_nil
        exact @Buffer.put_inBounds ⟨stack, 0, []⟩ passprompt empty (show 0 < maxShellVar by decide)
  have room₀ : b₀.out < maxShellVar := by
    rw [out₀]
    split
    all_goals decide
  obtain ⟨bounds, room, text, front, cut⟩ := runTokens_spec currdir.nulFree (tokens prompt.text) bounds₀ room₀
  have last := runTokens_last currdir.nulFree (tokens prompt.text) room₀
  have looped : filled pcterm currdir prompt stack =
      ((runTokens currdir.text (tokens prompt.text) b₀).mark pcterm).set
        ((runTokens currdir.text (tokens prompt.text) b₀).mark pcterm).out 0 := by
    rw [filled, opened, loop_eq]
  rw [looped]
  generalize runTokens currdir.text (tokens prompt.text) b₀ = b₁ at bounds room front last ⊢
  rw [front₀] at front
  rw [out₀] at last cut
  have nulFree : 0 ∉ text := fun mem => expand_nulFree currdir.nulFree prompt.nulFree (cut.1.subset mem)
  cases pcterm with
  | false =>
      change b₁.front = text at front
      refine ⟨iff_of_true (Buffer.set_inBounds bounds room) (.inl Bool.false_ne_true), text, ?_, cut⟩
      exact (printed_eq room.le (front ▸ nulFree)).trans (congrArg (· ++ [32]) front)
  | true =>
      change b₁.front = passprompt :: text at front
      have ends : b₁.out = maxShellVar - 1 ↔ Overruns currdir prompt := last.trans (or_iff_right (by decide))
      refine ⟨?_, text, ?_, cut⟩
      · rw [or_iff_right (not_not.mpr rfl), ← ends]
        constructor
        · intro inside full
          have written := inside (b₁.out + 1) (List.mem_append_right _ (List.mem_singleton_self _))
          omega
        · intro free
          have closed : (b₁.put passprompt).InBounds := Buffer.put_inBounds bounds room
          have behind : b₁.out + 1 < maxShellVar := by omega
          exact Buffer.set_inBounds closed behind
      · have closed : (b₁.put passprompt).front = wrapped true text := by
          rw [Buffer.front_put, front]
          rfl
        have nulFree' : 0 ∉ (b₁.put passprompt).front := by
          rw [closed]
          simp [wrapped, passprompt, nulFree]
        have behind : (b₁.put passprompt).out ≤ maxShellVar := room
        exact (printed_eq behind nulFree').trans (congrArg (· ++ [32]) closed)

end Whole

def defaultPrompt : CStr := .ofBytes (ascii "psplink %d>")

def deepDir : CStr := .ofBytes (List.replicate 118 97)

end Psplink.Shell.Prompt
