import Mathlib.Data.List.Basic
import Psplink.Lib.CStr

/-!
# Prompts from the PSP

`read_socket` of pcterm/pcterm.c in prompt-wait mode. A prompt stands between two marks; it may arrive in pieces.
-/

namespace Psplink.Pcterm
open Psplink.Lib

abbrev passprompt : UInt8 := 255

/-! ## The code -/

inductive Array where
  | linebuf | prompt | buf
deriving DecidableEq

def Array.size : Array → Nat
  | .linebuf => 16 * 1024
  | .prompt => 1024
  | .buf => 1024

structure Write where
  array : Array
  start : Nat
  count : Nat

/-- What `read_socket` keeps, what it has shown and installed, and where it has written. -/
structure State where
  linebuf : Bytes
  pos : Nat
  echo : Bytes
  prompts : List Bytes
  writes : List Write

namespace State

def write (s : State) (array : Array) (start count : Nat) : State := { s with writes := s.writes ++ [⟨array, start, count⟩] }

def print (s : State) (text : Bytes) : State := { s with echo := s.echo ++ text }

def install (s : State) (prompt : Bytes) : State := { s with prompts := s.prompts ++ [prompt] }

end State

/-- `strchr` for a mark: what is before it, and what is behind it. -/
def strchr : Bytes → Option (Bytes × Bytes)
  | [] => none
  | c :: text => if c = passprompt then some ([], text) else (strchr text).map fun (front, rest) => (c :: front, rest)

def readSocket (s : State) (piece : Bytes) : State :=
  let s := (s.write .buf 0 piece.length).write .buf piece.length 1
  let buf := piece.takeWhile (· ≠ 0)
  if s.pos = 0 then
    match strchr buf with
    | none => s.print buf
    | some (start, rest) =>
        match strchr rest with
        | some (prompt, behind) =>
            (((s.write .prompt 0 (prompt.length + 1)).write .buf start.length (behind.length + 1)).print
              (start ++ behind)).install prompt
        | none =>
            { (s.write .linebuf 0 (rest.length + 1)).print start with linebuf := rest, pos := rest.length }
  else
    match strchr buf with
    | some (front, behind) =>
        -- `snprintf`
        let prompt := (s.linebuf ++ front).take (Array.size .prompt - 1)
        { (((s.write .prompt 0 (prompt.length + 1)).write .buf 0 (behind.length + 1)).print behind).install prompt with
          pos := 0 }
    | none =>
        -- `strncat`, which puts its NUL behind the characters that it may copy
        let copied := buf.take (Array.size .linebuf - s.pos)
        let linebuf := (s.linebuf ++ copied).take (Array.size .linebuf - 1)
        { ((s.write .linebuf s.pos (copied.length + 1)).write .linebuf (Array.size .linebuf - 1) 1).print buf with
          linebuf := linebuf, pos := linebuf.length }

def start : State := ⟨[], 0, [], [], []⟩

def run (s : State) (pieces : List Bytes) : State := pieces.foldl readSocket s

/-! ## Streams and their pieces -/

/-- Text, and prompts between two marks each with the text behind them. -/
structure Stream where
  text : Bytes
  chunks : List (Bytes × Bytes)
  unmarked : passprompt ∉ text ∧ ∀ chunk ∈ chunks, passprompt ∉ chunk.1 ∧ passprompt ∉ chunk.2
  short : ∀ chunk ∈ chunks, chunk.1.length < 1023

namespace Stream

variable (stream : Stream)

def bytes : Bytes :=
  stream.text ++ stream.chunks.flatMap fun (prompt, text) => passprompt :: prompt ++ passprompt :: text

def prompts : List Bytes := stream.chunks.map Prod.fst

def others : Bytes := stream.text ++ stream.chunks.flatMap Prod.snd

structure Pieces where
  pieces : List Bytes
  whole : pieces.flatten = stream.bytes
  sizes : ∀ piece ∈ pieces, 0 < piece.length ∧ piece.length < Array.size .buf

end Stream

def Write.InBounds (w : Write) : Prop := w.start + w.count ≤ w.array.size

/-- As if each prompt had arrived in a piece of its own, and within the arrays. -/
def Faithful {stream : Stream} (cut : stream.Pieces) : Prop :=
  (run start cut.pieces).prompts = stream.prompts ∧ (run start cut.pieces).echo = stream.others ∧
    ∀ w ∈ (run start cut.pieces).writes, w.InBounds

/-! ## Pieces that are read as they should be -/

/-- Between prompts there is room for one, whole or begun, though not for its first mark alone; inside one there is its
last mark. -/
def TidyPiece (inside : Bool) (piece : Bytes) : Prop :=
  if inside then piece.count passprompt = 1
  else piece.count passprompt ≤ 2 ∧ ¬ (piece.count passprompt = 1 ∧ piece.getLast? = some passprompt)

def Tidy : Bool → List Bytes → Prop
  | _, [] => True
  | inside, piece :: pieces => TidyPiece inside piece ∧ Tidy (!inside && piece.count passprompt = 1) pieces

/-! ## One call -/

theorem strchr_none {text : Bytes} (found : strchr text = none) : passprompt ∉ text := by
  induction text with
  | nil => exact List.not_mem_nil
  | cons c text ih =>
      by_cases here : c = passprompt
      · rw [strchr, if_pos here] at found
        cases found
      · rw [strchr, if_neg here, Option.map_eq_none_iff] at found
        exact fun mem => (List.mem_cons.mp mem).elim (fun same => here same.symm) (ih found)

theorem strchr_some {text front rest : Bytes} (found : strchr text = some (front, rest)) :
    text = front ++ passprompt :: rest ∧ passprompt ∉ front := by
  induction text generalizing front with
  | nil => cases found
  | cons c text ih =>
      by_cases here : c = passprompt
      · rw [strchr, if_pos here] at found
        obtain ⟨rfl, rfl⟩ := Prod.mk.inj (Option.some.inj found)
        exact ⟨congrArg (· :: text) here, List.not_mem_nil⟩
      · rw [strchr, if_neg here] at found
        obtain ⟨⟨front', rest'⟩, found', same⟩ := Option.map_eq_some_iff.mp found
        obtain ⟨rfl, rfl⟩ := Prod.mk.inj same
        obtain ⟨split, clear⟩ := ih found'
        refine ⟨congrArg (c :: ·) split, fun mem => ?_⟩
        exact (List.mem_cons.mp mem).elim (fun same => here same.symm) clear

/-- The part of a prompt that has come so far. -/
def State.held (s : State) : Bytes := if s.pos = 0 then [] else s.linebuf

/-- The line is a C string without a mark, and the position in it is its end unless it is zero. -/
structure State.Sound (s : State) : Prop where
  unmarked : passprompt ∉ s.linebuf
  nulFree : 0 ∉ s.linebuf
  pos : s.pos = 0 ∨ s.pos = s.linebuf.length

theorem held_of_length {s : State} (length : s.pos = s.linebuf.length) : s.held = s.linebuf := by
  rw [State.held, length]
  split
  · next none_ => exact (List.length_eq_zero_iff.mp none_).symm
  · rfl

/-- What a call does with the text of a piece. -/
inductive Reads (s : State) (buf : Bytes) (s' : State) : Prop
  | plain (closed : s.pos = 0) (unmarked : passprompt ∉ buf) (held : s'.held = []) (pos : s'.pos = 0)
      (echo : s'.echo = s.echo ++ buf) (prompts : s'.prompts = s.prompts)
  | opened (front rest : Bytes) (closed : s.pos = 0) (text : buf = front ++ passprompt :: rest)
      (unmarked : passprompt ∉ front ∧ passprompt ∉ rest) (held : s'.held = rest) (pos : s'.pos = rest.length)
      (echo : s'.echo = s.echo ++ front) (prompts : s'.prompts = s.prompts)
  | whole (front prompt behind : Bytes) (closed : s.pos = 0)
      (text : buf = front ++ passprompt :: prompt ++ passprompt :: behind)
      (unmarked : passprompt ∉ front ∧ passprompt ∉ prompt) (held : s'.held = []) (pos : s'.pos = 0)
      (echo : s'.echo = s.echo ++ (front ++ behind)) (prompts : s'.prompts = s.prompts ++ [prompt])
  | middle (inside : s.pos ≠ 0) (unmarked : passprompt ∉ buf) (echo : s'.echo = s.echo ++ buf)
      (prompts : s'.prompts = s.prompts)
      (held : (∀ w ∈ s'.writes, w.InBounds) → s'.held = s.held ++ buf ∧ s'.pos = s.pos + buf.length)
  | ended (front behind : Bytes) (inside : s.pos ≠ 0) (text : buf = front ++ passprompt :: behind)
      (unmarked : passprompt ∉ front) (held : s'.held = []) (pos : s'.pos = 0) (echo : s'.echo = s.echo ++ behind)
      (prompts : s'.prompts = s.prompts ++ [(s.held ++ front).take 1023])

theorem reads {s : State} (sound : s.Sound) (piece : Bytes) :
    Reads s (piece.takeWhile (· ≠ 0)) (readSocket s piece) ∧ (readSocket s piece).Sound := by
  have nulFree := CStr.takeWhile_nulFree piece
  unfold readSocket
  generalize piece.takeWhile (· ≠ 0) = buf at nulFree
  dsimp only [State.write, State.print, State.install]
  by_cases closed : s.pos = 0
  · rw [if_pos closed]
    cases first : strchr buf with
    | none =>
        exact ⟨.plain closed (strchr_none first) (if_pos closed) closed rfl rfl, sound.unmarked, sound.nulFree, sound.pos⟩
    | some found =>
        obtain ⟨front, rest⟩ := found
        obtain ⟨text, clear⟩ := strchr_some first
        dsimp only
        cases second : strchr rest with
        | none =>
            have unmarked := strchr_none second
            have nulFree' : 0 ∉ rest := fun mem => nulFree (text ▸ List.mem_append_right _ (.tail _ mem))
            exact ⟨.opened front rest closed text ⟨clear, unmarked⟩ (held_of_length rfl) rfl rfl rfl, unmarked, nulFree',
              .inr rfl⟩
        | some found =>
            obtain ⟨prompt, behind⟩ := found
            obtain ⟨text', clear'⟩ := strchr_some second
            have whole : buf = front ++ passprompt :: prompt ++ passprompt :: behind := by
              rw [text, text', List.append_assoc]
              rfl
            exact ⟨.whole front prompt behind closed whole ⟨clear, clear'⟩ (if_pos closed) closed rfl rfl,
              sound.unmarked, sound.nulFree, sound.pos⟩
  · rw [if_neg closed]
    have length := sound.pos.resolve_left closed
    have held : s.held = s.linebuf := if_neg closed
    cases first : strchr buf with
    | none =>
        have unmarked := strchr_none first
        have clear : passprompt ∉ (s.linebuf ++ buf.take (Array.size .linebuf - s.pos)).take (Array.size .linebuf - 1) :=
          fun mem => (List.mem_append.mp (List.mem_of_mem_take mem)).elim sound.unmarked fun mem =>
            unmarked (List.mem_of_mem_take mem)
        have nulFree' : 0 ∉ (s.linebuf ++ buf.take (Array.size .linebuf - s.pos)).take (Array.size .linebuf - 1) :=
          fun mem => (List.mem_append.mp (List.mem_of_mem_take mem)).elim sound.nulFree fun mem =>
            nulFree (List.mem_of_mem_take mem)
        refine ⟨.middle closed unmarked rfl rfl fun inside => ?_, clear, nulFree', .inr rfl⟩
        have last := inside ⟨.linebuf, s.pos, (buf.take (Array.size .linebuf - s.pos)).length + 1⟩ (by simp)
        have fits : s.pos + ((buf.take (Array.size .linebuf - s.pos)).length + 1) ≤ Array.size .linebuf := last
        rw [List.length_take] at fits
        have size : Array.size .linebuf = 16384 := rfl
        have whole : (s.linebuf ++ buf.take (Array.size .linebuf - s.pos)).take (Array.size .linebuf - 1) =
            s.linebuf ++ buf := by
          rw [List.take_of_length_le (show buf.length ≤ _ by omega), List.take_of_length_le]
          rw [List.length_append]
          omega
        refine ⟨?_, ?_⟩
        · rw [held_of_length rfl, held]
          exact whole
        · change ((s.linebuf ++ buf.take _).take _).length = _
          rw [whole, List.length_append, length]
    | some found =>
        obtain ⟨front, behind⟩ := found
        obtain ⟨text, clear⟩ := strchr_some first
        refine ⟨.ended front behind closed text clear rfl rfl rfl ?_, sound.unmarked, sound.nulFree, .inl rfl⟩
        rw [held]
        rfl

theorem reads_whole {s : State} (sound : s.Sound) {piece : Bytes} (nulFree : 0 ∉ piece) :
    Reads s piece (readSocket s piece) := by
  have step := (reads sound piece).1
  rwa [takeWhile_whole nulFree] at step

theorem inBounds_of_le {array : Array} {start count : Nat} (fits : start + count ≤ array.size) :
    Write.InBounds ⟨array, start, count⟩ := fits

/-- Nothing is written behind an array but by `strncat`. -/
theorem writes_inBounds {s : State} {piece : Bytes} (size : piece.length < Array.size .buf)
    (cases_ : s.pos = 0 ∨ passprompt ∈ piece.takeWhile (· ≠ 0)) (before : ∀ w ∈ s.writes, w.InBounds) :
    ∀ w ∈ (readSocket s piece).writes, w.InBounds := by
  have short : (piece.takeWhile (· ≠ 0)).length ≤ piece.length := (List.takeWhile_sublist _).length_le
  unfold readSocket
  generalize piece.takeWhile (· ≠ 0) = buf at short cases_
  dsimp only [State.write, State.print, State.install]
  have bufSize : Array.size .buf = 1024 := rfl
  have promptSize : Array.size .prompt = 1024 := rfl
  have lineSize : Array.size .linebuf = 16384 := rfl
  have read : ∀ w ∈ s.writes ++ [⟨.buf, 0, piece.length⟩] ++ [⟨.buf, piece.length, 1⟩], w.InBounds := by
    simp only [List.forall_mem_append, List.forall_mem_singleton]
    exact ⟨⟨before, inBounds_of_le (by omega)⟩, inBounds_of_le (by omega)⟩
  by_cases closed : s.pos = 0
  · rw [if_pos closed]
    cases first : strchr buf with
    | none => exact read
    | some found =>
        obtain ⟨front, rest⟩ := found
        have length := congrArg List.length (strchr_some first).1
        rw [List.length_append, List.length_cons] at length
        dsimp only
        cases second : strchr rest with
        | none =>
            exact List.forall_mem_append.mpr ⟨read, List.forall_mem_singleton.mpr (inBounds_of_le (by omega))⟩
        | some found =>
            obtain ⟨prompt, behind⟩ := found
            have length' := congrArg List.length (strchr_some second).1
            rw [List.length_append, List.length_cons] at length'
            refine List.forall_mem_append.mpr ⟨List.forall_mem_append.mpr ⟨read, ?_⟩, ?_⟩
            all_goals exact List.forall_mem_singleton.mpr (inBounds_of_le (by omega))
  · rw [if_neg closed]
    cases first : strchr buf with
    | none => exact absurd (cases_.resolve_left closed) (strchr_none first)
    | some found =>
        obtain ⟨front, behind⟩ := found
        have length := congrArg List.length (strchr_some first).1
        rw [List.length_append, List.length_cons] at length
        have cut := List.length_take_le (Array.size .prompt - 1) (s.linebuf ++ front)
        refine List.forall_mem_append.mpr ⟨List.forall_mem_append.mpr ⟨read, ?_⟩, ?_⟩
        all_goals exact List.forall_mem_singleton.mpr (inBounds_of_le (by omega))

/-! ## Byte by byte -/

/-- What there is of the prompt that has begun, the prompts that have ended, and everything else. -/
structure Scan where
  inside : Option Bytes
  prompts : List Bytes
  echo : Bytes

def Scan.step (σ : Scan) (c : UInt8) : Scan :=
  match σ.inside with
  | none => if c = passprompt then { σ with inside := some [] } else { σ with echo := σ.echo ++ [c] }
  | some prompt =>
      if c = passprompt then { σ with inside := none, prompts := σ.prompts ++ [prompt] }
      else { σ with inside := some (prompt ++ [c]) }

def scan (σ : Scan) (text : Bytes) : Scan := text.foldl Scan.step σ

section Scans

variable {prompts : List Bytes} {echo prompt : Bytes}

theorem scan_append (σ : Scan) (front rest : Bytes) : scan σ (front ++ rest) = scan (scan σ front) rest :=
  List.foldl_append

theorem scan_text {text : Bytes} (unmarked : passprompt ∉ text) :
    scan ⟨none, prompts, echo⟩ text = ⟨none, prompts, echo ++ text⟩ := by
  induction text generalizing echo with
  | nil => rw [List.append_nil]; rfl
  | cons c text ih =>
      rw [List.mem_cons, not_or] at unmarked
      obtain ⟨differ, rest⟩ := unmarked
      have next : Scan.step ⟨none, prompts, echo⟩ c = ⟨none, prompts, echo ++ [c]⟩ := if_neg (Ne.symm differ)
      rw [scan, List.foldl_cons, next]
      exact (ih rest).trans (by rw [List.append_assoc]; rfl)

theorem scan_prompt {text : Bytes} (unmarked : passprompt ∉ text) :
    scan ⟨some prompt, prompts, echo⟩ text = ⟨some (prompt ++ text), prompts, echo⟩ := by
  induction text generalizing prompt with
  | nil => rw [List.append_nil]; rfl
  | cons c text ih =>
      rw [List.mem_cons, not_or] at unmarked
      obtain ⟨differ, rest⟩ := unmarked
      have next : Scan.step ⟨some prompt, prompts, echo⟩ c = ⟨some (prompt ++ [c]), prompts, echo⟩ :=
        if_neg (Ne.symm differ)
      rw [scan, List.foldl_cons, next]
      exact (ih rest).trans (by rw [List.append_assoc]; rfl)

theorem scan_open {front rest : Bytes} (unmarked : passprompt ∉ front ∧ passprompt ∉ rest) :
    scan ⟨none, prompts, echo⟩ (front ++ passprompt :: rest) = ⟨some rest, prompts, echo ++ front⟩ := by
  rw [scan_append, scan_text unmarked.1]
  exact scan_prompt unmarked.2

theorem scan_close {front behind : Bytes} (unmarked : passprompt ∉ front ∧ passprompt ∉ behind) :
    scan ⟨some prompt, prompts, echo⟩ (front ++ passprompt :: behind) =
      ⟨none, prompts ++ [prompt ++ front], echo ++ behind⟩ := by
  rw [scan_append, scan_prompt unmarked.1]
  exact scan_text unmarked.2

end Scans

/-- Byte by byte a stream gives its prompts and its other bytes. -/
theorem scan_stream (stream : Stream) :
    scan ⟨none, [], []⟩ stream.bytes = ⟨none, stream.prompts, stream.others⟩ := by
  have chunks (chunks : List (Bytes × Bytes)) (prompts : List Bytes) (echo : Bytes)
      (unmarked : ∀ chunk ∈ chunks, passprompt ∉ chunk.1 ∧ passprompt ∉ chunk.2) :
      scan ⟨none, prompts, echo⟩
          (chunks.flatMap fun (prompt, text) => passprompt :: prompt ++ passprompt :: text) =
        ⟨none, prompts ++ chunks.map Prod.fst, echo ++ chunks.flatMap Prod.snd⟩ := by
    induction chunks generalizing prompts echo with
    | nil => simp [scan]
    | cons chunk chunks ih =>
        obtain ⟨first, rest⟩ := List.forall_mem_cons.mp unmarked
        have opened := @scan_open prompts echo [] chunk.1 ⟨List.not_mem_nil, first.1⟩
        have closed := @scan_close prompts (echo ++ []) chunk.1 [] chunk.2 ⟨List.not_mem_nil, first.2⟩
        rw [List.nil_append] at opened closed
        rw [List.flatMap_cons, scan_append, scan_append, opened, closed, ih _ _ rest]
        simp
  rw [Stream.bytes, scan_append, scan_text stream.unmarked.1]
  exact chunks stream.chunks [] ([] ++ stream.text) stream.unmarked.2

/-! ## Tidy pieces -/

/-- The call has come as far as byte by byte; a prompt is cut where it has no room. -/
structure Follows (s : State) (σ : Scan) : Prop where
  sound : s.Sound
  inside : σ.inside = if s.pos = 0 then none else some s.held
  echo : s.echo = σ.echo
  prompts : s.prompts = σ.prompts.map (List.take 1023)

theorem count_marked {front rest : Bytes} (unmarked : passprompt ∉ front) :
    (front ++ passprompt :: rest).count passprompt = rest.count passprompt + 1 := by
  rw [List.count_append, List.count_eq_zero.mpr unmarked, List.count_cons_self, Nat.zero_add]

theorem count_whole {front prompt behind : Bytes} (unmarked : passprompt ∉ front ∧ passprompt ∉ prompt) :
    (front ++ passprompt :: prompt ++ passprompt :: behind).count passprompt = behind.count passprompt + 2 := by
  rw [List.append_assoc, List.cons_append, count_marked unmarked.1, count_marked unmarked.2]

theorem tidy_closed {s : State} {piece : Bytes} (closed : s.pos = 0) (tidy : TidyPiece (s.pos ≠ 0) piece) :
    piece.count passprompt ≤ 2 ∧ ¬ (piece.count passprompt = 1 ∧ piece.getLast? = some passprompt) := by
  simpa [TidyPiece, closed] using tidy

theorem tidy_open {s : State} {piece : Bytes} (open_ : s.pos ≠ 0) (tidy : TidyPiece (s.pos ≠ 0) piece) :
    piece.count passprompt = 1 := by
  simpa [TidyPiece, open_] using tidy

/-- What a tidy piece does, and whether a prompt is open behind it. -/
theorem follows_read {s : State} {σ : Scan} {piece : Bytes} (follows : Follows s σ) (nulFree : 0 ∉ piece)
    (short : piece.length < 1024) (tidy : TidyPiece (s.pos ≠ 0) piece) :
    Follows (readSocket s piece) (scan σ piece) ∧
      decide ((readSocket s piece).pos ≠ 0) = (!decide (s.pos ≠ 0) && piece.count passprompt = 1) ∧
      (s.pos = 0 ∨ passprompt ∈ piece) := by
  obtain ⟨inside, prompts, echo⟩ := σ
  have sound := (reads follows.sound piece).2
  have inside_ : inside = if s.pos = 0 then none else some s.held := follows.inside
  have echo_ : s.echo = echo := follows.echo
  have prompts_ : s.prompts = prompts.map (List.take 1023) := follows.prompts
  cases reads_whole follows.sound nulFree with
  | plain closed unmarked held pos echo' prompts' =>
      rw [if_pos closed] at inside_
      rw [inside_, scan_text unmarked]
      refine ⟨⟨sound, (if_pos pos).symm, by rw [echo', echo_], by rw [prompts', prompts_]⟩, ?_, .inl closed⟩
      rw [List.count_eq_zero.mpr unmarked]
      simp [pos, closed]
  | opened front rest closed split unmarked held pos echo' prompts' =>
      rw [if_pos closed] at inside_
      have one : piece.count passprompt = 1 := by
        rw [split, count_marked unmarked.1, List.count_eq_zero.mpr unmarked.2]
      have some_ : rest ≠ [] := by
        rintro rfl
        have last : piece.getLast? = some passprompt := by rw [split, List.getLast?_append]; rfl
        exact (tidy_closed closed tidy).2 ⟨one, last⟩
      have open_ : (readSocket s piece).pos ≠ 0 := by
        rw [pos]
        exact fun none_ => some_ (List.length_eq_zero_iff.mp none_)
      have scanned : scan ⟨none, prompts, echo⟩ piece = ⟨some rest, prompts, echo ++ front⟩ := by
        rw [split]
        exact scan_open unmarked
      rw [inside_, scanned]
      refine ⟨⟨sound, by rw [if_neg open_, held], by rw [echo', echo_], by rw [prompts', prompts_]⟩, ?_, .inl closed⟩
      simp [open_, closed, one]
  | whole front prompt behind closed split unmarked held pos echo' prompts' =>
      rw [if_pos closed] at inside_
      have count : piece.count passprompt = behind.count passprompt + 2 := by rw [split, count_whole unmarked]
      have clear : passprompt ∉ behind := List.count_eq_zero.mp (by have le := (tidy_closed closed tidy).1; omega)
      have room : prompt.take 1023 = prompt := List.take_of_length_le (by
        have length := congrArg List.length split
        simp only [List.length_append, List.length_cons] at length
        omega)
      have scanned : scan ⟨none, prompts, echo⟩ piece = ⟨none, prompts ++ [prompt], echo ++ (front ++ behind)⟩ := by
        have closes := @scan_close prompts (echo ++ front) prompt [] behind ⟨List.not_mem_nil, clear⟩
        rw [List.nil_append, List.append_nil, List.append_assoc] at closes
        rw [split, scan_append, scan_open unmarked, closes]
      rw [inside_, scanned]
      refine ⟨⟨sound, (if_pos pos).symm, by rw [echo', echo_], ?_⟩, ?_, .inl closed⟩
      · rw [prompts', prompts_, List.map_append, List.map_singleton, room]
      · simp [pos, closed, count]
  | middle open_ unmarked echo' prompts' held =>
      have one := tidy_open open_ tidy
      rw [List.count_eq_zero.mpr unmarked] at one
      cases one
  | ended front behind open_ split unmarked held pos echo' prompts' =>
      rw [if_neg open_] at inside_
      have count : piece.count passprompt = behind.count passprompt + 1 := by rw [split, count_marked unmarked]
      have clear : passprompt ∉ behind := List.count_eq_zero.mp (by have one := tidy_open open_ tidy; omega)
      have scanned : scan ⟨some s.held, prompts, echo⟩ piece =
          ⟨none, prompts ++ [s.held ++ front], echo ++ behind⟩ := by
        rw [split]
        exact scan_close ⟨unmarked, clear⟩
      have marked : passprompt ∈ piece := by rw [split]; simp
      rw [inside_, scanned]
      refine ⟨⟨sound, (if_pos pos).symm, by rw [echo', echo_], ?_⟩, ?_, .inr marked⟩
      · rw [prompts', prompts_, List.map_append, List.map_singleton]
      · simp [pos, open_]

theorem follows_run {s : State} {σ : Scan} {pieces : List Bytes} (follows : Follows s σ)
    (nulFree : ∀ piece ∈ pieces, 0 ∉ piece) (short : ∀ piece ∈ pieces, piece.length < 1024)
    (tidy : Tidy (s.pos ≠ 0) pieces) (bounds : ∀ w ∈ s.writes, w.InBounds) :
    Follows (run s pieces) (scan σ pieces.flatten) ∧ ∀ w ∈ (run s pieces).writes, w.InBounds := by
  induction pieces generalizing s σ with
  | nil => exact ⟨follows, bounds⟩
  | cons piece pieces ih =>
      obtain ⟨clean, nulFree⟩ := List.forall_mem_cons.mp nulFree
      obtain ⟨fits, short⟩ := List.forall_mem_cons.mp short
      obtain ⟨next, flag, marked⟩ := follows_read follows clean fits tidy.1
      rw [List.flatten_cons, scan_append]
      refine ih next nulFree short ?_ (writes_inBounds fits ((takeWhile_whole clean).symm ▸ marked) bounds)
      rw [flag]
      exact tidy.2

/-! ## Pieces that are not tidy -/

theorem writes_before (s : State) (piece : Bytes) : s.writes <+: (readSocket s piece).writes := by
  unfold readSocket
  generalize piece.takeWhile (· ≠ 0) = buf
  dsimp only [State.write, State.print, State.install]
  split
  · split
    · simp
    · split
      all_goals simp
  · split
    all_goals simp

def total (prompts : List Bytes) : Nat := (prompts.map List.length).sum

def State.opens (s : State) : Nat := if s.pos = 0 then 0 else 1

/-- Nothing that has been done so far is wrong in itself. -/
def Possible (s : State) : Prop := (∀ prompt ∈ s.prompts, prompt.length < 1023) ∧ ∀ w ∈ s.writes, w.InBounds

theorem possible_of_read {s : State} (sound : s.Sound) {piece : Bytes} (possible : Possible (readSocket s piece)) :
    Possible s := by
  refine ⟨fun prompt mem => possible.1 prompt ?_, fun w mem => possible.2 w ((writes_before s piece).subset mem)⟩
  cases (reads sound piece).1 with
  | plain _ _ _ _ _ prompts => exact prompts ▸ mem
  | opened _ _ _ _ _ _ _ _ prompts => exact prompts ▸ mem
  | whole _ _ _ _ _ _ _ _ _ prompts => exact prompts ▸ List.mem_append_left _ mem
  | middle _ _ _ prompts => exact prompts ▸ mem
  | ended _ _ _ _ _ _ _ _ prompts => exact prompts ▸ List.mem_append_left _ mem

theorem possible_of_run {s : State} (sound : s.Sound) {pieces : List Bytes} (possible : Possible (run s pieces)) :
    Possible s := by
  induction pieces generalizing s with
  | nil => exact possible
  | cons piece pieces ih => exact possible_of_read sound (ih (reads sound piece).2 possible)

/-- How the marks and the bytes of a piece are accounted for: the first marks that are lost at the end of a piece and the
bytes that are both shown and kept come in addition. -/
structure Account (s s' : State) (text : Bytes) (lost doubled : Nat) : Prop where
  marks : s.opens + text.count passprompt + s.echo.count passprompt + 2 * s.prompts.length =
    s'.echo.count passprompt + 2 * s'.prompts.length + lost + s'.opens
  bytes : s.held.length + s.opens + text.length + doubled + s.echo.length + total s.prompts + 2 * s.prompts.length =
    s'.echo.length + total s'.prompts + 2 * s'.prompts.length + lost + s'.held.length + s'.opens

theorem Account.trans {s s' s'' : State} {text text' : Bytes} {lost lost' doubled doubled' : Nat}
    (first : Account s s' text lost doubled) (second : Account s' s'' text' lost' doubled') :
    Account s s'' (text ++ text') (lost + lost') (doubled + doubled') := by
  obtain ⟨marks, bytes⟩ := first
  obtain ⟨marks', bytes'⟩ := second
  refine ⟨?_, ?_⟩
  · rw [List.count_append]
    omega
  · rw [List.length_append]
    omega

theorem total_concat (prompts : List Bytes) (prompt : Bytes) :
    total (prompts ++ [prompt]) = total prompts + prompt.length := by
  simp [total]

/-- A piece that loses and doubles nothing and shows no mark is tidy. -/
def Accounted (s s' : State) (piece : Bytes) : Prop :=
  ∃ lost doubled, Account s s' piece lost doubled ∧ s.echo.count passprompt ≤ s'.echo.count passprompt ∧
    (lost = 0 → doubled = 0 → s'.echo.count passprompt = s.echo.count passprompt →
      TidyPiece (s.pos ≠ 0) piece ∧ decide (s'.pos ≠ 0) = (!decide (s.pos ≠ 0) && piece.count passprompt = 1))

section Accounts

variable {s s' : State} {piece front rest prompt behind : Bytes}

theorem accounted_plain (closed : s.pos = 0) (unmarked : passprompt ∉ piece) (held : s'.held = []) (pos : s'.pos = 0)
    (echo : s'.echo = s.echo ++ piece) (prompts : s'.prompts = s.prompts) : Accounted s s' piece := by
  have none_ := List.count_eq_zero.mpr unmarked
  refine ⟨0, 0, ⟨?_, ?_⟩, ?_, fun _ _ _ => ⟨?_, ?_⟩⟩
  · rw [echo, prompts, List.count_append, none_, State.opens, State.opens, if_pos closed, if_pos pos]
    omega
  · rw [echo, prompts, held, List.length_append, State.opens, State.opens, State.held, if_pos closed, if_pos closed,
      if_pos pos]
    omega
  · rw [echo, List.count_append]
    exact Nat.le_add_right _ _
  · simp [TidyPiece, closed, none_]
  · simp [closed, pos, none_]

/-- The mark of a prompt of which nothing has come is lost. -/
theorem accounted_opened (closed : s.pos = 0) (split : piece = front ++ passprompt :: rest)
    (unmarked : passprompt ∉ front ∧ passprompt ∉ rest) (held : s'.held = rest) (pos : s'.pos = rest.length)
    (echo : s'.echo = s.echo ++ front) (prompts : s'.prompts = s.prompts) : Accounted s s' piece := by
  have none_ := List.count_eq_zero.mpr unmarked.1
  have one : piece.count passprompt = 1 := by
    rw [split, count_marked unmarked.1, List.count_eq_zero.mpr unmarked.2]
  have length : piece.length = front.length + (rest.length + 1) := by rw [split, List.length_append, List.length_cons]
  have opens : (if rest = [] then 1 else 0) + s'.opens = 1 := by
    rw [State.opens, pos]
    cases rest with
    | nil => rfl
    | cons c rest => rfl
  refine ⟨if rest = [] then 1 else 0, 0, ⟨?_, ?_⟩, ?_, fun kept _ _ => ⟨?_, ?_⟩⟩
  · rw [one, echo, prompts, List.count_append, none_, State.opens, if_pos closed]
    omega
  · rw [length, echo, prompts, held, List.length_append, State.opens, State.held, if_pos closed, if_pos closed]
    rw [List.length_nil]
    omega
  · rw [echo, List.count_append]
    exact Nat.le_add_right _ _
  · have some_ : rest ≠ [] := fun none_ => by simp [none_] at kept
    have last : piece.getLast? ≠ some passprompt := by
      have final : piece.getLast? = rest.getLast? := by
        rw [split, List.getLast?_append_of_ne_nil _ (List.cons_ne_nil _ _), List.getLast?_cons_of_ne_nil some_]
      exact fun same => unmarked.2 (List.mem_of_getLast? (final.symm.trans same))
    simp [TidyPiece, closed, one, last]
  · have some_ : rest.length ≠ 0 := fun none_ => by simp [List.length_eq_zero_iff.mp none_] at kept
    simp [closed, pos, one, some_]

theorem accounted_whole (closed : s.pos = 0) (split : piece = front ++ passprompt :: prompt ++ passprompt :: behind)
    (unmarked : passprompt ∉ front ∧ passprompt ∉ prompt) (held : s'.held = []) (pos : s'.pos = 0)
    (echo : s'.echo = s.echo ++ (front ++ behind)) (prompts : s'.prompts = s.prompts ++ [prompt]) :
    Accounted s s' piece := by
  have count : piece.count passprompt = behind.count passprompt + 2 := by rw [split, count_whole unmarked]
  have length : piece.length = front.length + (prompt.length + 1) + (behind.length + 1) := by
    rw [split, List.length_append, List.length_append, List.length_cons, List.length_cons]
  have shown : s'.echo.count passprompt = s.echo.count passprompt + behind.count passprompt := by
    rw [echo, List.count_append, List.count_append, List.count_eq_zero.mpr unmarked.1, Nat.zero_add]
  refine ⟨0, 0, ⟨?_, ?_⟩, by omega, fun _ _ clear => ⟨?_, ?_⟩⟩
  · rw [count, shown, prompts, List.length_append, State.opens, State.opens, if_pos closed, if_pos pos,
      List.length_singleton]
    omega
  · rw [length, echo, prompts, held, List.length_append, List.length_append, List.length_append, total_concat,
      State.opens, State.opens, State.held, if_pos closed, if_pos closed, if_pos pos, List.length_singleton]
    omega
  · have two : piece.count passprompt = 2 := by omega
    simp [TidyPiece, closed, two]
  · simp [closed, pos, count]

theorem accounted_middle (some_ : 0 < piece.length) (open_ : s.pos ≠ 0) (unmarked : passprompt ∉ piece)
    (echo : s'.echo = s.echo ++ piece) (prompts : s'.prompts = s.prompts) (held : s'.held = s.held ++ piece)
    (pos : s'.pos = s.pos + piece.length) : Accounted s s' piece := by
  have none_ := List.count_eq_zero.mpr unmarked
  have open_' : s'.pos ≠ 0 := by omega
  refine ⟨0, piece.length, ⟨?_, ?_⟩, ?_, fun _ nothing _ => absurd nothing some_.ne'⟩
  · rw [none_, echo, prompts, List.count_append, none_, State.opens, State.opens, if_neg open_, if_neg open_']
    omega
  · rw [echo, prompts, held, List.length_append, List.length_append, State.opens, State.opens, if_neg open_,
      if_neg open_']
    omega
  · rw [echo, List.count_append]
    exact Nat.le_add_right _ _

theorem accounted_ended (open_ : s.pos ≠ 0) (split : piece = front ++ passprompt :: behind) (unmarked : passprompt ∉ front)
    (held : s'.held = []) (pos : s'.pos = 0) (echo : s'.echo = s.echo ++ behind)
    (prompts : s'.prompts = s.prompts ++ [s.held ++ front]) : Accounted s s' piece := by
  have count : piece.count passprompt = behind.count passprompt + 1 := by rw [split, count_marked unmarked]
  have length : piece.length = front.length + (behind.length + 1) := by
    rw [split, List.length_append, List.length_cons]
  have shown : s'.echo.count passprompt = s.echo.count passprompt + behind.count passprompt := by
    rw [echo, List.count_append]
  refine ⟨0, 0, ⟨?_, ?_⟩, by omega, fun _ _ clear => ⟨?_, ?_⟩⟩
  · rw [count, shown, prompts, List.length_append, State.opens, State.opens, if_neg open_, if_pos pos,
      List.length_singleton]
    omega
  · rw [length, echo, prompts, held, List.length_append, List.length_append, total_concat, List.length_append,
      State.opens, State.opens, if_neg open_, if_pos pos, List.length_singleton, List.length_nil]
    omega
  · have one : piece.count passprompt = 1 := by omega
    simp [TidyPiece, open_, one]
  · simp [open_, pos]

end Accounts

theorem account_read {s : State} (sound : s.Sound) {piece : Bytes} (nulFree : 0 ∉ piece) (some_ : 0 < piece.length)
    (possible : Possible (readSocket s piece)) : Accounted s (readSocket s piece) piece := by
  cases reads_whole sound nulFree with
  | plain closed unmarked held pos echo prompts => exact accounted_plain closed unmarked held pos echo prompts
  | opened front rest closed split unmarked held pos echo prompts =>
      exact accounted_opened closed split unmarked held pos echo prompts
  | whole front prompt behind closed split unmarked held pos echo prompts =>
      exact accounted_whole closed split unmarked held pos echo prompts
  | middle open_ unmarked echo prompts held =>
      obtain ⟨held, pos⟩ := held possible.2
      exact accounted_middle some_ open_ unmarked echo prompts held pos
  | ended front behind open_ split unmarked held pos echo prompts =>
      -- a prompt that is cut has come to be too long
      have whole : (s.held ++ front).take 1023 = s.held ++ front := by
        have short := possible.1 ((s.held ++ front).take 1023) (by rw [prompts]; simp)
        rw [List.length_take] at short
        exact List.take_of_length_le (by omega)
      rw [whole] at prompts
      exact accounted_ended open_ split unmarked held pos echo prompts

theorem account_run {s : State} (sound : s.Sound) {pieces : List Bytes} (nulFree : ∀ piece ∈ pieces, 0 ∉ piece)
    (some_ : ∀ piece ∈ pieces, 0 < piece.length) (possible : Possible (run s pieces)) :
    ∃ lost doubled, Account s (run s pieces) pieces.flatten lost doubled ∧
      s.echo.count passprompt ≤ (run s pieces).echo.count passprompt ∧
      (lost = 0 → doubled = 0 → (run s pieces).echo.count passprompt = s.echo.count passprompt →
        Tidy (s.pos ≠ 0) pieces) := by
  induction pieces generalizing s with
  | nil => exact ⟨0, 0, ⟨by simp [run]; omega, by simp [run]; omega⟩, Nat.le_refl _, fun _ _ _ => trivial⟩
  | cons piece pieces ih =>
      obtain ⟨clean, nulFree⟩ := List.forall_mem_cons.mp nulFree
      obtain ⟨first, some_⟩ := List.forall_mem_cons.mp some_
      have sound' := (reads sound piece).2
      obtain ⟨lost, doubled, account, grows, tidy⟩ := account_read sound clean first (possible_of_run sound' possible)
      obtain ⟨lost', doubled', account', grows', tidy'⟩ := ih sound' nulFree some_ possible
      refine ⟨lost + lost', doubled + doubled', account.trans account', grows.trans grows', fun none_ none_' same => ?_⟩
      have last : (run (readSocket s piece) pieces).echo.count passprompt = s.echo.count passprompt := same
      obtain ⟨here, flag⟩ := tidy (by omega) (by omega) (by omega)
      refine ⟨here, ?_⟩
      rw [← flag]
      exact tidy' (by omega) (by omega) (by omega)

/-! ## NULs -/

def State.NulFree (s : State) : Prop := 0 ∉ s.echo ∧ ∀ prompt ∈ s.prompts, 0 ∉ prompt

theorem nulFree_read {s : State} (sound : s.Sound) (clean : s.NulFree) (piece : Bytes) :
    (readSocket s piece).NulFree := by
  have text := CStr.takeWhile_nulFree piece
  have held : 0 ∉ s.held := by
    unfold State.held
    split
    · exact List.not_mem_nil
    · exact sound.nulFree
  have step := (reads sound piece).1
  generalize piece.takeWhile (· ≠ 0) = buf at text step
  obtain ⟨echo_, prompts_⟩ := clean
  unfold State.NulFree
  cases step with
  | plain closed unmarked held pos echo prompts =>
      rw [echo, prompts, List.mem_append]
      exact ⟨not_or.mpr ⟨echo_, text⟩, prompts_⟩
  | opened front rest closed split unmarked held pos echo prompts =>
      rw [split, List.mem_append, not_or] at text
      rw [echo, prompts, List.mem_append]
      exact ⟨not_or.mpr ⟨echo_, text.1⟩, prompts_⟩
  | whole front prompt behind closed split unmarked held pos echo prompts =>
      simp only [split, List.mem_append, List.mem_cons, not_or] at text
      obtain ⟨⟨front_, -, prompt_⟩, -, behind_⟩ := text
      rw [echo, prompts, List.mem_append, List.mem_append, List.forall_mem_append, List.forall_mem_singleton]
      exact ⟨not_or.mpr ⟨echo_, not_or.mpr ⟨front_, behind_⟩⟩, prompts_, prompt_⟩
  | middle open_ unmarked echo prompts held =>
      rw [echo, prompts, List.mem_append]
      exact ⟨not_or.mpr ⟨echo_, text⟩, prompts_⟩
  | ended front behind open_ split unmarked held_ pos echo prompts =>
      simp only [split, List.mem_append, List.mem_cons, not_or] at text
      obtain ⟨front_, -, behind_⟩ := text
      rw [echo, prompts, List.mem_append, List.forall_mem_append, List.forall_mem_singleton]
      refine ⟨not_or.mpr ⟨echo_, behind_⟩, prompts_, fun mem => ?_⟩
      exact (List.mem_append.mp (List.mem_of_mem_take mem)).elim held front_

theorem nulFree_run {s : State} (sound : s.Sound) (clean : s.NulFree) (pieces : List Bytes) :
    (run s pieces).NulFree := by
  induction pieces generalizing s with
  | nil => exact clean
  | cons piece pieces ih => exact ih (reads sound piece).2 (nulFree_read sound clean piece)

/-! ## The whole stream -/

namespace Stream

variable {stream : Stream}

theorem nulFree_of_parts (others : 0 ∉ stream.others) (prompts : ∀ prompt ∈ stream.prompts, 0 ∉ prompt) :
    0 ∉ stream.bytes := by
  rw [Stream.others, List.mem_append, not_or] at others
  intro mem
  rcases List.mem_append.mp mem with text | chunks
  · exact others.1 text
  · obtain ⟨chunk, there, nul⟩ := List.mem_flatMap.mp chunks
    simp only [List.mem_append, List.mem_cons] at nul
    rcases nul with (same | prompt) | same | text
    · exact absurd same (by decide)
    · exact prompts _ (List.mem_map_of_mem there) prompt
    · exact absurd same (by decide)
    · exact others.2 (List.mem_flatMap.mpr ⟨chunk, there, text⟩)

theorem unmarked_others (stream : Stream) : passprompt ∉ stream.others := by
  intro mem
  rcases List.mem_append.mp mem with text | chunks
  · exact stream.unmarked.1 text
  · obtain ⟨chunk, there, mark⟩ := List.mem_flatMap.mp chunks
    exact (stream.unmarked.2 chunk there).2 mark

/-- A stream has two marks for each prompt. -/
theorem count_bytes (stream : Stream) : stream.bytes.count passprompt = 2 * stream.prompts.length := by
  have chunks (chunks : List (Bytes × Bytes))
      (unmarked : ∀ chunk ∈ chunks, passprompt ∉ chunk.1 ∧ passprompt ∉ chunk.2) :
      (chunks.flatMap fun (prompt, text) => passprompt :: prompt ++ passprompt :: text).count passprompt =
        2 * chunks.length := by
    induction chunks with
    | nil => rfl
    | cons chunk chunks ih =>
        obtain ⟨first, rest⟩ := List.forall_mem_cons.mp unmarked
        have two := @count_whole [] chunk.1 chunk.2 ⟨List.not_mem_nil, first.1⟩
        rw [List.nil_append, List.count_eq_zero.mpr first.2] at two
        rw [List.flatMap_cons, List.count_append, ih rest, List.length_cons, two]
        omega
  rw [bytes, List.count_append, List.count_eq_zero.mpr stream.unmarked.1, chunks stream.chunks stream.unmarked.2, prompts,
    List.length_map, Nat.zero_add]

theorem length_bytes (stream : Stream) :
    stream.bytes.length = stream.others.length + total stream.prompts + 2 * stream.prompts.length := by
  have chunks (chunks : List (Bytes × Bytes)) :
      (chunks.flatMap fun (prompt, text) => passprompt :: prompt ++ passprompt :: text).length =
        (chunks.flatMap Prod.snd).length + total (chunks.map Prod.fst) + 2 * chunks.length := by
    induction chunks with
    | nil => rfl
    | cons chunk chunks ih =>
        have more : total ((chunk :: chunks).map Prod.fst) = chunk.1.length + total (chunks.map Prod.fst) := List.sum_cons
        rw [List.flatMap_cons, List.length_append, ih, more, List.flatMap_cons, List.length_append, List.length_append,
          List.length_cons, List.length_cons, List.length_cons]
        omega
  rw [bytes, List.length_append, chunks, others, List.length_append, prompts, List.length_map]
  omega

end Stream

theorem start_sound : start.Sound := ⟨List.not_mem_nil, List.not_mem_nil, .inl rfl⟩

theorem two_unmarked : passprompt ∉ ([] : Bytes) ∧
    ∀ chunk ∈ [([97], []), (([98], []) : Bytes × Bytes)], passprompt ∉ chunk.1 ∧ passprompt ∉ chunk.2 := by
  decide

theorem two_short : ∀ chunk ∈ [([97], []), (([98], []) : Bytes × Bytes)], chunk.1.length < 1023 := by decide

def twoPrompts : Stream := ⟨[], [([97], []), ([98], [])], two_unmarked, two_short⟩

theorem two_sizes : ∀ piece ∈ [([255, 97, 255, 255, 98, 255] : Bytes)], 0 < piece.length ∧ piece.length < Array.size .buf := by
  decide

def onePiece : twoPrompts.Pieces := ⟨[[255, 97, 255, 255, 98, 255]], rfl, two_sizes⟩

end Psplink.Pcterm
