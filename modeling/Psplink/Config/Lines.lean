import Psplink.Config.Change

/-!
# Lines of the configuration

What a line that `configChange` writes reads back as, whole or cut short.
-/

namespace Psplink.Config
open Psplink.Lib Psplink.Util

/-! ## Text without an end of line -/

/-- Neither the newline nor the byte that reads as the end of the file. -/
def Smooth (w : Bytes) : Prop := newline ∉ w ∧ 255 ∉ w

theorem Smooth.append {v w : Bytes} (front : Smooth v) (back : Smooth w) : Smooth (v ++ w) := by
  simp only [Smooth, List.mem_append, not_or]
  exact ⟨⟨front.1, back.1⟩, front.2, back.2⟩

theorem Smooth.sublist {v w : Bytes} (smooth : Smooth w) (sub : ∀ b ∈ v, b ∈ w) : Smooth v :=
  ⟨fun mem => smooth.1 (sub _ mem), fun mem => smooth.2 (sub _ mem)⟩

theorem lineOf_append {w : Bytes} (smooth : Smooth w) (room : Nat) (rest : Bytes) :
    lineOf (w.length + room) (w ++ rest) = (w ++ (lineOf room rest).1, (lineOf room rest).2) := by
  induction w with
  | nil => simp
  | cons b w ih =>
      have keep : b ≠ 255 := fun eq => smooth.2 (eq ▸ List.mem_cons_self)
      have inner : b ≠ newline := fun eq => smooth.1 (eq ▸ List.mem_cons_self)
      have tail := ih (smooth.sublist fun _ => List.mem_cons_of_mem _)
      rw [List.length_cons, Nat.add_right_comm, List.cons_append, lineOf, if_neg keep, if_neg inner, tail]
      rfl

/-- A line is smooth but for a newline at its end. -/
theorem lineOf_smooth (room : Nat) (rest : Bytes) :
    ∃ w, Smooth w ∧ ((lineOf room rest).1 = w ∨ (lineOf room rest).1 = w ++ [newline]) ∧
      (lineOf room rest).1.length ≤ room := by
  fun_induction lineOf room rest with
  | case1 => exact ⟨[], ⟨List.not_mem_nil, List.not_mem_nil⟩, .inl rfl, Nat.le_refl _⟩
  | case2 => exact ⟨[], ⟨List.not_mem_nil, List.not_mem_nil⟩, .inl rfl, Nat.zero_le _⟩
  | case3 => exact ⟨[], ⟨List.not_mem_nil, List.not_mem_nil⟩, .inl rfl, Nat.zero_le _⟩
  | case4 => exact ⟨[], ⟨List.not_mem_nil, List.not_mem_nil⟩, .inr rfl, Nat.succ_le_succ (Nat.zero_le _)⟩
  | case5 room b rest keep inner ih =>
      obtain ⟨w, smooth, line, size⟩ := ih
      refine ⟨b :: w, ?_, line.imp (congrArg (b :: ·)) (congrArg (b :: ·)), Nat.succ_le_succ size⟩
      exact ⟨List.not_mem_cons_of_ne_of_not_mem (Ne.symm inner) smooth.1,
        List.not_mem_cons_of_ne_of_not_mem (Ne.symm keep) smooth.2⟩

/-! ## The entries line by line -/

theorem lineEntries_nil : lineEntries [] = [] := rfl

theorem lineEntries_of_line {rest line left : Bytes} (first : lineOf (maxBuffer - 1) rest = (line, left))
    (some : line ≠ []) : lineEntries rest = (readLine line).toList ++ lineEntries left := by
  have cons : linesOf rest = _ := linesOf_cons (by rwa [first])
  rw [first] at cons
  rw [lineEntries, cons, List.filterMap_cons, lineEntries]
  cases readLine line <;> rfl

/-- A line without a newline that fills the buffer. -/
theorem lineEntries_full {w : Bytes} (smooth : Smooth w) (size : w.length = maxBuffer - 1) (rest : Bytes) :
    lineEntries (w ++ rest) = (readLine w).toList ++ lineEntries rest := by
  have first := lineOf_append smooth 0 rest
  rw [Nat.add_zero, size, lineOf, List.append_nil] at first
  refine lineEntries_of_line first ?_
  rintro rfl
  simp at size

theorem stripWhitesp_concat (w : Bytes) {b : UInt8} (space : isAspace b = true) :
    stripWhitesp (w ++ [b]) = stripWhitesp w := by
  rw [stripWhitesp, List.rdropWhile_concat_pos _ _ _ space, stripWhitesp]

theorem stripWhitesp_newline (w : Bytes) :
    stripWhitesp ((w ++ [newline]).takeWhile (· ≠ 0)) = stripWhitesp (w.takeWhile (· ≠ 0)) := by
  rw [List.takeWhile_append]
  split
  · rename_i whole
    rw [(List.takeWhile_prefix _).eq_of_length whole]
    exact stripWhitesp_concat w rfl
  · rfl

theorem readLine_newline (w : Bytes) : readLine (w ++ [newline]) = readLine w := by
  rw [readLine, stripWhitesp_newline, readLine]

theorem readLine_nil : readLine [] = none := rfl

/-- A line that ends with a newline, or fills the buffer without it. -/
theorem lineEntries_line {w : Bytes} (smooth : Smooth w) (size : w.length ≤ maxBuffer - 1) (rest : Bytes) :
    lineEntries (w ++ newline :: rest) = (readLine w).toList ++ lineEntries rest := by
  have short {w : Bytes} (smooth : Smooth w) (size : w.length < maxBuffer - 1) :
      lineEntries (w ++ newline :: rest) = (readLine w).toList ++ lineEntries rest := by
    obtain ⟨room, filled⟩ := Nat.exists_eq_add_of_lt size
    have first := lineOf_append smooth (room + 1) (newline :: rest)
    rw [← Nat.add_assoc, ← filled, lineOf, if_neg (by decide), if_pos rfl] at first
    rw [lineEntries_of_line first (by simp), readLine_newline]
  obtain less | full := Nat.lt_or_eq_of_le size
  · exact short smooth less
  · rw [lineEntries_full smooth full]
    have empty := short (w := []) ⟨List.not_mem_nil, List.not_mem_nil⟩ (by decide)
    rw [List.nil_append, readLine_nil] at empty
    rw [empty]
    rfl

/-- The last line, cut short. -/
theorem lineEntries_last {w : Bytes} (smooth : Smooth w) (size : w.length ≤ maxBuffer - 1) :
    lineEntries w = (readLine w).toList := by
  cases w with
  | nil => rfl
  | cons b w =>
      obtain ⟨room, filled⟩ := Nat.exists_eq_add_of_le size
      have first := lineOf_append smooth room []
      have none : lineOf room [] = ([], []) := by cases room <;> rfl
      rw [List.append_nil, ← filled, none, List.append_nil] at first
      rw [lineEntries_of_line first (by simp), lineEntries_nil, List.append_nil]

/-! ## A name and what follows it -/

/-- A name that a line can begin with. -/
structure NameKept (name : Bytes) : Prop where
  noEquals : equals ∉ name
  noEnd : 255 ∉ name
  head : ∀ c ∈ name.head?, isAspace c = false ∧ c ≠ hash

theorem rdropWhile_append_cons (front : Bytes) {b : UInt8} (keep : isAspace b = false) (back : Bytes) :
    (front ++ b :: back).rdropWhile isAspace = front ++ b :: back.rdropWhile isAspace := by
  induction back using List.reverseRecOn with
  | nil => rw [List.rdropWhile_nil, List.rdropWhile_concat_neg _ _ _ (by simp [keep])]
  | append_singleton back c ih =>
      rw [← List.cons_append, ← List.append_assoc]
      by_cases space : isAspace c = true
      · rw [List.rdropWhile_concat_pos _ _ _ space, List.rdropWhile_concat_pos _ _ _ space, ih]
      · rw [List.rdropWhile_concat_neg _ _ _ space, List.rdropWhile_concat_neg _ _ _ space]
        simp

theorem readLine_name {name after : Bytes} (kept : NameKept name) (nul : 0 ∉ name ++ equals :: after) :
    readLine (name ++ equals :: after) = (readValue (after.rdropWhile isAspace)).map fun val => (name, val) := by
  have all : (name ++ equals :: after).takeWhile (· ≠ 0) = name ++ equals :: after := by
    exact takeWhile_whole nul
  have text : stripWhitesp (name ++ equals :: after) = name ++ equals :: after.rdropWhile isAspace := by
    rw [stripWhitesp, rdropWhile_append_cons name rfl]
    cases name with
    | nil => rfl
    | cons c name => rw [List.cons_append, List.dropWhile_cons_of_neg (by simp [kept.head c rfl])]
  rw [readLine, all, text]
  have first : ¬ ((name ++ equals :: after.rdropWhile isAspace).head? = some hash ∨
      name ++ equals :: after.rdropWhile isAspace = []) := by
    cases name with
    | nil => simp [equals, hash]
    | cons c name => simpa using (kept.head c rfl).2
  simp only [first, ↓reduceIte, List.mem_append, List.mem_cons, true_or, or_true, takeWhile_upto kept.noEquals,
    dropWhile_upto kept.noEquals, List.tail_cons]

theorem mem_rdropWhile {b : UInt8} (keep : isAspace b = false) (w : Bytes) : b ∈ w.rdropWhile isAspace ↔ b ∈ w := by
  constructor
  · exact fun mem => (List.rdropWhile_prefix _ _).subset mem
  · intro mem
    obtain ⟨front, back, rfl⟩ := List.append_of_mem mem
    rw [rdropWhile_append_cons front keep]
    simp

theorem readLine_quoted {name text : Bytes} (kept : NameKept name) (nul : 0 ∉ name ++ equals :: doubleQuote :: text) :
    readLine (name ++ equals :: doubleQuote :: text) =
      if doubleQuote ∈ text then some (name, text.takeWhile (· ≠ doubleQuote)) else none := by
  have strip : (doubleQuote :: text).rdropWhile isAspace = doubleQuote :: text.rdropWhile isAspace :=
    rdropWhile_append_cons [] rfl text
  rw [readLine_name kept nul, strip, readValue]
  simp only [List.head?_cons, ↓reduceIte, List.tail_cons, mem_rdropWhile (b := doubleQuote) rfl]
  split
  · rename_i mem
    obtain ⟨front, back, rfl, before⟩ := List.eq_append_cons_of_mem mem
    rw [rdropWhile_append_cons front rfl, takeWhile_upto before, takeWhile_upto before]
    rfl
  · rfl

theorem readLine_bare {name : Bytes} (kept : NameKept name) (nul : 0 ∉ name) :
    readLine (name ++ [equals]) = some (name, []) := by
  rw [readLine_name kept (by simpa [equals] using nul)]
  rfl

theorem mem_stripWhitesp {w : Bytes} {b : UInt8} (mem : b ∈ stripWhitesp w) : b ∈ w :=
  (List.rdropWhile_prefix _ _).subset ((List.dropWhile_suffix _).subset mem)

theorem readLine_no_equals {w : Bytes} (no : equals ∉ w) : readLine w = none := by
  have absent : equals ∉ stripWhitesp (w.takeWhile (· ≠ 0)) :=
    fun mem => no ((List.takeWhile_prefix _).subset (mem_stripWhitesp mem))
  rw [readLine, if_neg absent, ite_self]

/-! ## What reading gives -/

/-- An entry that can be read. -/
structure Plain (entry : Entry) : Prop where
  name : NameKept entry.1
  nulFree : 0 ∉ entry.1 ++ entry.2
  smooth : Smooth (entry.1 ++ entry.2)
  room : entry.1.length + 1 + entry.2.length ≤ maxBuffer - 1

theorem readValue_sublist {text val : Bytes} (read : readValue text = some val) : List.Sublist val text := by
  rw [readValue] at read
  split at read
  · split at read
    · cases read
      exact (List.takeWhile_prefix _).sublist.trans (List.tail_sublist text)
    · cases read
  · cases read
    exact List.Sublist.refl _

theorem stripWhitesp_head {w : Bytes} {c : UInt8} (head : (stripWhitesp w).head? = some c) : isAspace c = false := by
  have stop := List.head?_dropWhile_not isAspace (w.rdropWhile isAspace)
  rw [stripWhitesp] at head
  rw [head] at stop
  simpa using stop

/-- The name starts the line, and the value is part of what follows the equals sign. -/
theorem readLine_text {w : Bytes} {entry : Entry} (read : readLine w = some entry) :
    equals ∉ entry.1 ∧ (∀ c ∈ entry.1.head?, isAspace c = false ∧ c ≠ hash) ∧
      List.Sublist (entry.1 ++ equals :: entry.2) (w.takeWhile (· ≠ 0)) := by
  rw [readLine] at read
  split at read
  · cases read
  · split at read
    · rename_i begins mem
      obtain ⟨name, after, text, before⟩ := List.eq_append_cons_of_mem mem
      obtain ⟨val, value, rfl⟩ := Option.map_eq_some_iff.mp read
      rw [text, dropWhile_upto before] at value
      have part : List.Sublist (name ++ equals :: val) (stripWhitesp (w.takeWhile (· ≠ 0))) := by
        rw [text]
        exact (List.Sublist.refl name).append ((readValue_sublist value).cons_cons equals)
      rw [text, takeWhile_upto before]
      refine ⟨before, ?_, part.trans ((List.dropWhile_suffix _).sublist.trans (List.rdropWhile_prefix _ _).sublist)⟩
      intro c head
      have first : (stripWhitesp (w.takeWhile (· ≠ 0))).head? = some c := by
        rw [text, List.head?_append, Option.mem_def.mp head]
        rfl
      refine ⟨stripWhitesp_head first, ?_⟩
      rintro rfl
      exact begins (.inl first)
    · cases read

theorem readLine_length {w : Bytes} {entry : Entry} (read : readLine w = some entry) :
    entry.1.length + 1 + entry.2.length ≤ w.length := by
  have fits := ((readLine_text read).2.2.trans (List.takeWhile_prefix _).sublist).length_le
  rw [List.length_append, List.length_cons] at fits
  omega

theorem readLine_plain {w line : Bytes} (smooth : Smooth w) (ends : line = w ∨ line = w ++ [newline])
    (size : line.length ≤ maxBuffer - 1) {entry : Entry} (read : readLine line = some entry) : Plain entry := by
  have same : readLine line = readLine w := by
    obtain rfl | rfl := ends
    · rfl
    · exact readLine_newline w
  obtain ⟨noEquals, head, part⟩ := readLine_text (same ▸ read)
  have inside : ∀ b ∈ entry.1 ++ entry.2, b ∈ w.takeWhile (· ≠ 0) := by
    intro b mem
    refine part.subset ?_
    rw [List.mem_append] at mem ⊢
    exact mem.imp_right (List.mem_cons_of_mem _)
  have smooth' : Smooth (entry.1 ++ entry.2) :=
    smooth.sublist fun b mem => (List.takeWhile_prefix _).subset (inside b mem)
  exact ⟨⟨noEquals, fun mem => smooth'.2 (List.mem_append_left _ mem), head⟩,
    fun mem => CStr.takeWhile_nulFree w (inside _ mem), smooth', Nat.le_trans (readLine_length read) size⟩

theorem linesFrom_smooth (n : Nat) (rest : Bytes) : ∀ line ∈ linesFrom n rest, ∃ w, Smooth w ∧
    (line = w ∨ line = w ++ [newline]) ∧ line.length ≤ maxBuffer - 1 := by
  induction n generalizing rest with
  | zero => exact fun line mem => absurd mem List.not_mem_nil
  | succ n ih =>
      intro line mem
      rw [linesFrom] at mem
      split at mem
      · exact absurd mem List.not_mem_nil
      · obtain rfl | later := List.mem_cons.mp mem
        · exact lineOf_smooth _ _
        · exact ih _ line later

theorem lineEntries_plain {rest : Bytes} {entry : Entry} (mem : entry ∈ lineEntries rest) : Plain entry := by
  obtain ⟨line, listed, read⟩ := List.mem_filterMap.mp mem
  obtain ⟨w, smooth, ends, size⟩ := linesFrom_smooth _ rest line listed
  exact readLine_plain smooth ends size read

end Psplink.Config
