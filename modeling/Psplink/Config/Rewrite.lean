import Psplink.Config.Lines

/-!
# The configuration after a change

Reading the file that `configChange` leaves gives the edited entries if and only if each of them is kept:
its line is served, and can be read.
-/

namespace Psplink.Config
open Psplink.Lib Psplink.Util

/-- What a change is to do to the entries. -/
def edited (mode : Int) (newname newval : Bytes) (entries : List Entry) : List Entry :=
  if mode = configModeAdd then
    entries.map (fun entry => if entry.1 = newname then (newname, newval) else entry) ++
      if newname ∈ entries.map Prod.fst then [] else [(newname, newval)]
  else entries.filter fun entry => entry.1 ≠ newname

theorem printed_add (newname newval : Bytes) (found : Bool) (entries : List Entry) :
    printed configModeAdd newname newval found entries =
      entries.map (fun entry => if entry.1 = newname then (newname, newval) else entry) ++
        if found ∨ newname ∈ entries.map Prod.fst then [] else [(newname, newval)] := by
  induction entries generalizing found with
  | nil => cases found <;> simp [printed]
  | cons entry entries ih =>
      by_cases same : entry.1 = newname
      · simp [printed, same, ih]
      · have other : newname ≠ entry.1 := Ne.symm same
        simp only [printed, same, ↓reduceIte, ih, List.map_cons, List.mem_cons, other, false_or, List.cons_append]

theorem printed_del {mode : Int} (del : mode ≠ configModeAdd) (newname newval : Bytes) (found : Bool)
    (entries : List Entry) : printed mode newname newval found entries = entries.filter fun entry => entry.1 ≠ newname := by
  induction entries with
  | nil => simp [printed, del]
  | cons entry entries ih => by_cases same : entry.1 = newname <;> simp [printed, same, del, ih]

theorem printed_eq (mode : Int) (newname newval : Bytes) (entries : List Entry) :
    printed mode newname newval false entries = edited mode newname newval entries := by
  rw [edited]
  split
  · rename_i add
    rw [add, printed_add]
    simp only [Bool.false_eq_true, false_or]
  · rename_i del
    exact printed_del del newname newval false entries

/-! ## One line -/

/-- The line without its newline. -/
def body (entry : Entry) : Bytes := entry.1 ++ equals :: doubleQuote :: (entry.2 ++ [doubleQuote])

theorem configLine_eq (entry : Entry) : configLine entry = body entry ++ [newline] := by simp [configLine, body]

theorem length_body (entry : Entry) : (body entry).length = entry.1.length + entry.2.length + 3 := by
  simp only [body, List.length_append, List.length_cons, List.length_nil]
  omega

structure Clean (entry : Entry) : Prop where
  nulFree : 0 ∉ entry.1 ++ entry.2
  newlineFree : newline ∉ entry.1 ++ entry.2

/-- The entry is read from as much of its line as is served: up to the closing quote, or, where the value is empty
and the line is cut there, up to the equals sign. -/
def Kept (entry : Entry) (served : Bytes) : Prop :=
  NameKept entry.1 ∧
    ((doubleQuote ∉ entry.2 ∧ 255 ∉ entry.2 ∧ body entry <+: served ∧ (body entry).length < maxBuffer) ∨
      (entry.2 = [] ∧ served.take (maxBuffer - 1) = entry.1 ++ [equals]))

theorem Plain.smooth_body {entry : Entry} (plain : Plain entry) : Smooth (body entry) := by
  have smooth := plain.smooth
  simp only [Smooth, body, List.mem_append, List.mem_cons, not_or, List.not_mem_nil, not_false_eq_true, and_true] at *
  exact ⟨⟨smooth.1.1, by decide, by decide, smooth.1.2, by decide⟩,
    smooth.2.1, by decide, by decide, smooth.2.2, by decide⟩

theorem Plain.nulFree_body {entry : Entry} (plain : Plain entry) : 0 ∉ body entry := by
  have nul := plain.nulFree
  simp only [body, List.mem_append, List.mem_cons, not_or, List.not_mem_nil, not_false_eq_true, and_true] at *
  exact ⟨nul.1, by decide, by decide, nul.2, by decide⟩

theorem Kept.plain {entry : Entry} {served : Bytes} (kept : Kept entry served) (clean : Clean entry) : Plain entry := by
  obtain ⟨name, ⟨-, noEnd, -, fits⟩ | ⟨empty, cut⟩⟩ := kept
  · refine ⟨name, clean.nulFree, ⟨clean.newlineFree, ?_⟩, ?_⟩
    · rw [List.mem_append, not_or]
      exact ⟨name.noEnd, noEnd⟩
    · rw [length_body] at fits
      omega
  · refine ⟨name, clean.nulFree, ⟨clean.newlineFree, ?_⟩, ?_⟩
    · rw [empty, List.append_nil]
      exact name.noEnd
    · have size := congrArg List.length cut
      rw [List.length_take, List.length_append] at size
      rw [empty]
      simp only [List.length_nil, List.length_singleton] at size ⊢
      omega

theorem readLine_body {entry : Entry} (plain : Plain entry) (quoteFree : doubleQuote ∉ entry.2) :
    readLine (body entry) = some entry := by
  rw [body, readLine_quoted plain.name plain.nulFree_body, if_pos (by simp), takeWhile_upto quoteFree]

/-- A value that is read up to a quote. -/
theorem readLine_value {name val text : Bytes} (kept : NameKept name) (nul : 0 ∉ name ++ equals :: doubleQuote :: text)
    (read : readLine (name ++ equals :: doubleQuote :: text) = some (name, val)) :
    doubleQuote ∉ val ∧ ∃ back, text = val ++ doubleQuote :: back := by
  rw [readLine_quoted kept nul] at read
  split at read
  · rename_i mem
    obtain ⟨front, back, rfl, before⟩ := List.eq_append_cons_of_mem mem
    rw [takeWhile_upto before] at read
    cases read
    exact ⟨before, back, rfl⟩
  · cases read

/-- The first piece of the line reads as the entry. -/
theorem readLine_served {entry : Entry} (plain : Plain entry) {served : Bytes} (part : served <+: configLine entry) :
    readLine (served.take (maxBuffer - 1)) = some entry ↔ Kept entry served := by
  constructor
  · intro read
    refine ⟨plain.name, ?_⟩
    have first : served.take (maxBuffer - 1) <+: served := List.take_prefix _ _
    obtain ⟨after, line⟩ := first.trans part
    have size := List.length_take_le (maxBuffer - 1) served
    generalize served.take (maxBuffer - 1) = piece at read first line size
    have nul : 0 ∉ piece := by
      intro mem
      have inLine : (0 : UInt8) ∈ configLine entry := line ▸ List.mem_append_left _ mem
      rw [configLine_eq, List.mem_append, List.mem_singleton] at inLine
      exact inLine.elim plain.nulFree_body (by decide)
    rw [configLine_eq, body, List.append_assoc] at line
    obtain ⟨cut, name, -⟩ | ⟨shown, rfl, shows⟩ := List.append_eq_append_iff.mp line
    · -- The piece ends in the name.
      have no : equals ∉ piece := fun mem => plain.name.noEquals (name ▸ List.mem_append_left _ mem)
      rw [readLine_no_equals no] at read
      cases read
    · match shown with
      | [] =>
          rw [List.append_nil, readLine_no_equals plain.name.noEquals] at read
          cases read
      | [b] =>
          cases shows
          rw [readLine_bare plain.name fun mem => plain.nulFree (List.mem_append_left _ mem)] at read
          exact .inr ⟨(congrArg Prod.snd (Option.some.inj read)).symm, rfl⟩
      | b :: c :: text =>
          simp only [List.cons_append, List.cons.injEq] at shows
          obtain ⟨rfl, rfl, -⟩ := shows
          obtain ⟨quoteFree, back, rfl⟩ := readLine_value plain.name nul read
          have whole : body entry <+: entry.1 ++ equals :: doubleQuote :: (entry.2 ++ doubleQuote :: back) :=
            ⟨back, by simp [body]⟩
          refine .inl ⟨quoteFree, fun mem => plain.smooth.2 (List.mem_append_right _ mem), whole.trans first, ?_⟩
          exact Nat.lt_of_le_of_lt (whole.length_le.trans size) (by decide)
  · rintro ⟨-, ⟨quoteFree, -, whole, fits⟩ | ⟨empty, cut⟩⟩
    · have inPiece : body entry <+: served.take (maxBuffer - 1) :=
        List.prefix_take_iff.mpr ⟨whole, Nat.le_pred_of_lt fits⟩
      have short : served.take (maxBuffer - 1) <+: body entry ++ [newline] := by
        rw [← configLine_eq]
        exact (List.take_prefix _ _).trans part
      obtain same | less := List.prefix_concat_iff.mp short
      · rw [same, readLine_newline, readLine_body plain quoteFree]
      · rw [← inPiece.eq_of_length_le less.length_le, readLine_body plain quoteFree]
    · rw [cut, readLine_bare plain.name fun mem => plain.nulFree (List.mem_append_left _ mem)]
      exact congrArg some (Prod.ext rfl empty.symm)

/-! ## The rest of a long line -/

/-- What is left of a line whose first piece fills the buffer is no entry. -/
theorem readLine_rest {rest : Bytes} (short : rest.length ≤ 2) (ends : rest.getLast? = some doubleQuote) :
    readLine rest = none := by
  match rest with
  | [] => rfl
  | [b] =>
      cases ends
      rfl
  | [b, c] =>
      cases ends
      by_cases same : b = equals
      · subst same
        rfl
      · refine readLine_no_equals ?_
        rw [List.mem_cons, List.mem_singleton, not_or]
        exact ⟨Ne.symm same, by decide⟩

theorem body_last (entry : Entry) : (body entry).getLast? = some doubleQuote := by
  rw [body, ← List.cons_append, ← List.cons_append, ← List.append_assoc, List.getLast?_concat]

theorem readLine_take {w : Bytes} (fits : w.length ≤ maxBuffer - 1) :
    readLine ((w ++ [newline]).take (maxBuffer - 1)) = readLine w := by
  obtain less | full := Nat.lt_or_eq_of_le fits
  · rw [List.take_of_length_le (by rwa [List.length_append, List.length_singleton]), readLine_newline]
  · rw [← full, List.take_left]

section Pieces

variable {w : Bytes} (smooth : Smooth w) (more : maxBuffer - 1 < w.length) (few : w.length ≤ maxBuffer + 1)
include smooth more few

/-- Text that fills the buffer leaves up to two bytes. -/
theorem pieces : w = w.take (maxBuffer - 1) ++ w.drop (maxBuffer - 1) ∧ Smooth (w.take (maxBuffer - 1)) ∧
    Smooth (w.drop (maxBuffer - 1)) ∧ (w.take (maxBuffer - 1)).length = maxBuffer - 1 ∧
    w.drop (maxBuffer - 1) ≠ [] ∧ (w.drop (maxBuffer - 1)).length ≤ 2 := by
  refine ⟨(List.take_append_drop _ _).symm, smooth.sublist fun _ => List.mem_of_mem_take,
    smooth.sublist fun _ => List.mem_of_mem_drop, ?_, ?_, ?_⟩
  · rw [List.length_take]
    omega
  · rw [ne_eq, List.drop_eq_nil_iff]
    omega
  · rw [List.length_drop]
    omega

end Pieces

theorem lineEntries_configLine {entry : Entry} (plain : Plain entry) (rest : Bytes) :
    lineEntries (configLine entry ++ rest) =
      (readLine ((configLine entry).take (maxBuffer - 1))).toList ++ lineEntries rest := by
  have smooth := plain.smooth_body
  have room := plain.room
  have size := length_body entry
  rw [configLine_eq, List.append_assoc, List.singleton_append]
  by_cases fits : (body entry).length ≤ maxBuffer - 1
  · rw [lineEntries_line smooth fits, readLine_take fits]
  · -- Up to two bytes of the line are left before the newline.
    obtain ⟨split, front, back, full, some, short⟩ := pieces smooth (by omega) (by omega)
    have ends := body_last entry
    rw [split, List.getLast?_append_of_ne_nil _ some] at ends
    rw [List.take_append_of_le_length (by omega)]
    conv_lhs => rw [split, List.append_assoc, lineEntries_full front full,
      lineEntries_line back (Nat.le_trans short (by decide)), readLine_rest short ends]
    rfl

/-- The last line, cut before its newline. -/
theorem lineEntries_cut {entry : Entry} (plain : Plain entry) {served : Bytes} (part : served <+: body entry) :
    lineEntries served = (readLine (served.take (maxBuffer - 1))).toList ++
      (readLine (served.drop (maxBuffer - 1))).toList := by
  have smooth : Smooth served := plain.smooth_body.sublist fun _ mem => part.subset mem
  have room := plain.room
  have size := length_body entry
  have less := part.length_le
  by_cases fits : served.length ≤ maxBuffer - 1
  · rw [lineEntries_last smooth fits, List.take_of_length_le fits, List.drop_of_length_le fits, readLine_nil]
    exact (List.append_nil _).symm
  · obtain ⟨split, front, back, full, -, short⟩ := pieces smooth (by omega) (by omega)
    conv_lhs => rw [split, lineEntries_full front full, lineEntries_last back (Nat.le_trans short (by decide))]

/-! ## All lines -/

def KeptAll : List Entry → Bytes → Prop
  | [], _ => True
  | entry :: entries, served =>
      Kept entry (served.take (configLine entry).length) ∧ KeptAll entries (served.drop (configLine entry).length)

def fileOf (entries : List Entry) : Bytes := (entries.map configLine).flatten

theorem fileOf_cons (entry : Entry) (entries : List Entry) :
    fileOf (entry :: entries) = configLine entry ++ fileOf entries := rfl

/-- What is served ends in the first line, or goes on with the next. -/
theorem served_cases {entry : Entry} {entries : List Entry} {served : Bytes}
    (part : served <+: fileOf (entry :: entries)) :
    (∃ rest, served = configLine entry ++ rest ∧ rest <+: fileOf entries) ∨ served <+: body entry := by
  obtain ⟨left, whole⟩ := part
  rw [fileOf_cons] at whole
  obtain ⟨after, line, -⟩ | ⟨rest, same, others⟩ := List.append_eq_append_iff.mp whole
  · have short : served <+: body entry ++ [newline] := ⟨after, by rw [← configLine_eq, line]⟩
    obtain all | less := List.prefix_concat_iff.mp short
    · refine .inl ⟨[], ?_, List.nil_prefix⟩
      rw [all, List.append_nil, configLine_eq]
    · exact .inr less
  · exact .inl ⟨rest, same, left, others.symm⟩

theorem not_keptAll_nil {entries : List Entry} (some : entries ≠ []) : ¬ KeptAll entries [] := by
  cases entries with
  | nil => exact absurd rfl some
  | cons entry entries =>
      rintro ⟨⟨-, ⟨-, -, whole, -⟩ | ⟨-, cut⟩⟩, -⟩
      · have size := whole.length_le
        rw [length_body] at size
        simp at size
      · simp at cut

theorem length_configLine (entry : Entry) : (configLine entry).length = (body entry).length + 1 := by
  rw [configLine_eq, List.length_append, List.length_singleton]

theorem keptAll_whole (entry : Entry) (entries : List Entry) (rest : Bytes) :
    KeptAll (entry :: entries) (configLine entry ++ rest) ↔ Kept entry (configLine entry) ∧ KeptAll entries rest := by
  rw [KeptAll, List.take_left, List.drop_left]

theorem keptAll_cut {entry : Entry} (entries : List Entry) {served : Bytes} (part : served <+: body entry) :
    KeptAll (entry :: entries) served ↔ Kept entry served ∧ entries = [] := by
  have less : served.length ≤ (configLine entry).length := by
    rw [length_configLine]
    exact Nat.le_succ_of_le part.length_le
  rw [KeptAll, List.take_of_length_le less, List.drop_of_length_le less]
  refine and_congr_right fun _ => ⟨fun kept => ?_, ?_⟩
  · by_contra some
    exact not_keptAll_nil some kept
  · rintro rfl
    trivial

/-- After a first piece that is kept there is nothing to read. -/
theorem Kept.rest {entry : Entry} {served : Bytes} (kept : Kept entry served) (part : served <+: body entry) :
    readLine (served.drop (maxBuffer - 1)) = none := by
  obtain ⟨-, ⟨-, -, whole, fits⟩ | ⟨empty, cut⟩⟩ := kept
  · have less := part.length_le
    rw [List.drop_of_length_le (by omega), readLine_nil]
  · refine readLine_no_equals ?_
    intro mem
    obtain ⟨after, same⟩ := part
    have split := List.take_append_drop (maxBuffer - 1) served
    rw [cut] at split
    rw [← split, body, empty, List.append_assoc, List.append_assoc] at same
    have tail := List.append_cancel_left same
    simp only [List.singleton_append, List.cons.injEq, true_and, List.nil_append] at tail
    have quotes : equals ∈ [doubleQuote, doubleQuote] := tail ▸ List.mem_append_left after mem
    exact absurd quotes (by decide)

theorem lineEntries_of_keptAll {entries : List Entry} (clean : ∀ entry ∈ entries, Clean entry) {served : Bytes}
    (part : served <+: fileOf entries) (kept : KeptAll entries served) : lineEntries served = entries := by
  induction entries generalizing served with
  | nil =>
      rw [List.prefix_nil.mp part]
      rfl
  | cons entry entries ih =>
      have clean' := clean entry List.mem_cons_self
      obtain ⟨rest, rfl, others⟩ | cut := served_cases part
      · rw [keptAll_whole] at kept
        have plain := kept.1.plain clean'
        rw [lineEntries_configLine plain, (readLine_served plain (List.prefix_refl _)).mpr kept.1,
          ih (fun entry mem => clean entry (List.mem_cons_of_mem _ mem)) others kept.2]
        rfl
      · rw [keptAll_cut entries cut] at kept
        obtain ⟨kept, rfl⟩ := kept
        have plain := kept.plain clean'
        have line : served <+: configLine entry := by
          rw [configLine_eq]
          exact cut.trans (List.prefix_append _ _)
        rw [lineEntries_cut plain cut, (readLine_served plain line).mpr kept, kept.rest cut]
        rfl

/-! ## Counting the entries -/

/-- What is left of a line that is too long is too short to be its entry. -/
theorem cut_short {entry : Entry} {served : Bytes} (part : served <+: body entry) :
    readLine (served.drop (maxBuffer - 1)) ≠ some entry := by
  intro read
  have fits := readLine_length read
  have less := part.length_le
  have size := length_body entry
  rw [List.length_drop, show maxBuffer - 1 = 4095 from rfl] at fits
  omega

/-- Each line gives one entry at most, but for a short one at the end that is not the last. -/
theorem lineEntries_count {entries : List Entry} (plain : ∀ entry ∈ entries, Plain entry) {served : Bytes}
    (part : served <+: fileOf entries) :
    (lineEntries served).length ≤ entries.length ∨ ∃ front short last,
      lineEntries served = front ++ [short] ∧ entries.getLast? = some last ∧ short ≠ last := by
  induction entries generalizing served with
  | nil =>
      rw [List.prefix_nil.mp part]
      exact .inl (Nat.le_refl _)
  | cons entry entries ih =>
      have plain' := plain entry List.mem_cons_self
      obtain ⟨rest, rfl, others⟩ | cut := served_cases part
      · rw [lineEntries_configLine plain']
        have one := Option.length_toList_le (o := readLine ((configLine entry).take (maxBuffer - 1)))
        obtain less | ⟨front, short, last, same, lasts, other⟩ :=
          ih (fun entry mem => plain entry (List.mem_cons_of_mem _ mem)) others
        · left
          rw [List.length_append, List.length_cons]
          omega
        · refine .inr ⟨(readLine ((configLine entry).take (maxBuffer - 1))).toList ++ front, short, last, ?_, ?_, other⟩
          · rw [same, List.append_assoc]
          · rw [List.getLast?_cons, lasts]
            rfl
      · have one := Option.length_toList_le (o := readLine (served.take (maxBuffer - 1)))
        rw [lineEntries_cut plain' cut]
        cases read : readLine (served.drop (maxBuffer - 1)) with
        | none =>
            left
            rw [Option.toList_none, List.append_nil, List.length_cons]
            omega
        | some short =>
            cases entries with
            | nil =>
                refine .inr ⟨_, short, entry, rfl, rfl, ?_⟩
                rintro rfl
                exact cut_short cut read
            | cons next entries =>
                left
                simp only [List.length_append, Option.toList_some, List.length_cons, List.length_nil]
                omega

theorem keptAll_of_lineEntries {entries : List Entry} (plain : ∀ entry ∈ entries, Plain entry) {served : Bytes}
    (part : served <+: fileOf entries) (read : lineEntries served = entries) : KeptAll entries served := by
  induction entries generalizing served with
  | nil => trivial
  | cons entry entries ih =>
      have plain' := plain entry List.mem_cons_self
      have later : ∀ entry ∈ entries, Plain entry := fun entry mem => plain entry (List.mem_cons_of_mem _ mem)
      obtain ⟨rest, rfl, others⟩ | cut := served_cases part
      · rw [lineEntries_configLine plain'] at read
        rw [keptAll_whole]
        cases first : readLine ((configLine entry).take (maxBuffer - 1)) with
        | none =>
            -- The rest would have to give one entry more than it has lines.
            rw [first, Option.toList_none, List.nil_append] at read
            obtain less | ⟨front, short, last, same, lasts, other⟩ := lineEntries_count later others
            · rw [read, List.length_cons] at less
              omega
            · have ends := congrArg List.getLast? (read.symm.trans same)
              rw [List.getLast?_cons, lasts, List.getLast?_concat] at ends
              exact absurd (Option.some.inj ends).symm other
        | some entry' =>
            rw [first, Option.toList_some, List.singleton_append, List.cons.injEq] at read
            obtain ⟨rfl, read⟩ := read
            exact ⟨(readLine_served plain' (List.prefix_refl _)).mp first, ih later others read⟩
      · have line : served <+: configLine entry := by
          rw [configLine_eq]
          exact cut.trans (List.prefix_append _ _)
        rw [lineEntries_cut plain' cut] at read
        rw [keptAll_cut entries cut]
        cases first : readLine (served.take (maxBuffer - 1)) with
        | none =>
            rw [first, Option.toList_none, List.nil_append] at read
            have second : readLine (served.drop (maxBuffer - 1)) = some entry := by
              cases second : readLine (served.drop (maxBuffer - 1)) with
              | none =>
                  rw [second] at read
                  cases read
              | some entry' =>
                  rw [second] at read
                  exact congrArg some (List.cons.inj read).1
            exact absurd second (cut_short cut)
        | some entry' =>
            rw [first, Option.toList_some, List.singleton_append, List.cons.injEq] at read
            obtain ⟨rfl, read⟩ := read
            have kept := (readLine_served plain' line).mp first
            refine ⟨kept, ?_⟩
            rw [← read, kept.rest cut]
            rfl

theorem lineEntries_eq_iff {entries : List Entry} (clean : ∀ entry ∈ entries, Clean entry) {served : Bytes}
    (part : served <+: fileOf entries) : lineEntries served = entries ↔ KeptAll entries served := by
  constructor
  · intro read
    exact keptAll_of_lineEntries (fun entry mem => lineEntries_plain (read ▸ mem)) part read
  · exact lineEntries_of_keptAll clean part

/-! ## After the change -/

theorem Plain.clean {entry : Entry} (plain : Plain entry) : Clean entry := ⟨plain.nulFree, plain.smooth.1⟩

theorem mem_edited {mode : Int} {newname newval : Bytes} {entries : List Entry} {entry : Entry}
    (mem : entry ∈ edited mode newname newval entries) : entry ∈ entries ∨ entry = (newname, newval) := by
  rw [edited] at mem
  split at mem
  · obtain old | added := List.mem_append.mp mem
    · obtain ⟨entry', listed, same⟩ := List.mem_map.mp old
      split at same
      · exact .inr same.symm
      · exact .inl (same ▸ listed)
    · split at added
      · exact absurd added List.not_mem_nil
      · exact .inr (List.mem_singleton.mp added)
  · exact .inl (List.mem_of_mem_filter mem)

structure Outcomes.Succeed (io : Outcomes) (texts : List Bytes) : Prop where
  openTmp : io.openTmp = true
  openConfig : io.openConfig = true
  write : Complete io.write texts
  remove : io.remove = true
  rename : io.rename = true

theorem configChange_succeeds {io : Outcomes} {mode : Int} (valid : mode = configModeAdd ∨ mode = configModeDel)
    {newname newval : CStr} {content : Bytes} {reads : Reads content}
    (succeed : io.Succeed (texts mode newname newval (entriesOf reads))) (tmp : Option Bytes) :
    configChange io mode newname newval reads tmp =
      ⟨some (fileOf (edited mode newname.text newval.text (entriesOf reads))), none⟩ := by
  have mode' : ¬ (mode ≠ configModeAdd ∧ mode ≠ configModeDel) := by
    rintro ⟨noAdd, noDel⟩
    exact valid.elim noAdd noDel
  have all := (written_eq_iff _ _).mpr succeed.write
  rw [configChange, if_neg mode', succeed.openTmp, succeed.openConfig, succeed.remove, succeed.rename, all, texts,
    printed_eq]
  rfl

/-- The new file reads as the edited entries if and only if each of their lines is kept in what is served of it. -/
theorem configChange_entries (io : Outcomes) (mode : Int) (valid : mode = configModeAdd ∨ mode = configModeDel)
    (newname newval : CStr) (newlineFree : newline ∉ newname.text ++ newval.text) {content : Bytes}
    (reads : Reads content) (tmp : Option Bytes) (succeed : io.Succeed (texts mode newname newval (entriesOf reads)))
    {content' : Bytes} (after : (configChange io mode newname newval reads tmp).config = some content')
    (reads' : Reads content') :
    entriesOf reads' = edited mode newname.text newval.text (entriesOf reads) ↔
      KeptAll (edited mode newname.text newval.text (entriesOf reads)) (reads'.chunks.headD []) := by
  rw [configChange_succeeds valid succeed] at after
  obtain rfl := Option.some.inj after
  rw [entriesOf_eq reads']
  refine lineEntries_eq_iff ?_ reads'.head_prefix
  intro entry mem
  obtain old | rfl := mem_edited mem
  · rw [entriesOf_eq] at old
    exact (lineEntries_plain old).clean
  · refine ⟨?_, newlineFree⟩
    rw [List.mem_append, not_or]
    exact ⟨newname.nulFree, newval.nulFree⟩

def successful : Outcomes := ⟨true, true, fun _ => maxBuffer, true, true, true⟩

def wholeFile (content : Bytes) (some : content ≠ []) (fits : content.length ≤ maxBuffer) : Reads content where
  chunks := [content]
  whole := List.flatten_singleton
  sizes := by simpa using ⟨some, fits⟩

def oldFile : Reads (ascii "usbshell=1\nbaud=\"9600\"\n") := wholeFile _ (by decide) (by decide)

def newFile : Reads (ascii "usbshell=\"1\"\nbaud=\"4800\"\n") := wholeFile _ (by decide) (by decide)

theorem keptAll_newFile : KeptAll [(ascii "usbshell", ascii "1"), (ascii "baud", ascii "4800")]
    (ascii "usbshell=\"1\"\nbaud=\"4800\"\n") := by
  refine ⟨⟨⟨?_, ?_, ?_⟩, .inl ⟨?_, ?_, ?_, ?_⟩⟩, ⟨⟨?_, ?_, ?_⟩, .inl ⟨?_, ?_, ?_, ?_⟩⟩, trivial⟩ <;> decide +kernel

theorem configChange_entries_baud :
    entriesOf newFile = edited configModeAdd (ascii "baud") (ascii "4800") (entriesOf oldFile) := by
  have entries : edited configModeAdd (ascii "baud") (ascii "4800") (entriesOf oldFile) =
      [(ascii "usbshell", ascii "1"), (ascii "baud", ascii "4800")] := by decide +kernel
  refine (configChange_entries successful configModeAdd (.inl rfl) (.ofBytes (ascii "baud")) (.ofBytes (ascii "4800"))
    (by decide +kernel) oldFile none ⟨rfl, rfl, by decide +kernel, rfl, rfl⟩ (by decide +kernel) newFile).mpr ?_
  exact entries ▸ keptAll_newFile

def quotedFile : Reads (ascii "a=b\"c\"\n") := wholeFile _ (by decide) (by decide)

def rewrittenFile : Reads (ascii "a=\"b\"c\"\"\nx=\"1\"\n") := wholeFile _ (by decide) (by decide)

/-- An unquoted value with quotes in it is cut at the first one. -/
theorem configChange_cuts :
    (configChange successful configModeAdd (.ofBytes (ascii "x")) (.ofBytes (ascii "1")) quotedFile none).config =
        some (ascii "a=\"b\"c\"\"\nx=\"1\"\n") ∧
      entriesOf rewrittenFile ≠ edited configModeAdd (ascii "x") (ascii "1") (entriesOf quotedFile) := by
  constructor <;> decide +kernel

end Psplink.Config
