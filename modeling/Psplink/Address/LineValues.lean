import Psplink.Address.Evaluation
import Psplink.Address.LineAccess
import Psplink.Address.Reading

/-!
# The value of a line that is cut in place

What the accesses of `parse_line` come to when the calls answer from the state of the kernel: the value that the
expression has as a text.
-/

namespace Psplink.Address
open Psplink.Lib Psplink.Util Psplink.Kernel

/-! ## The calls -/

def stringAt (bytes : Bytes) (i : Nat) : Bytes := (bytes.drop i).takeWhile (· ≠ 0)

def onLine (env : Env) : (q : LineCall) → LineMemory → q.Answer × LineMemory
  | .read i, w => (w.bytes.getD i 0, w)
  | .write i ch, w => ((), { w with bytes := w.bytes.set i ch })
  | .strchr s c, w =>
      let text := stringAt w.bytes s
      ((cutAt c text).2.map fun _ => s + (cutAt c text).1.length, w)
  | .strcmp s other, w => (decide (stringAt w.bytes s = other), w)
  | .strtoul s base, w =>
      let text := stringAt w.bytes s
      (((Strtoul.strtoul base text).1, s + (text.length - (Strtoul.strtoul base text).2.length)), w)
  | .exceptionGetReg reg, w => ((env.getReg reg).value, w)
  | .sceKernelFindModuleByName name, w => (env.modules.findModuleByName (stringAt w.bytes name), w)
  | .psplinkReferModule uid, w => ((env.modules.psplinkReferModule uid).2, w)
  | .libsFindExportByNid uid library nid, w =>
      (env.libs.libsFindExportByNid uid (Env.toText (stringAt w.bytes library)) nid, w)
  | .libsFindExportByName uid library name, w =>
      (env.libs.libsFindExportByName uid (Env.toText (stringAt w.bytes library)) (Env.toText (stringAt w.bytes name)), w)
  | .referThreadStatusByName name, w => (env.threadByName (stringAt w.bytes name), w)
  | .sceKernelReferThreadStatus uid, w => (env.threadStatus uid, w)
  | .symbolFindByName name, w =>
      let found := env.symbols.symbolFindByName env.modules (stringAt w.bytes name)
      ((found.1, found.2.getD 0), w)
  | .derefAddr deref val, w => (env.derefAddr deref val, w)
  | .parseLine line, w => ((), { w with calls := (stringAt w.bytes line).length :: w.calls })
  | .returns, w => ((), { w with calls := w.calls.tail })

section

variable {α : Type} {env : Env} {w w' : LineMemory} {bytes text front rest : Bytes} {i j n : Nat} {c : UInt8}

theorem Text.stringAt (here : Text bytes i text) : stringAt bytes i = text := by
  have split : bytes.drop i = (text ++ [0]) ++ bytes.drop (i + (text.length + 1)) := by
    refine List.ext_getElem? fun j => ?_
    rw [List.getElem?_drop]
    rcases Nat.lt_or_ge text.length j with more | le
    · rw [List.getElem?_append_right (by rw [List.length_append]; exact more), List.getElem?_drop, List.length_append,
        List.length_singleton]
      congr 1
      omega
    · rw [here.there j le]
      exact (List.getElem?_append_left (by rw [List.length_append]; exact Nat.lt_succ_of_le le)).symm
  rw [Address.stringAt, split, List.append_assoc, List.singleton_append, takeWhile_upto here.nulFree]

theorem Text.unique {text' : Bytes} (first : Text bytes i text) (second : Text bytes i text') : text = text' :=
  first.stringAt.symm.trans second.stringAt

theorem onLine_answers (env : Env) (q : LineCall) (w : LineMemory) :
    lineBounds.post w q (onLine env q w).1 (onLine env q w).2 := by
  cases q with
  | read | write | returns => simp [lineBounds, onLine]
  | strchr | strcmp =>
      refine ⟨rfl, fun text here => ?_⟩
      rw [← here.stringAt]
      rfl
  | strtoul s base =>
      refine ⟨rfl, fun text here => ?_⟩
      simp only [here.stringAt]
      omega
  | parseLine line =>
      intro text here
      rw [← here.stringAt]
      rfl
  | _ => rfl

/-! ## Strings -/

theorem interp_read (env : Env) (here : Text w.bytes i text) (le : j ≤ text.length) (k : UInt8 → Parsing α) :
    (Access.read (i + j) >>= k).interp (onLine env) w = (k (text.getD j 0)).interp (onLine env) w := by
  have answer : w.bytes.getD (i + j) 0 = text.getD j 0 := by
    rw [List.getD_eq_getElem?_getD, here.getElem? le]
    rfl
  rw [← answer]
  rfl

theorem interp_strcmp (env : Env) (here : Text w.bytes i text) (other : Bytes) (k : Bool → Parsing α) :
    (Access.strcmp i other >>= k).interp (onLine env) w = (k (decide (text = other))).interp (onLine env) w := by
  have answer := here.stringAt
  rw [← answer]
  rfl

theorem interp_strchr (env : Env) (here : Text w.bytes i text) (c : UInt8) (k : Option Nat → Parsing α) :
    (Access.strchr i c >>= k).interp (onLine env) w =
      (k ((cutAt c text).2.map fun _ => i + (cutAt c text).1.length)).interp (onLine env) w := by
  have answer := here.stringAt
  rw [← answer]
  rfl

theorem interp_strtoul (env : Env) (here : Text w.bytes i text) (base : Nat) (k : Word × Nat → Parsing α) :
    (Access.strtoul i base >>= k).interp (onLine env) w =
      (k ((Strtoul.strtoul base text).1, i + (text.length - (Strtoul.strtoul base text).2.length))).interp (onLine env) w := by
  have answer := here.stringAt
  rw [← answer]
  rfl

/-- Where `strtoul` ends, the rest of the text is. -/
theorem Text.strtoul (here : Text bytes i text) (base : Nat) :
    Text bytes (i + (text.length - (Strtoul.strtoul base text).2.length)) (Strtoul.strtoul base text).2 := by
  obtain ⟨front, split⟩ := Strtoul.strtoul_suffix base text
  have lengths := congrArg List.length split
  rw [List.length_append] at lengths
  rw [show text.length - (Strtoul.strtoul base text).2.length = front.length by omega]
  exact suffix (split.symm ▸ here)

theorem interp_uidOf (env : Env) (here : Text w.bytes i text) (found : Option Word) :
    (Access.uidOf i found).interp (onLine env) w =
      (found.or (if (Strtoul.strtoul 16 text).2 = [] then some (Strtoul.strtoul 16 text).1 else none), w) := by
  cases found with
  | some uid => rfl
  | none =>
      have there := here.strtoul 16
      refine (interp_strtoul env here 16 _).trans ?_
      dsimp only
      refine (interp_read (j := 0) env there (Nat.zero_le _) _).trans ?_
      cases rest : (Strtoul.strtoul 16 text).2 with
      | nil => rfl
      | cons d rest' =>
          have some_ : d ≠ 0 := fun nul => there.nulFree (by rw [rest, nul]; exact List.mem_cons_self)
          rw [if_pos (by exact some_)]
          rfl

/-- A text that is one digit of a segment. -/
def digitOf : Bytes → Option UInt8
  | [digit] => if 49 ≤ digit ∧ digit ≤ 52 then some digit else none
  | _ => none

theorem interp_digitAt (env : Env) (here : Text w.bytes i text) :
    (Access.digitAt i).interp (onLine env) w = (digitOf text, w) := by
  refine (interp_read (j := 0) env here (Nat.zero_le _) _).trans ?_
  cases text with
  | nil => rfl
  | cons digit rest =>
      by_cases range : 49 ≤ digit ∧ digit ≤ 52
      · refine (Prog.interp_pos range _ _ w).trans ?_
        refine (interp_read (j := 1) env here (by simp) _).trans ?_
        cases rest with
        | nil =>
            rw [digitOf, if_pos range]
            rfl
        | cons d rest =>
            have some_ : d ≠ 0 := fun nul => here.nulFree (by simp [nul])
            exact Prog.interp_neg some_ _ _ w
      · refine (Prog.interp_neg range _ _ w).trans ?_
        cases rest with
        | nil =>
            rw [digitOf, if_neg range]
            rfl
        | cons d rest => rfl

/-! ## Fields of a module -/

def segmentOf (info : ModuleInfo) (ext : Bytes) : Option Word :=
  match ext with
  | [s, digit] => if s = 115 then Env.segment info info.segmentsize digit else none
  | [digit] => Env.segment info info.segmentaddr digit
  | _ => none

theorem segment_digitOf (info : ModuleInfo) (field : Nat → BitVec 32) (digit : UInt8) :
    (digitOf [digit]).bind (Env.segment info field) = Env.segment info field digit := by
  rw [digitOf]
  split
  · rfl
  · next out => rw [Env.segment, if_neg out]; rfl

theorem segmentOf_eq (info : ModuleInfo) (ext : Bytes) : segmentOf info ext =
    match if ext.getD 0 0 = 115 then digitOf (ext.drop 1) else none with
    | some digit => Env.segment info info.segmentsize digit
    | none => (digitOf ext).bind (Env.segment info info.segmentaddr) := by
  match ext with
  | [] => rfl
  | [digit] =>
      rw [segment_digitOf]
      split
      · next size =>
        split at size
        · cases size
        · cases size
      · rfl
  | [s, digit] =>
      change (if s = 115 then _ else _) = _
      split
      · next isS =>
        rw [if_pos (by exact isS), ← segment_digitOf info info.segmentsize digit]
        change _ = match digitOf [digit] with | some digit => _ | none => _
        cases digitOf [digit] <;> rfl
      · next other => rw [if_neg (by exact other)]; rfl
  | s :: d :: e :: rest =>
      split
      · next size =>
        split at size
        · cases size
        · cases size
      · rfl

theorem interp_segmentAt (env : Env) (info : ModuleInfo) (here : Text w.bytes i text) :
    (Access.segmentAt info i).interp (onLine env) w = (segmentOf info text, w) := by
  have rest (size : Option UInt8) : (match size with
      | some digit => return Env.segment info info.segmentsize digit
      | none => do
          match ← Access.digitAt i with
          | some digit => return Env.segment info info.segmentaddr digit
          | none => return none : Parsing (Option Word)).interp (onLine env) w = (match size with
            | some digit => Env.segment info info.segmentsize digit
            | none => (digitOf text).bind (Env.segment info info.segmentaddr), w) := by
    cases size with
    | some digit => rfl
    | none =>
        refine (Prog.interp_bind _ _ _ _).trans ?_
        rw [interp_digitAt env here]
        cases digitOf text <;> rfl
  rw [segmentOf_eq]
  refine (interp_read (j := 0) env here (Nat.zero_le _) _).trans ?_
  by_cases isS : text.getD 0 0 = 115
  · have some_ : 0 < text.length := getD_inside isS (by decide)
    refine (Prog.interp_pos isS _ _ w).trans ?_
    refine (Prog.interp_bind _ _ _ _).trans ?_
    rw [interp_digitAt env (here.from some_), if_pos isS]
    exact rest _
  · refine (Prog.interp_neg isS _ _ w).trans ?_
    rw [if_neg isS]
    exact rest none

theorem zeroX_iff (name : Bytes) : ascii "0x" <+: name ↔ name.getD 0 0 = 48 ∧ name.getD 1 0 = 120 := by
  have text : ascii "0x" = [48, 120] := by decide
  rw [text]
  match name with
  | [] => simp
  | [c] => simp
  | c :: d :: rest => simp [List.cons_prefix_cons, eq_comm]

theorem interp_exportAt (env : Env) (uid : Word) {p : Nat} {library : Bytes} (first : Text w.bytes p library)
    (here : Text w.bytes i text) :
    (Access.exportAt uid p i).interp (onLine env) w = (env.exportValue uid library text, w) := by
  have byNid : (Access.strtoul i 16 >>= fun r =>
        Prog.call (LineCall.libsFindExportByNid uid p r.1) : Parsing Word).interp (onLine env) w =
      (env.libs.libsFindExportByNid uid (Env.toText library) (Strtoul.strtoul 16 text).1, w) := by
    refine (interp_strtoul env here 16 _).trans ?_
    rw [← first.stringAt]
    rfl
  have byName : (Prog.call (LineCall.libsFindExportByName uid p i) : Parsing Word).interp (onLine env) w =
      (env.libs.libsFindExportByName uid (Env.toText library) (Env.toText text), w) := by
    rw [← first.stringAt, ← here.stringAt]
    rfl
  rw [Env.exportValue]
  refine (interp_read (j := 0) env here (Nat.zero_le _) _).trans ?_
  by_cases zero : text.getD 0 0 = 48
  · refine (Prog.interp_pos zero _ _ w).trans ?_
    refine (interp_read env here (getD_inside zero (by decide)) _).trans ?_
    by_cases x : text.getD 1 0 = 120
    · rw [if_pos ((zeroX_iff text).mpr ⟨zero, x⟩)]
      exact (Prog.interp_pos x _ _ w).trans byNid
    · rw [if_neg fun begins => x ((zeroX_iff text).mp begins).2]
      exact (Prog.interp_neg x _ _ w).trans byName
  · rw [if_neg fun begins => zero ((zeroX_iff text).mp begins).1]
    exact (Prog.interp_neg zero _ _ w).trans byName

theorem Text.cutAt {rest : Bytes} (here : Text bytes i text) (found : (cutAt c text).2 = some rest) :
    Text (bytes.set (i + (cutAt c text).1.length) 0) i (cutAt c text).1 ∧
      Text (bytes.set (i + (cutAt c text).1.length) 0) (i + (cutAt c text).1.length + 1) rest := by
  have split := (cutAt_some found).2
  have whole : Text bytes i ((Address.cutAt c text).1 ++ c :: rest) := split ▸ here
  exact ⟨whole.cut, whole.behind⟩

theorem cutAt_none (absent : (cutAt c text).2 = none) : (cutAt c text).1 = text := by
  have apart : c ∉ text := by
    intro mem
    rw [cutAt, if_pos mem] at absent
    cases absent
  rw [cutAt, List.takeWhile_eq_self_iff]
  intro d mem
  exact decide_eq_true fun same => apart (same ▸ mem)

theorem interp_cutColon (env : Env) (here : Text w.bytes i text) : ∃ p w' name ext, cutAt Symbols.colon text = (name, ext) ∧
    (Access.cutColon i).interp (onLine env) w = (p, w') ∧ Text w'.bytes i name ∧ Option.Rel (Text w'.bytes) p ext := by
  cases found : (cutAt Symbols.colon text).2 with
  | none =>
      refine ⟨none, w, text, none, Prod.ext (cutAt_none found) found, ?_, here, .none⟩
      refine (interp_strchr env here _ _).trans ?_
      rw [found]
      rfl
  | some ext =>
      obtain ⟨left, right⟩ := here.cutAt found
      refine ⟨some (i + (cutAt Symbols.colon text).1.length + 1),
        { w with bytes := w.bytes.set (i + (cutAt Symbols.colon text).1.length) 0 }, _, some ext, Prod.ext rfl found, ?_, left,
        .some right⟩
      refine (interp_strchr env here _ _).trans ?_
      rw [found]
      rfl

/-- A field that has a name of its own, or what comes after it. -/
theorem interp_field (env : Env) (here : Text w.bytes i text) (name : Bytes) (r : Option Word) {k : Parsing (Option Word)}
    {v : Option Word} (next : (k.interp (onLine env) w).1 = v) :
    ((Access.strcmp i name >>= fun same => if same = true then return r else k).interp (onLine env) w).1 =
      if text = name then r else v := by
  rw [interp_strcmp env here name]
  by_cases same : text = name
  · rw [if_pos same, Prog.interp_pos (decide_eq_true same)]
    rfl
  · rw [if_neg same, Prog.interp_neg (by rw [decide_eq_true_iff]; exact same)]
    exact next

theorem moduleField_eq (env : Env) (uid : Word) (info : ModuleInfo) (ext : Bytes) :
    env.moduleField uid info (some ext) =
      if ext = ascii "text" then some info.textAddr
      else if ext = ascii "stext" then some info.textSize
      else if ext = ascii "sdata" then some info.dataSize
      else if ext = ascii "sbss" then some info.bssSize
      else match (cutAt comma ext).2 with
        | some name => some (env.exportValue uid (cutAt comma ext).1 name)
        | none => segmentOf info ext := by
  unfold Env.moduleField
  dsimp only
  cases cut : cutAt comma ext with
  | mk library name => cases name <;> rfl

theorem interp_moduleField (env : Env) (uid : Word) (info : ModuleInfo) (here : Text w.bytes i text) :
    ((Access.moduleField uid info i).interp (onLine env) w).1 = env.moduleField uid info (some text) := by
  rw [moduleField_eq]
  refine interp_field env here _ _ (interp_field env here _ _ (interp_field env here _ _ (interp_field env here _ _ ?_)))
  refine (congrArg Prod.fst (interp_strchr env here comma _)).trans ?_
  cases found : (cutAt comma text).2 with
  | none => exact congrArg Prod.fst (interp_segmentAt env info here)
  | some name =>
      obtain ⟨left, right⟩ := here.cutAt found
      refine (congrArg Prod.fst (Prog.interp_bind (onLine env) (Access.exportAt uid i _) _ _)).trans ?_
      rw [interp_exportAt env uid left right]
      rfl

/-! ## Names -/

theorem moduleUid_eq (env : Env) (name : Bytes) : env.moduleUid name =
    (env.modules.findModuleByName name).or
      (if (Strtoul.strtoul 16 name).2 = [] then some (Strtoul.strtoul 16 name).1 else none) := by
  rw [Env.moduleUid]
  cases env.modules.findModuleByName name <;> rfl

theorem threadUid_eq (env : Env) (name : Bytes) : env.threadUid name =
    (env.threadByName name).or
      (if (Strtoul.strtoul 16 name).2 = [] then some (Strtoul.strtoul 16 name).1 else none) := by
  rw [Env.threadUid]
  cases env.threadByName name <;> rfl

theorem interp_getModaddr (env : Env) (here : Text w.bytes i text) :
    ((Access.getModaddr i).interp (onLine env) w).1 = env.getModaddr text := by
  obtain ⟨p, w', name, ext, split, cut, left, right⟩ := interp_cutColon env here
  have uid := interp_uidOf env left (env.modules.findModuleByName name)
  rw [← moduleUid_eq] at uid
  refine (congrArg Prod.fst (Prog.interp_bind _ _ _ _)).trans ?_
  rw [cut]
  refine (congrArg Prod.fst (Prog.interp_bind (onLine env) (Access.uidOf i (env.modules.findModuleByName
    (stringAt w'.bytes i))) _ w')).trans ?_
  rw [left.stringAt, uid]
  unfold Env.getModaddr
  rw [split]
  dsimp only
  cases env.moduleUid name with
  | none => rfl
  | some uid =>
      cases right with
      | none => rfl
      | some there => exact interp_moduleField env uid _ there

theorem interp_getThreadaddr (env : Env) (here : Text w.bytes i text) :
    ((Access.getThreadaddr i).interp (onLine env) w).1 = env.getThreadaddr text := by
  obtain ⟨p, w', name, ext, split, cut, left, right⟩ := interp_cutColon env here
  have uid := interp_uidOf env left (env.threadByName name)
  rw [← threadUid_eq] at uid
  refine (congrArg Prod.fst (Prog.interp_bind _ _ _ _)).trans ?_
  rw [cut]
  refine (congrArg Prod.fst (Prog.interp_bind (onLine env) (Access.uidOf i (env.threadByName
    (stringAt w'.bytes i))) _ w')).trans ?_
  rw [left.stringAt, uid]
  unfold Env.getThreadaddr
  rw [split]
  dsimp only
  cases env.threadUid name with
  | none => rfl
  | some uid =>
      rw [Option.bind_some]
      have status : onLine env (.sceKernelReferThreadStatus uid) w' = (env.threadStatus uid, w') := rfl
      refine (congrArg Prod.fst (Prog.interp_ask (onLine env) (.sceKernelReferThreadStatus uid) _ w')).trans ?_
      rw [status]
      cases env.threadStatus uid with
      | none => rfl
      | some info =>
          cases right with
          | none => rfl
          | some there => exact interp_field env there _ _ (interp_field env there _ _ rfl)

theorem size_of_found {m : ModuleManager} {s : Symbols.State} {name : Bytes} (found : (s.symbolFindByName m name).1 ≠ 0) :
    ∃ size, (s.symbolFindByName m name).2 = some size := by
  unfold Symbols.State.symbolFindByName at found ⊢
  dsimp only at found ⊢
  repeat' split at found
  all_goals first
    | exact absurd rfl found
    | skip
  all_goals simp_all

/-- What is done with a symbol that has been looked for. -/
def symbolValue (getsize : Bool) (found : Word × Option Word) : Option Word :=
  if found.1 = 0 then none else if getsize then found.2 else some found.1

theorem getSymbol_eq (env : Env) (name : Bytes) : env.getSymbol name =
    if name.getD 0 0 = backquote then symbolValue true (env.symbols.symbolFindByName env.modules (name.drop 1))
    else symbolValue false (env.symbols.symbolFindByName env.modules name) := by
  unfold Env.getSymbol
  cases name with
  | nil => rfl
  | cons c rest =>
      by_cases size : c = backquote
      · rw [size]
        rfl
      · rw [if_neg (by exact size)]
        split
        next getsize line same =>
        split at same
        · next back => exact absurd (List.cons.inj back).1 size
        · cases same
          rfl

theorem interp_getSymbol (env : Env) (here : Text w.bytes i text) :
    ((Access.getSymbol i).interp (onLine env) w).1 = env.getSymbol text := by
  have value (getsize : Prop) [Decidable getsize] {p : Nat} {name : Bytes} (there : Text w.bytes p name) :
      ((do
        let (temp, size) ← Prog.call (LineCall.symbolFindByName p)
        if temp = 0 then return none else return some (if getsize then size else temp) : Parsing (Option Word)).interp
          (onLine env) w).1 = symbolValue getsize (env.symbols.symbolFindByName env.modules name) := by
    have found : onLine env (.symbolFindByName p) w = (((env.symbols.symbolFindByName env.modules name).1,
        (env.symbols.symbolFindByName env.modules name).2.getD 0), w) := by
      rw [← there.stringAt]
      rfl
    refine (congrArg Prod.fst (Prog.interp_ask (onLine env) (.symbolFindByName p) _ w)).trans ?_
    rw [found]
    generalize found' : env.symbols.symbolFindByName env.modules name = r
    obtain ⟨temp, size⟩ := r
    by_cases none_ : temp = 0
    · rw [symbolValue, if_pos none_]
      exact congrArg Prod.fst (Prog.interp_pos none_ _ _ w)
    · have sized := @size_of_found env.modules env.symbols name
      rw [found'] at sized
      obtain ⟨size, rfl⟩ := sized none_
      rw [symbolValue, if_neg none_]
      refine (congrArg Prod.fst (Prog.interp_neg none_ _ _ w)).trans ?_
      by_cases wants : getsize
      · simp [wants]
      · simp [wants]
  rw [getSymbol_eq]
  refine (congrArg Prod.fst (interp_read (j := 0) env here (Nat.zero_le _) _)).trans ?_
  by_cases size : text.getD 0 0 = backquote
  · have there := here.from (getD_inside size (by decide))
    rw [if_pos size]
    exact (value (text.getD 0 0 = backquote) (by rwa [if_pos size])).trans (by rw [decide_eq_true size])
  · rw [if_neg size]
    exact (value (text.getD 0 0 = backquote) (by rwa [if_neg size])).trans (by rw [decide_eq_false size])

/-! ## Turns -/

theorem interp_alnums (env : Env) (limit : Nat) (here : Text w.bytes i text) :
    (Access.alnums limit i).interp (onLine env) w = ((text.takeWhile isAlnum).take limit, w) := by
  induction limit generalizing i text with
  | zero => rfl
  | succ limit ih =>
      refine (interp_read (j := 0) env here (Nat.zero_le _) _).trans ?_
      cases text with
      | nil => rfl
      | cons c rest =>
          by_cases alnum : isAlnum c = true
          · refine (Prog.interp_pos alnum _ _ w).trans ?_
            refine (Prog.interp_bind _ _ _ _).trans ?_
            rw [ih (here.from (j := 1) (by simp)), List.takeWhile_cons_of_pos alnum]
            rfl
          · refine (Prog.interp_neg alnum _ _ w).trans ?_
            rw [List.takeWhile_cons_of_neg alnum]
            rfl

/-- A lookup of a quoted name, and what is behind it. -/
theorem interp_quoted (env : Env) {mark : UInt8} {get : Nat → Parsing (Option Word)} {value : Bytes → Option Word}
    (gives : ∀ {w : LineMemory} {text : Bytes}, Text w.bytes i text → ((get i).interp (onLine env) w).1 = value text)
    (gets : ∀ {w : LineMemory} {text : Bytes}, Text w.bytes i text →
      (get i).wp lineBounds (fun _ w' => Frame i text.length w w') w) (here : Text w.bytes i text) :
    ∃ r w', (Access.quoted mark i get).interp (onLine env) w = (r, w') ∧
      (r.map Prod.fst = (cutAt mark text).2.bind fun _ => value (cutAt mark text).1) ∧
      ∀ temp p rest, r = some (temp, p) → (cutAt mark text).2 = some rest → Text w'.bytes p rest := by
  cases found : (cutAt mark text).2 with
  | none =>
      refine ⟨none, w, ?_, rfl, nofun⟩
      refine (interp_strchr env here _ _).trans ?_
      rw [found]
      rfl
  | some rest =>
      obtain ⟨left, right⟩ := here.cutAt found
      let w₁ : LineMemory := { w with bytes := w.bytes.set (i + (cutAt mark text).1.length) 0 }
      have given := gives (w := w₁) left
      have frame := Prog.interp_of_wp (onLine_answers env) (gets (w := w₁) left)
      have behind : Text ((get i).interp (onLine env) w₁).2.bytes (i + (cutAt mark text).1.length + 1) rest :=
        right.congr fun j le _ => frame.same j (by omega)
      have ran (k : Option Nat → Parsing (Option (Word × Nat))) : (Access.strchr i mark >>= k).interp (onLine env) w =
          (k (some (i + (cutAt mark text).1.length))).interp (onLine env) w := by
        rw [interp_strchr env here, found]
        rfl
      cases read : value (cutAt mark text).1 with
      | none =>
          refine ⟨none, ((get i).interp (onLine env) w₁).2, ?_, rfl, nofun⟩
          refine ((ran _).trans (Prog.interp_bind (onLine env) (get i) _ w₁)).trans ?_
          rw [given, read]
          rfl
      | some temp =>
          refine ⟨some (temp, i + (cutAt mark text).1.length + 1), ((get i).interp (onLine env) w₁).2, ?_, rfl, ?_⟩
          · refine ((ran _).trans (Prog.interp_bind (onLine env) (get i) _ w₁)).trans ?_
            rw [given, read]
            rfl
          · rintro _ _ _ ⟨⟩ ⟨⟩
            exact behind

/-- The same operator, with the rest of the text at its pointer. -/
def SameSign (bytes : Bytes) (sign : Operator × Nat) (sign' : Operator × Bytes) : Prop :=
  sign.1 = sign'.1 ∧ Text bytes sign.2 sign'.2

theorem operatorAt_unknown {line : Bytes} (unknown : c ∉ ([43, 45, 38, 124, 94, 61, 33, 60, 62, 42, 47] : Bytes)) :
    operatorAt c line = none := by
  unfold operatorAt
  split
  all_goals first
    | rfl
    | exact absurd (by decide) unknown

theorem interp_operatorAt (env : Env) {line : Bytes} (here : Text w.bytes i (c :: line)) :
    Option.Rel (SameSign w.bytes) ((Access.operatorAt c i).interp (onLine env) w).1 (operatorAt c line) := by
  have one (op : Operator) : Option.Rel (SameSign w.bytes) (some (op, i + 1)) (some (op, line)) :=
    .some ⟨rfl, here.from (j := 1) (by simp)⟩
  have two {op : Operator} {d : UInt8} (head : line.head? = some d) :
      Option.Rel (SameSign w.bytes) (some (op, i + 2)) (some (op, line.tail)) := by
    cases line with
    | nil => cases head
    | cons d line => exact .some ⟨rfl, here.from (j := 2) (by simp)⟩
  have next {d : UInt8} (some_ : d ≠ 0) {p q : Parsing (Option (Operator × Nat))} {r r' : Option (Operator × Bytes)}
      (yes : line.head? = some d → Option.Rel (SameSign w.bytes) (p.interp (onLine env) w).1 r)
      (no : Option.Rel (SameSign w.bytes) (q.interp (onLine env) w).1 r') :
      Option.Rel (SameSign w.bytes) ((Access.read (i + 1) >>= fun e => if e = d then p else q).interp (onLine env) w).1
        (if line.head? = some d then r else r') := by
    rw [interp_read env here (by simp)]
    have same : (c :: line).getD 1 0 = d ↔ line.head? = some d := by
      cases line with
      | nil => simp [some_.symm]
      | cons e line => simp
    by_cases head : line.head? = some d
    · rw [if_pos (same.mpr head), if_pos head]
      exact yes head
    · rw [if_neg fun is => head (same.mp is), if_neg head]
      exact no
  unfold Access.operatorAt
  split
  · exact one _
  · exact one _
  · exact next (by decide) two (one _)
  · exact next (by decide) two (one _)
  · exact one _
  · exact next (by decide) two .none
  · exact next (by decide) two .none
  · exact next (by decide) two (next (by decide) two (one _))
  · exact next (by decide) two (next (by decide) two (one _))
  · exact one _
  · exact one _
  · rw [operatorAt_unknown]
    · exact .none
    · simp only [List.mem_cons, List.not_mem_nil, or_false, not_or]
      and_intros
      all_goals assumption

/-- A turn at a pointer and in the text, where a lookup fails in the turn at the pointer. -/
def Agrees (env : Env) (r : Access.Turned × LineMemory) (t : Turn) : Prop :=
  match r.1, t with
  | .fails, .fails | .opens, .opens => True
  | .fails, .looksUp o _ => (env.lookup o).value = none
  | .skips st p, .skips st' rest => st = st' ∧ Text r.2.bytes p rest
  | .operand temp p, .looksUp o rest => (env.lookup o).value = some temp ∧ Text r.2.bytes p rest
  | .operand temp p, .number temp' rest => temp = temp' ∧ Text r.2.bytes p rest
  | _, _ => False

theorem Agrees.pos {q : Prop} [Decidable q] {yes no : Parsing Access.Turned} {t : Turn} (holds : q)
    (agrees : Agrees env (yes.interp (onLine env) w) t) : Agrees env ((if q then yes else no).interp (onLine env) w) t := by
  rwa [if_pos holds]

theorem Agrees.neg {q : Prop} [Decidable q] {yes no : Parsing Access.Turned} {t : Turn} (fails : ¬ q)
    (agrees : Agrees env (no.interp (onLine env) w) t) : Agrees env ((if q then yes else no).interp (onLine env) w) t := by
  rwa [if_neg fails]

theorem turn_unnamed {st : Loop} {line : Bytes} (kind : isKind c) (unnamed : nameAt c line = none) : turn st c line = .fails := by
  obtain ⟨space, noStar, noTilde, -⟩ := kind_apart c kind
  rw [turn, space, if_neg Bool.false_ne_true, if_neg fun both => noStar both.1, if_neg noTilde, if_pos kind, unnamed]

theorem agrees_quoted (env : Env) (st : Loop) (kind : Kind) (noRegister : kind ≠ .register) {line : Bytes}
    {get : Nat → Parsing (Option Word)}
    (gives : ∀ {w : LineMemory} {text : Bytes}, Text w.bytes (i + 1) text →
      ((get (i + 1)).interp (onLine env) w).1 = (env.lookup ⟨kind, text⟩).value)
    (gets : ∀ {w : LineMemory} {text : Bytes}, Text w.bytes (i + 1) text →
      (get (i + 1)).wp lineBounds (fun _ w' => Frame (i + 1) text.length w w') w) (here : Text w.bytes i (kind.mark :: line)) :
    Agrees env ((Access.quoted kind.mark (i + 1) get >>= fun r => return Access.found r).interp (onLine env) w)
      (turn st kind.mark line) := by
  obtain ⟨r, w', ran, value, behind⟩ := interp_quoted env gives gets (here.from (j := 1) (by simp))
  have isKind_mark : isKind kind.mark = true := by cases kind <;> decide
  have named : nameAt kind.mark line = (cutAt kind.mark line).2.map fun rest => (⟨kind, (cutAt kind.mark line).1⟩, rest) := by
    cases kind
    · exact absurd rfl noRegister
    all_goals rfl
  rw [Prog.interp_bind, ran]
  rw [List.drop_one, List.tail_cons] at value behind
  cases found : (cutAt kind.mark line).2 with
  | none =>
      rw [found, Option.map_none] at named
      rw [found, Option.bind_none, Option.map_eq_none_iff] at value
      rw [turn_unnamed isKind_mark named, value]
      trivial
  | some rest =>
      rw [found, Option.map_some] at named
      rw [found, Option.bind_some] at value
      rw [turn_kind isKind_mark named]
      cases r with
      | none => exact value.symm
      | some read => exact ⟨value.symm, behind read.1 read.2 rest rfl found⟩

theorem interp_turn (env : Env) (st : Loop) {line : Bytes} (here : Text w.bytes i (c :: line)) :
    Agrees env ((Access.turn st c i).interp (onLine env) w) (turn st c line) := by
  have next : Text w.bytes (i + 1) line := here.from (j := 1) (by simp)
  unfold Access.turn
  by_cases space : isAspace c = true
  · refine .pos space ?_
    rw [turn_space space]
    exact ⟨rfl, next⟩
  refine .neg space ?_
  by_cases isStar : c = star ∧ st.op ≠ .none
  · refine .pos isStar ?_
    obtain ⟨rfl, more⟩ := isStar
    rw [turn_star more]
    exact ⟨rfl, next⟩
  refine .neg isStar ?_
  by_cases isTilde : c = tilde
  · refine .pos isTilde ?_
    subst isTilde
    rw [turn_tilde]
    exact ⟨rfl, next⟩
  refine .neg isTilde ?_
  by_cases isDollar : c = dollar
  · refine .pos isDollar ?_
    subst isDollar
    let buf := (line.takeWhile isAlnum).take 15
    have short : buf.length ≤ line.length := ((List.take_prefix _ _).trans (List.takeWhile_prefix _)).length_le
    have behind : Text w.bytes (i + 1 + buf.length) (line.drop buf.length) := next.from short
    have named : nameAt dollar line = some (⟨.register, buf⟩, line.drop buf.length) := rfl
    have value : (env.lookup ⟨.register, buf⟩).value = (env.getReg buf).value := rfl
    have answer : onLine env (.exceptionGetReg buf) w = ((env.getReg buf).value, w) := rfl
    rw [turn_kind (by decide) named, Prog.interp_bind, interp_alnums env 15 next, Prog.call_bind, Prog.interp_ask, answer]
    cases read : (env.getReg buf).value with
    | none => exact value.trans read
    | some temp => exact ⟨value.trans read, behind⟩
  refine .neg isDollar ?_
  by_cases isAt : c = at_
  · refine .pos isAt ?_
    subst isAt
    exact agrees_quoted env st .module_ (by decide) (interp_getModaddr env) wp_getModaddr here
  refine .neg isAt ?_
  by_cases isPercent : c = percent
  · refine .pos isPercent ?_
    subst isPercent
    exact agrees_quoted env st .thread (by decide) (interp_getThreadaddr env) wp_getThreadaddr here
  refine .neg isPercent ?_
  by_cases isQuestion : c = question
  · refine .pos isQuestion ?_
    subst isQuestion
    exact agrees_quoted env st .symbol (by decide) (interp_getSymbol env) wp_getSymbol here
  refine .neg isQuestion ?_
  have noKind : ¬ isKind c = true := by simp [isKind, isDollar, isAt, isPercent, isQuestion]
  by_cases isOpening : c = opening
  · refine .pos isOpening ?_
    subst isOpening
    rw [turn_opening]
    trivial
  refine .neg isOpening ?_
  rw [turn, if_neg space, if_neg isStar, if_neg isTilde, if_neg noKind, if_neg isOpening]
  by_cases hex : isHex c = true
  · refine .pos hex ?_
    rw [if_pos hex]
    by_cases done : st.op = .none
    · refine .pos done ?_
      rw [if_pos done]
      trivial
    · refine .neg done ?_
      rw [if_neg done, interp_strtoul env here]
      exact ⟨rfl, here.strtoul 0⟩
  refine .neg hex ?_
  rw [if_neg hex]
  by_cases more : st.op ≠ .none
  · refine .pos more ?_
    rw [if_pos more]
    trivial
  · refine .neg more ?_
    have sign := interp_operatorAt env here
    have same := (Prog.interp_of_wp (onLine_answers env) (wp_operatorAt c here (by simp))).1
    rw [if_neg more, Prog.interp_bind, same]
    generalize ((Access.operatorAt c i).interp (onLine env) w).1 = r at sign ⊢
    generalize operatorAt c line = r' at sign ⊢
    cases sign with
    | none => trivial
    | some both => exact ⟨by rw [both.1], both.2⟩

/-! ## The loop -/

theorem interp_scan (env : Env) {fuel depth : Nat} (opened : 0 < depth) (here : Text w.bytes i text) (enough : text.length < fuel) :
    ∃ r, (Access.scan fuel depth i).interp (onLine env) w = (some r, w) ∧ (bracket depth text = none → r.1 ≠ 0) ∧
      ∀ inner rest, bracket depth text = some (inner, rest) → r = (0, i + inner.length) := by
  induction fuel generalizing depth i text with
  | zero => cases enough
  | succ fuel ih =>
      have read (k : UInt8 → Parsing (Option (Nat × Nat))) := interp_read (j := 0) env here (Nat.zero_le _) k
      cases text with
      | nil =>
          refine ⟨(depth, i), (read _).trans rfl, fun _ => Nat.ne_of_gt opened, fun inner rest found => ?_⟩
          cases found
      | cons c rest =>
          have some_ : c ≠ 0 := fun nul => here.nulFree (by rw [nul]; exact List.mem_cons_self)
          have goesOn {depth' : Nat} (opened : 0 < depth') (same : bracket depth (c :: rest) =
              (bracket depth' rest).map fun cut => (c :: cut.1, cut.2)) :
              ∃ r, (Access.scan fuel depth' (i + 1)).interp (onLine env) w = (some r, w) ∧
                (bracket depth (c :: rest) = none → r.1 ≠ 0) ∧
                ∀ inner back, bracket depth (c :: rest) = some (inner, back) → r = (0, i + inner.length) := by
            obtain ⟨r, ran, open_, closed⟩ := ih opened (here.from (j := 1) (by simp)) (Nat.lt_of_succ_lt_succ enough)
            refine ⟨r, ran, ?_, ?_⟩
            · rw [same, Option.map_eq_none_iff]
              exact open_
            · rw [same]
              intro inner back found
              obtain ⟨⟨inner', back'⟩, within, split⟩ := Option.map_eq_some_iff.mp found
              obtain ⟨rfl, rfl⟩ := Prod.mk.inj split
              change r = (0, i + (c :: inner').length)
              rw [closed _ _ within, List.length_cons]
              congr 1
              omega
          by_cases isOpening : c = opening
          · obtain ⟨r, ran, counts⟩ := goesOn (Nat.succ_pos depth) (by
              rw [bracket, if_neg fun both => absurd (isOpening.symm.trans both.1) (by decide)]
              dsimp only
              rw [if_pos isOpening])
            exact ⟨r, (read _).trans ((Prog.interp_neg some_ _ _ w).trans ((Prog.interp_pos isOpening _ _ w).trans ran)), counts⟩
          by_cases isClosing : c = closing
          · by_cases last : depth = 1
            · refine ⟨(0, i), ?_, ?_, ?_⟩
              · refine (read _).trans ((Prog.interp_neg some_ _ _ w).trans ((Prog.interp_neg isOpening _ _ w).trans ?_))
                exact (Prog.interp_pos isClosing _ _ w).trans (Prog.interp_pos (by omega) _ _ w)
              · rw [bracket, if_pos ⟨isClosing, last⟩]
                intro open_
                cases open_
              · rw [bracket, if_pos ⟨isClosing, last⟩]
                rintro _ _ ⟨⟩
                rfl
            · obtain ⟨r, ran, counts⟩ := goesOn (by omega : 0 < depth - 1) (by
                rw [bracket, if_neg fun both => last both.2]
                dsimp only
                rw [if_neg isOpening, if_pos isClosing])
              refine ⟨r, ?_, counts⟩
              refine (read _).trans ((Prog.interp_neg some_ _ _ w).trans ((Prog.interp_neg isOpening _ _ w).trans ?_))
              exact (Prog.interp_pos isClosing _ _ w).trans ((Prog.interp_neg (by omega) _ _ w).trans ran)
          · obtain ⟨r, ran, counts⟩ := goesOn opened (by
              rw [bracket, if_neg fun both => isClosing both.1]
              dsimp only
              rw [if_neg isOpening, if_neg isClosing])
            refine ⟨r, ?_, counts⟩
            refine (read _).trans ((Prog.interp_neg some_ _ _ w).trans ((Prog.interp_neg isOpening _ _ w).trans ?_))
            exact (Prog.interp_neg isClosing _ _ w).trans ran

/-- The value, where there is one. -/
def Ended.result : Ended → Option Word
  | .value val => some val
  | _ => none

/-- A call of `parse_line` leaves the line as it was behind its string. -/
theorem interp_call (env : Env) {fuel : Nat} {val : Option Word} (here : Text w.bytes i text)
    (most : turnsFor .first text.length ≤ fuel)
    (gives : ∀ {w : LineMemory}, Text w.bytes i text → Shortest w text.length →
      ((Access.loop fuel .first i).interp (onLine env) w).1.result = val) (k : Ended → Parsing Ended) :
    ∃ ended w', (do
        Prog.call (LineCall.parseLine i)
        let ended ← Access.loop fuel .first i
        Prog.call LineCall.returns
        k ended : Parsing Ended).interp (onLine env) w = (k ended).interp (onLine env) w' ∧ ended.result = val ∧
      ended ≠ .unfinished ∧ Frame i text.length w w' := by
  let w₁ : LineMemory := { w with calls := text.length :: w.calls }
  have entered : onLine env (.parseLine i) w = ((), w₁) := by
    rw [onLine, here.stringAt]
  have shortest : Shortest w₁ text.length := ⟨text.length, w.calls, rfl, Nat.le_refl _⟩
  have value := @gives w₁ here shortest
  have ran := Prog.interp_of_wp (onLine_answers env) (@wp_loop w₁ text i fuel .first here most shortest)
  generalize called : (Access.loop fuel .first i).interp (onLine env) w₁ = r at value ran
  obtain ⟨ended, w₂⟩ := r
  refine ⟨ended, { w₂ with calls := w₂.calls.tail }, ?_, value, ran.1, ran.2.length, congrArg List.tail ran.2.calls, ran.2.same⟩
  rw [Prog.call_bind, Prog.interp_ask, entered, Prog.interp_bind, called]
  rfl

/-- With so much fuel the loop gives the value of the text that stands there. -/
def LoopGives (env : Env) (fuel : Nat) : Prop :=
  ∀ (st : Loop) {i : Nat} {text : Bytes} {w : LineMemory}, Text w.bytes i text → turnsFor st text.length ≤ fuel →
    Shortest w text.length → ((Access.loop fuel st i).interp (onLine env) w).1.result = (parseLine env fuel st text).1

section Turn

variable {fuel p : Nat} {st st' : Loop} {w₁ : LineMemory}

/-- The loop goes on behind what a turn has taken. -/
theorem interp_goesOn (gives : LoopGives env fuel) (shortest : Shortest w n) (frame : Frame i n w w₁)
    (there : Text w₁.bytes p rest) (ends : p + rest.length = i + n) (le : i ≤ p) (turns : turnsFor st' rest.length ≤ fuel) :
    ((Access.loop fuel st' p).interp (onLine env) w₁).1.result = (parseLine env fuel st' rest).1 := by
  refine gives st' there turns ?_
  obtain ⟨len, calls, same, le⟩ := shortest
  exact ⟨len, calls, frame.calls.trans same, by omega⟩

/-- An operand that takes nothing of the line follows an operator. -/
theorem interp_operates (gives : LoopGives env fuel) (shortest : Shortest w n) (enough : turnsFor st n ≤ fuel + 1)
    (frame : Frame i n w w₁) (there : Text w₁.bytes p rest) (ends : p + rest.length = i + n)
    (turns : i < p ∨ p = i ∧ st.op ≠ .none) {temp : Word} {k : Option Word → Parsing Ended}
    (fails : k none = return .failed) (operates : ∀ temp, k (some temp) = Access.loop fuel (st.after temp) p) :
    ((Prog.call (LineCall.derefAddr st.deref temp) >>= k).interp (onLine env) w₁).1.result =
      operate env fuel st rest temp := by
  have answer : onLine env (.derefAddr st.deref temp) w₁ = (env.derefAddr st.deref temp, w₁) := rfl
  rw [Prog.call_bind, Prog.interp_ask, answer, operate]
  cases env.derefAddr st.deref temp with
  | none =>
      rw [fails]
      rfl
  | some v =>
      rw [operates]
      refine interp_goesOn gives shortest frame there ends (by omega) ?_
      have after : turnsFor (st.after v) rest.length = 2 * rest.length + 1 := rfl
      rw [after]
      rcases turns with less | ⟨rfl, expected⟩
      · have := turnsFor_le st n
        unfold turnsFor at enough
        split at enough <;> omega
      · rw [turnsFor, if_neg expected] at enough
        omega

end Turn

/-- The call for the text in brackets. -/
theorem interp_brackets {fuel : Nat} {st : Loop} {line : Bytes} (gives : LoopGives env fuel)
    (shortest : Shortest w (line.length + 1)) (enough : turnsFor st (line.length + 1) ≤ fuel + 1)
    (inside : Text w.bytes (i + 1) line) :
    ((do
      match ← Access.scan fuel 1 (i + 1) with
      | none => return .unfinished
      | some (depth, pos) =>
          if depth ≠ 0 then return .failed
          Access.write pos 0
          Prog.call (LineCall.parseLine (i + 1))
          let ended ← Access.loop fuel .first (i + 1)
          Prog.call LineCall.returns
          match ended with
          | .value temp =>
              match ← Prog.call (LineCall.derefAddr st.deref temp) with
              | none => return .failed
              | some temp => Access.loop fuel (st.after temp) (pos + 1)
          | ended => return ended : Parsing Ended).interp (onLine env) w).1.result =
      (bracket 1 line).bind fun both => ((parseLine env fuel .first both.1).1).bind fun temp =>
        operate env fuel st both.2 temp := by
  have room : line.length < fuel := by
    unfold turnsFor at enough
    split at enough <;> omega
  obtain ⟨r, ran, open_, closed⟩ := interp_scan env (by decide : 0 < 1) inside room
  refine (congrArg (Ended.result ·.1) (Prog.interp_bind (onLine env) (Access.scan fuel 1 (i + 1)) _ w)).trans ?_
  rw [ran]
  cases cut : bracket 1 line with
  | none => exact congrArg (Ended.result ·.1) (Prog.interp_pos (open_ cut) _ _ w)
  | some both =>
      obtain ⟨inner, rest⟩ := both
      obtain rfl := closed inner rest cut
      refine (congrArg (Ended.result ·.1) (Prog.interp_neg (not_not.mpr rfl : ¬ (0 : Nat) ≠ 0) _ _ w)).trans ?_
      have split := bracket_split cut
      rw [split] at inside
      have lengths := congrArg List.length split
      rw [List.length_append, List.length_cons] at lengths
      have left := inside.cut
      have right := inside.behind
      let w₂ : LineMemory := { w with bytes := w.bytes.set (i + 1 + inner.length) 0 }
      have most := turnsFor_le .first inner.length
      have fits : turnsFor .first inner.length ≤ fuel := by
        rw [turnsFor] at enough
        split at enough <;> omega
      obtain ⟨ended, w₃, called, value, finished, frame₃⟩ :=
        @interp_call w₂ _ _ env fuel _ left fits (fun there shortest => gives .first there fits shortest) _
      refine (congrArg (Ended.result ·.1) called).trans ?_
      have whole : Frame i (line.length + 1) w w₃ :=
        (Frame.write ⟨by omega, by omega⟩ 0).trans (frame₃.widen (by omega) (by omega))
      rw [Option.bind_some, ← value]
      cases ended with
      | failed => rfl
      | unfinished => exact absurd rfl finished
      | value temp =>
          change _ = operate env fuel st rest temp
          refine interp_operates gives shortest enough whole ?_ (by omega) (.inl (by omega)) rfl fun _ => rfl
          exact right.congr fun j le _ => frame₃.same j (by omega)

theorem interp_loop (env : Env) {fuel : Nat} (st : Loop) (here : Text w.bytes i text) (enough : turnsFor st text.length ≤ fuel)
    (shortest : Shortest w text.length) :
    ((Access.loop fuel st i).interp (onLine env) w).1.result = (parseLine env fuel st text).1 := by
  induction fuel generalizing st i text w with
  | zero =>
      unfold turnsFor at enough
      split at enough <;> omega
  | succ fuel ih =>
      have gives : LoopGives env fuel := fun st _ _ _ here enough shortest => ih st here enough shortest
      have read (k : UInt8 → Parsing Ended) := interp_read (j := 0) env here (Nat.zero_le _) k
      cases text with
      | nil => exact congrArg (Ended.result ·.1) (read _)
      | cons c line =>
          have some_ : c ≠ 0 := fun nul => here.nulFree (by rw [nul]; exact List.mem_cons_self)
          have agrees := interp_turn env st here
          have bounds := Prog.interp_of_wp (onLine_answers env) (wp_turn st c here (by simp))
          refine (congrArg (Ended.result ·.1) (read _)).trans ?_
          refine (congrArg (Ended.result ·.1) (Prog.interp_neg some_ _ _ w)).trans ?_
          refine (congrArg (Ended.result ·.1) (Prog.interp_bind (onLine env) (Access.turn st c i) _ w)).trans ?_
          generalize (Access.turn st c i).interp (onLine env) w = r at agrees bounds ⊢
          obtain ⟨t, w₁⟩ := r
          obtain ⟨frame, unchanged, turns⟩ := bounds
          cases t with
          | fails =>
              cases is : turn st c line with
              | fails => exact (parse_fails is).symm
              | looksUp o rest =>
                  rw [is] at agrees
                  rw [parse_looksUp is, show (env.lookup o).value = none from agrees]
                  rfl
              | _ => rw [is] at agrees; exact agrees.elim
          | skips st' p =>
              cases is : turn st c line with
              | skips next rest =>
                  rw [is] at agrees
                  obtain ⟨rfl, there⟩ := agrees
                  obtain ⟨less, rest', there', ends⟩ := turns
                  obtain rfl := there.unique there'
                  rw [parse_skips is]
                  refine interp_goesOn gives shortest frame there ends less.le ?_
                  have := turnsFor_le st' rest.length
                  unfold turnsFor at enough
                  split at enough <;> omega
              | _ => rw [is] at agrees; exact agrees.elim
          | operand temp p =>
              cases is : turn st c line with
              | looksUp o rest =>
                  rw [is] at agrees
                  obtain ⟨value, there⟩ := agrees
                  obtain ⟨less, rest', there', ends⟩ := turns
                  obtain rfl := there.unique there'
                  rw [parse_looksUp is, value]
                  exact interp_operates gives shortest enough frame there ends less rfl fun _ => rfl
              | number temp' rest =>
                  rw [is] at agrees
                  obtain ⟨rfl, there⟩ := agrees
                  obtain ⟨less, rest', there', ends⟩ := turns
                  obtain rfl := there.unique there'
                  rw [parse_number is]
                  exact interp_operates gives shortest enough frame there ends less rfl fun _ => rfl
              | _ => rw [is] at agrees; exact agrees.elim
          | opens =>
              cases is : turn st c line with
              | opens =>
                  obtain rfl : w₁ = w := unchanged rfl
                  rw [parse_opens is]
                  exact interp_brackets gives shortest enough (here.from (j := 1) (by simp))
              | _ => rw [is] at agrees; exact agrees.elim

end

theorem parse_fuel {env : Env} {st : Loop} {line : Bytes} {fuel fuel' : Nat} (enough : line.length < fuel)
    (enough' : line.length < fuel') : (parseLine env fuel st line).1 = (parseLine env fuel' st line).1 := by
  refine Option.ext fun v => ⟨fun value => ?_, fun value => ?_⟩
  · obtain ⟨st', k, reads, rfl⟩ := reads_of_parse value
    exact parse_of_reads reads rfl enough'
  · obtain ⟨st', k, reads, rfl⟩ := reads_of_parse value
    exact parse_of_reads reads rfl enough

/-- A copied line has the value that its text has. -/
theorem parse_line_decodes (env : Env) (line : CStr) (fuel : Nat) (enough : 2 * (lineBuf line).length + 2 ≤ fuel) :
    ((Access.parseLine fuel 0).interp (onLine env) ⟨lineBuf line ++ [0], []⟩).1.result = memDecode env line := by
  have nulFree : 0 ∉ lineBuf line := fun mem => line.nulFree (List.mem_of_mem_take mem)
  have here : Text (lineBuf line ++ [0]) 0 (lineBuf line) := text_copied ⟨lineBuf line, nulFree⟩
  obtain ⟨ended, w', called, value, -⟩ := @interp_call ⟨lineBuf line ++ [0], []⟩ _ 0 env fuel _ here
    ((turnsFor_le _ _).trans enough) (fun there shortest => interp_loop env .first there ((turnsFor_le _ _).trans enough) shortest)
    pure
  rw [memDecode, decodeLog, parse_fuel (by omega) (by omega : (lineBuf line).length < fuel), ← value]
  exact congrArg (Ended.result ·.1) called

theorem sum_in_place : ((Access.parseLine 28 0).interp (onLine bareEnv) ⟨lineBuf sumLine ++ [0], []⟩).1.result =
    memDecode bareEnv sumLine :=
  parse_line_decodes bareEnv sumLine 28 (by decide)

end Psplink.Address
