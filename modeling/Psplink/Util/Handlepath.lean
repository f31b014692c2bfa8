import Psplink.Lib.Components
import Psplink.Util.Text

/-!
# Directories of the shell

`handlepath` of psplink/util.c, and `normalize_path`, which edits the path in place. A C string is its
bytes up to the terminator, and a pointer into the path is an index.
-/

namespace Psplink.Util
open Psplink.Lib

def slash : UInt8 := 47
def colon : UInt8 := 58
def dot : Bytes := [46]
def dotdot : Bytes := [46, 46]

/-- From an index on. -/
def strchr (s : Bytes) (i : Nat) (c : UInt8) : Option Nat := ((s.drop i).findIdx? (· = c)).map (i + ·)

/-- `strncmp` finds no difference. -/
def sameFront (a b : Bytes) (n : Nat) : Bool := a.take n = b.take n

structure Walk where
  path : Bytes
  lastDir : Option Nat
  currPos : Nat

/-- The last slash up to an index, or the start. -/
def lastSlash (path : Bytes) : Nat → Nat
  | 0 => 0
  | i + 1 => if path.getD (i + 1) 0 = slash then i + 1 else lastSlash path i

namespace Walk

/-- `strcpy(last_dir, curr_pos)` -/
def cut (w : Walk) (lastDir : Nat) : Walk :=
  ⟨w.path.take lastDir ++ w.path.drop w.currPos, some lastDir, lastDir⟩

/-- What a turn does with the component between the last slash and this one. -/
def fold (w : Walk) (lastDir : Nat) : Walk :=
  if sameFront (w.path.drop lastDir) (slash :: dot) (w.currPos - lastDir) then w.cut lastDir
  else if sameFront (w.path.drop lastDir) (slash :: dotdot) (w.currPos - lastDir) then
    let lastPos := lastSlash w.path (lastDir - 1)
    w.cut (if 0 < lastPos then lastPos else lastDir)
  else w

def folded (w : Walk) : Walk :=
  match w.lastDir with
  | none => w
  | some lastDir => w.fold lastDir

/-- Each turn moves on to a later slash. -/
def run : Nat → Walk → Bytes
  | 0, w => w.path
  | fuel + 1, w =>
      match strchr w.folded.path (w.folded.currPos + 1) slash with
      | none => w.folded.path
      | some next => run fuel ⟨w.folded.path, some w.folded.currPos, next⟩

end Walk

/-- The path cannot start with a slash. -/
def normalizePath (path : Bytes) : Option Bytes :=
  if path.head? = some slash then none
  else match strchr path 0 slash with
    | none => some path
    | some currPos => some (Walk.run path.length ⟨path, none, currPos⟩)

inductive PathType
  | file
  | dir
  | ether
deriving DecidableEq

/-- The files that the drivers know. -/
structure Drives where
  isdir : Bytes → Bool
  opens : Bytes → Bool

def Drives.validates (drives : Drives) (type : PathType) (path : Bytes) : Bool :=
  match type with
  | .dir => drives.isdir path
  | .file => drives.opens path
  | .ether => false

def upToColon (s : Bytes) : Bytes := s.take ((s.takeWhile (· ≠ colon)).length + 1)

/-- What the relative path is put behind. -/
def startDir (currentdir relative : Bytes) : Bytes :=
  if colon ∈ relative then []
  else if relative.head? = some slash then upToColon currentdir
  else currentdir

def finalSlash (type : PathType) (path : Bytes) : Bytes :=
  match type with
  | .dir => if path.getLast? = some slash then path else path ++ [slash]
  | .file => if path.getLast? = some slash then path.dropLast else path
  | .ether => path

def handlepath (drives : Drives) (currentdir relative : Bytes) (type : PathType) (valid : Bool) : Option Bytes :=
  let path := (startDir currentdir relative ++ relative).rdropWhile isAspace
  if path = [] then none
  else (normalizePath (finalSlash type path)).bind fun path =>
    if valid && !drives.validates type path then none else some path

/-! ## Components that have been kept -/

/-- What stands before a slash: the drive and the components so far. -/
def kept (drive : Bytes) (ws : List Bytes) : Bytes := drive ++ ws.flatMap (slash :: ·)

theorem kept_concat (drive : Bytes) (ws : List Bytes) (w : Bytes) :
    kept drive (ws ++ [w]) = kept drive ws ++ slash :: w := by
  simp [kept]

theorem findIdx_slash {piece : Bytes} (noSlash : slash ∉ piece) : piece.findIdx? (· = slash) = none :=
  List.findIdx?_eq_none_iff.mpr fun _ mem => decide_eq_false fun same => noSlash (same ▸ mem)

theorem strchr_slash {front piece rest : Bytes} (noSlash : slash ∉ piece) :
    strchr (front ++ (piece ++ slash :: rest)) front.length slash = some (front.length + piece.length) := by
  have found : (piece ++ slash :: rest).findIdx? (· = slash) = some piece.length := by
    rw [List.findIdx?_append, findIdx_slash noSlash, List.findIdx?_cons]
    simp
  rw [strchr, List.drop_left, found]
  rfl

theorem strchr_none {front rest : Bytes} (noSlash : slash ∉ rest) : strchr (front ++ rest) front.length slash = none := by
  rw [strchr, List.drop_left, findIdx_slash noSlash]
  rfl

/-- Going back from the end of a component ends at its slash. -/
theorem lastSlash_back {front w : Bytes} (noSlash : slash ∉ w) (rest : Bytes) :
    lastSlash (front ++ slash :: (w ++ rest)) (front.length + w.length) = front.length := by
  induction w using List.reverseRecOn generalizing rest with
  | nil =>
      rw [List.length_nil, Nat.add_zero]
      cases size : front.length with
      | zero => rfl
      | succ n =>
          have here : (front ++ slash :: ([] ++ rest)).getD (n + 1) 0 = slash := by
            rw [← size]
            simp
          rw [lastSlash, if_pos here]
  | append_singleton w c ih =>
      have here : (front ++ slash :: (w ++ [c] ++ rest)).getD (front.length + w.length + 1) 0 = c := by
        rw [Nat.add_assoc]
        simp
      have other : c ≠ slash := fun same => noSlash (by simp [same])
      rw [List.length_append, List.length_singleton, ← Nat.add_assoc, lastSlash, if_neg (here.trans_ne other), List.append_assoc]
      exact ih (fun mem => noSlash (List.mem_append_left _ mem)) ([c] ++ rest)

/-- Without a slash in the drive it ends at the start. -/
theorem lastSlash_drive {drive : Bytes} (noSlash : slash ∉ drive) (rest : Bytes) {i : Nat} (inside : i < drive.length) :
    lastSlash (drive ++ rest) i = 0 := by
  induction i with
  | zero => rfl
  | succ i ih =>
      have other : (drive ++ rest).getD (i + 1) 0 ≠ slash := by
        rw [List.getD_eq_getElem?_getD, List.getElem?_append_left inside, List.getElem?_eq_getElem inside]
        exact fun same => noSlash (same ▸ List.getElem_mem inside)
      rw [lastSlash, if_neg other]
      exact ih (Nat.lt_of_succ_lt inside)

namespace Walk

/-- The two slashes of a turn and what is between them. -/
def between (front piece rest : Bytes) : Walk :=
  ⟨front ++ slash :: (piece ++ slash :: rest), some front.length, front.length + 1 + piece.length⟩

/-- At a slash, with everything before it looked at. -/
structure Stands (w : Walk) (front rest : Bytes) : Prop where
  path : w.path = front ++ slash :: rest
  currPos : w.currPos = front.length

theorem drop_between (front piece rest : Bytes) :
    (front ++ slash :: (piece ++ slash :: rest)).drop (front.length + 1 + piece.length) = slash :: rest := by
  rw [Nat.add_assoc, ← List.drop_drop, List.drop_left, Nat.add_comm, List.drop_succ_cons, List.drop_left]

theorem sameFront_between (front piece rest w : Bytes) :
    sameFront ((between front piece rest).path.drop front.length) (slash :: w)
      ((between front piece rest).currPos - front.length) = decide (piece <+: w) := by
  have size : front.length + 1 + piece.length - front.length = piece.length + 1 := by omega
  have here : (slash :: (piece ++ slash :: rest)).take (piece.length + 1) = slash :: piece := by
    rw [List.take_succ_cons, List.take_left]
  rw [sameFront, between, size, List.drop_left, here, List.take_succ_cons]
  exact decide_eq_decide.mpr ((List.cons_inj_right slash).trans List.prefix_iff_eq_take.symm)

theorem prefix_dot (piece : Bytes) : piece <+: dot ↔ piece = [] ∨ piece = dot := by
  simp [dot, List.prefix_cons_iff]

theorem prefix_dotdot (piece : Bytes) : piece <+: dotdot ↔ piece = [] ∨ piece = dot ∨ piece = dotdot := by
  simp only [dotdot, dot, List.prefix_cons_iff, List.prefix_nil]
  constructor
  · rintro (rfl | ⟨t, rfl, rfl | ⟨u, rfl, rfl⟩⟩) <;> simp
  · rintro (rfl | rfl | rfl) <;> simp

/-- The text is taken out from an earlier place on. -/
theorem stands_cut (front piece rest : Bytes) {front' : Bytes} (earlier : front' <+: front) :
    ((between front piece rest).cut front'.length).Stands front' rest := by
  obtain ⟨more, rfl⟩ := earlier
  refine ⟨?_, rfl⟩
  have after := drop_between (front' ++ more) piece rest
  simp only [cut, between, after]
  rw [List.append_assoc, List.take_left]

variable {drive : Bytes} {ws : List Bytes} {piece : Bytes}

theorem fold_stays (front rest : Bytes) (stays : piece = [] ∨ piece = dot) :
    ((between front piece rest).fold front.length).Stands front rest := by
  rw [fold, sameFront_between, if_pos (decide_eq_true ((prefix_dot piece).mpr stays))]
  exact stands_cut front piece rest List.prefix_rfl

theorem fold_keeps (front rest : Bytes) (name : piece ≠ [] ∧ piece ≠ dot ∧ piece ≠ dotdot) :
    ((between front piece rest).fold front.length).Stands (front ++ slash :: piece) rest := by
  obtain ⟨nonempty, notDot, notUp⟩ := name
  have notDot' : ¬ piece <+: dot := by simp [prefix_dot, nonempty, notDot]
  have notUp' : ¬ piece <+: dotdot := by simp [prefix_dotdot, nonempty, notDot, notUp]
  rw [fold, sameFront_between, sameFront_between, decide_eq_false notDot', decide_eq_false notUp']
  exact ⟨by simp [between], by simp [between]; omega⟩

theorem fold_up (nonempty : drive ≠ []) (noSlash : slash ∉ drive) (plain : ∀ w ∈ ws, slash ∉ w) (rest : Bytes) :
    ((between (kept drive ws) dotdot rest).fold (kept drive ws).length).Stands (kept drive ws.dropLast) rest := by
  have size : 0 < drive.length := List.length_pos_iff.mpr nonempty
  have notDot : ¬ dotdot <+: dot := by decide
  have up : dotdot <+: dotdot := List.prefix_rfl
  rw [fold, sameFront_between, sameFront_between, decide_eq_false notDot, decide_eq_true up, if_neg Bool.false_ne_true,
    if_pos rfl]
  induction ws using List.reverseRecOn with
  | nil =>
      have back : lastSlash (between (kept drive []) dotdot rest).path ((kept drive []).length - 1) = 0 := by
        simp only [kept, between, List.flatMap_nil, List.append_nil]
        exact lastSlash_drive noSlash _ (Nat.sub_lt size Nat.one_pos)
      simp only [back]
      exact stands_cut _ dotdot rest List.prefix_rfl
  | append_singleton ws w =>
      have back : lastSlash (between (kept drive (ws ++ [w])) dotdot rest).path ((kept drive (ws ++ [w])).length - 1) =
          (kept drive ws).length := by
        have len : (kept drive (ws ++ [w])).length - 1 = (kept drive ws).length + w.length := by
          rw [kept_concat, List.length_append, List.length_cons]
          omega
        rw [len, between, kept_concat, List.append_assoc, List.cons_append]
        exact lastSlash_back (plain w (by simp)) _
      have later : 0 < (kept drive ws).length := by
        rw [kept, List.length_append]
        omega
      simp only [back, if_pos later]
      rw [List.dropLast_concat]
      exact stands_cut _ dotdot rest ⟨_, (kept_concat drive ws w).symm⟩

/-- The components up to the next slash, resolved together with the earlier ones. -/
theorem folded_between (nonempty : drive ≠ []) (noSlash : slash ∉ drive) (plain : ∀ w ∈ ws, slash ∉ w)
    (name : slash ∉ piece) (rest : Bytes) :
    (between (kept drive (resolve dot dotdot ws)) piece rest).folded.Stands
      (kept drive (resolve dot dotdot (ws ++ components slash piece))) rest := by
  change ((between _ piece rest).fold (kept drive (resolve dot dotdot ws)).length).Stands _ rest
  by_cases empty : piece = []
  · subst empty
    rw [components_nil, List.append_nil]
    exact fold_stays _ rest (.inl rfl)
  rw [components_piece ⟨empty, name⟩, resolve_concat]
  split
  · next here => exact fold_stays _ rest (.inr here)
  · next notDot =>
    split
    · next up =>
      subst up
      exact fold_up nonempty noSlash (fun w mem => plain w (mem_resolve mem).1) rest
    · next notUp =>
      rw [kept_concat]
      exact fold_keeps _ rest ⟨empty, notDot, notUp⟩

theorem run_closed (nonempty : drive ≠ []) (noSlash : slash ∉ drive) (plain : ∀ w ∈ ws, slash ∉ w) {rest : Bytes}
    (closed : rest = [] ∨ rest.getLast? = some slash) {fuel : Nat} (fuelled : rest.length < fuel) {w : Walk}
    (stands : w.folded.Stands (kept drive (resolve dot dotdot ws)) rest) :
    w.run fuel = kept drive (resolve dot dotdot (ws ++ components slash rest)) ++ [slash] := by
  induction fuel generalizing ws rest w with
  | zero => exact absurd fuelled (Nat.not_lt_zero _)
  | succ fuel ih =>
      let front := kept drive (resolve dot dotdot ws)
      have path : w.folded.path = (front ++ [slash]) ++ rest := by rw [stands.path, List.append_assoc]; rfl
      have pos : w.folded.currPos + 1 = (front ++ [slash]).length := by rw [stands.currPos, List.length_append]; rfl
      rw [run, path, pos]
      by_cases more : slash ∈ rest
      · obtain ⟨piece, after, rfl, name⟩ := List.eq_append_cons_of_mem more
        rw [strchr_slash name]
        have next : (⟨(front ++ [slash]) ++ (piece ++ slash :: after), some w.folded.currPos,
            (front ++ [slash]).length + piece.length⟩ : Walk) = between front piece after := by
          rw [stands.currPos, between]
          simp [front]
        change Walk.run fuel _ = _
        rw [next, components_append, ← List.append_assoc]
        refine @ih (ws ++ components slash piece) ?_ _ ?_ ?_ _ (folded_between nonempty noSlash plain name after)
        · intro v mem
          rcases List.mem_append.mp mem with mem | mem
          · exact plain v mem
          · exact (piece_of_mem_components mem).noSep
        · rcases closed with none | last
          · simp at none
          · rw [List.getLast?_append_cons] at last
            cases after with
            | nil => exact .inl rfl
            | cons c after => exact .inr (by rwa [List.getLast?_cons_cons] at last)
        · rw [List.length_append, List.length_cons] at fuelled
          omega
      · rw [strchr_none more]
        rcases closed with rfl | last
        · rw [components_nil, List.append_nil, List.append_nil]
        · exact absurd (List.mem_of_getLast? last) more

end Walk

/-- A path that ends in a slash becomes its drive and its components, resolved. -/
theorem normalizePath_closed {drive : Bytes} (nonempty : drive ≠ []) (noSlash : slash ∉ drive) {rest : Bytes}
    (closed : rest = [] ∨ rest.getLast? = some slash) :
    normalizePath (drive ++ slash :: rest) =
      some (kept drive (resolve dot dotdot (components slash rest)) ++ [slash]) := by
  have first : (drive ++ slash :: rest).head? ≠ some slash := by
    cases drive with
    | nil => exact absurd rfl nonempty
    | cons c drive => exact fun same => noSlash (Option.some.inj same ▸ List.mem_cons_self)
  have found : strchr (drive ++ slash :: rest) 0 slash = some drive.length := by
    have := @strchr_slash [] drive rest noSlash
    rwa [List.nil_append, List.length_nil, Nat.zero_add] at this
  rw [normalizePath, if_neg first, found]
  refine congrArg some (@Walk.run_closed drive [] nonempty noSlash (by simp) rest closed _ ?_ _ ⟨?_, ?_⟩)
  · have := List.length_pos_iff.mpr nonempty
    rw [List.length_append, List.length_cons]
    omega
  · simp [Walk.folded, kept, resolve]
  · simp [Walk.folded, kept, resolve]

/-! ## The current directory -/

structure Device where
  name : Bytes
  nonempty : name ≠ []
  noSlash : slash ∉ name
  noColon : colon ∉ name

/-- `dev:/c1/.../cn/` -/
structure Currdir where
  device : Device
  comps : List Bytes
  names : ∀ w ∈ comps, Piece slash w
  plain : ∀ w ∈ comps, w ≠ dot ∧ w ≠ dotdot

namespace Currdir

def text (dir : Currdir) : Bytes := dir.device.name ++ colon :: slash :: dir.comps.flatMap (· ++ [slash])

/-- The components from the root of a device. -/
def ofComponents (device : Device) (ws : List Bytes) (names : ∀ w ∈ ws, Piece slash w) : Currdir :=
  ⟨device, resolve dot dotdot ws, fun w mem => names w (mem_resolve mem).1, fun _ mem => (mem_resolve mem).2⟩

theorem flatMap_slash (ws : List Bytes) : ws.flatMap (slash :: ·) ++ [slash] = slash :: ws.flatMap (· ++ [slash]) := by
  induction ws with
  | nil => rfl
  | cons w ws ih => simp [List.flatMap_cons, ih]

theorem kept_eq_text (dir : Currdir) : kept (dir.device.name ++ [colon]) dir.comps ++ [slash] = dir.text := by
  rw [kept, text, List.append_assoc, flatMap_slash]
  simp

theorem components_flatMap {ws : List Bytes} (names : ∀ w ∈ ws, Piece slash w) (rest : Bytes) :
    components slash (ws.flatMap (· ++ [slash]) ++ rest) = ws ++ components slash rest := by
  induction ws with
  | nil => rfl
  | cons w ws ih =>
      rw [List.flatMap_cons, List.append_assoc, List.append_assoc, List.singleton_append,
        components_piece_append (names w List.mem_cons_self), ih fun v mem => names v (List.mem_cons_of_mem _ mem)]
      rfl

end Currdir

inductive Relative
  | plain (text : Bytes) (noColon : colon ∉ text)
  | onDevice (device : Device) (rest : Bytes) (noColon : colon ∉ rest)

def strip (text : Bytes) : Bytes := text.rdropWhile isAspace

namespace Relative

def text : Relative → Bytes
  | plain text _ => text
  | onDevice device rest _ => device.name ++ colon :: slash :: rest

def device (dir : Currdir) : Relative → Device
  | plain _ _ => dir.device
  | onDevice device _ _ => device

/-- The components from the root on, not yet resolved. -/
def comps (dir : Currdir) : Relative → List Bytes
  | plain text _ => (if text.head? = some slash then [] else dir.comps) ++ components slash (strip text)
  | onDevice _ rest _ => components slash (strip rest)

theorem names (dir : Currdir) (r : Relative) : ∀ w ∈ r.comps dir, Piece slash w := by
  intro w mem
  cases r with
  | plain text noColon =>
      rcases List.mem_append.mp mem with mem | mem
      · split at mem
        · cases mem
        · exact dir.names w mem
      · exact piece_of_mem_components mem
  | onDevice device rest noColon => exact piece_of_mem_components mem

/-- The directory that a string means in another. -/
def target (r : Relative) (dir : Currdir) : Currdir := .ofComponents (r.device dir) (r.comps dir) (r.names dir)

end Relative

/-! ## Changing the directory -/

theorem strip_append (front text : Bytes) : strip (front ++ slash :: text) = front ++ slash :: strip text := by
  induction text using List.reverseRecOn with
  | nil =>
      rw [strip, List.rdropWhile_concat_neg _ _ _ (by decide)]
      rfl
  | append_singleton text c ih =>
      have split : front ++ slash :: (text ++ [c]) = (front ++ slash :: text) ++ [c] := by simp
      rw [split, strip, strip, List.rdropWhile_concat, List.rdropWhile_concat]
      split
      · exact ih
      · simp

/-- With its final slash. -/
def closed (text : Bytes) : Bytes := if text = [] ∨ text.getLast? = some slash then text else text ++ [slash]

theorem closed_ends (text : Bytes) : closed text = [] ∨ (closed text).getLast? = some slash := by
  unfold closed
  split
  · assumption
  · exact .inr List.getLast?_concat

theorem components_closed (text : Bytes) : components slash (closed text) = components slash text := by
  unfold closed
  split
  · rfl
  · rw [components_append, components_nil, List.append_nil]

theorem finalSlash_dir (front text : Bytes) :
    finalSlash .dir (front ++ slash :: text) = front ++ slash :: closed text := by
  unfold finalSlash closed
  cases text with
  | nil => simp
  | cons c text =>
      simp only [List.getLast?_append_cons, List.getLast?_cons_cons, reduceCtorEq, false_or]
      split <;> simp

/-- A path of a device, stripped, closed and normalised. -/
theorem handlepath_eq (drives : Drives) {currentdir relative rest : Bytes} (device : Device)
    (path : startDir currentdir relative ++ relative = device.name ++ [colon] ++ slash :: rest) :
    handlepath drives currentdir relative .dir false =
      some (kept (device.name ++ [colon]) (resolve dot dotdot (components slash (strip rest))) ++ [slash]) := by
  have noSlash : slash ∉ device.name ++ [colon] := by
    rw [List.mem_append, List.mem_singleton, not_or]
    exact ⟨device.noSlash, by decide⟩
  have some_ : device.name ++ [colon] ++ slash :: strip rest ≠ [] := by simp
  have whole := strip_append (device.name ++ [colon]) rest
  rw [strip] at whole
  rw [handlepath, path, whole]
  simp only [if_neg some_]
  rw [finalSlash_dir, normalizePath_closed (by simp) noSlash (closed_ends _), components_closed]
  rfl

theorem strip_flatMap_append (ws : List Bytes) (text : Bytes) :
    strip (ws.flatMap (· ++ [slash]) ++ text) = ws.flatMap (· ++ [slash]) ++ strip text := by
  induction ws using List.reverseRecOn with
  | nil => rfl
  | append_singleton ws w =>
      have split (rest : Bytes) : (ws ++ [w]).flatMap (· ++ [slash]) ++ rest =
          (ws.flatMap (· ++ [slash]) ++ w) ++ slash :: rest := by simp
      rw [split, strip_append, split]

theorem upToColon_text (dir : Currdir) : upToColon dir.text = dir.device.name ++ [colon] := by
  have front : dir.text.takeWhile (· ≠ colon) = dir.device.name := by
    rw [Currdir.text, List.takeWhile_append_of_pos (ne_of_before dir.device.noColon)]
    simp
  have split : dir.text = (dir.device.name ++ [colon]) ++ slash :: dir.comps.flatMap (· ++ [slash]) := by
    simp [Currdir.text]
  have size : dir.device.name.length + 1 = (dir.device.name ++ [colon]).length := by simp
  rw [upToColon, front, split, size, List.take_left]

theorem handlepath_target (drives : Drives) (dir : Currdir) (r : Relative) :
    handlepath drives dir.text r.text .dir false = some (r.target dir).text := by
  rw [← (r.target dir).kept_eq_text]
  change _ = some (kept ((r.device dir).name ++ [colon]) (resolve dot dotdot (r.comps dir)) ++ [slash])
  cases r with
  | plain text noColon =>
      by_cases absolute : text.head? = some slash
      · obtain ⟨rest, rfl⟩ : ∃ rest, text = slash :: rest := List.head?_eq_some_iff.mp absolute
        have comps : (Relative.plain (slash :: rest) noColon).comps dir = components slash (strip rest) := by
          rw [Relative.comps, if_pos absolute, List.nil_append]
          exact (congrArg _ (strip_append [] rest)).trans (components_cons_sep slash _)
        rw [comps]
        refine handlepath_eq drives dir.device ?_
        rw [startDir, Relative.text, if_neg noColon, if_pos absolute, upToColon_text]
      · have comps : (Relative.plain text noColon).comps dir =
            components slash (strip (dir.comps.flatMap (· ++ [slash]) ++ text)) := by
          rw [Relative.comps, if_neg absolute, strip_flatMap_append, Currdir.components_flatMap dir.names]
        rw [comps]
        refine handlepath_eq drives dir.device ?_
        rw [startDir, Relative.text, if_neg noColon, if_neg absolute, Currdir.text]
        simp
  | onDevice device rest noColon =>
      refine handlepath_eq drives device ?_
      rw [startDir, if_pos (by simp [Relative.text]), List.nil_append, Relative.text, List.append_assoc]
      rfl

/-- A current directory stays as it is wherever it is resolved. -/
theorem handlepath_again (drives : Drives) (dir dir' : Currdir) :
    handlepath drives dir'.text dir.text .dir false = some dir.text := by
  let rest := dir.comps.flatMap (· ++ [slash])
  have path : startDir dir'.text dir.text ++ dir.text = dir.device.name ++ [colon] ++ slash :: rest := by
    rw [startDir, if_pos (by simp [Currdir.text]), List.nil_append, Currdir.text, List.append_assoc]
    rfl
  have stripped : strip rest = rest := by
    have := strip_flatMap_append dir.comps []
    rwa [List.append_nil, show strip [] = [] from rfl, List.append_nil] at this
  have comps : components slash rest = dir.comps := by
    have := Currdir.components_flatMap dir.names []
    rwa [List.append_nil, components_nil, List.append_nil] at this
  rw [handlepath_eq drives dir.device path, stripped, comps, resolve_plain dir.plain, dir.kept_eq_text]

/-- What a string means in a current directory is a current directory, `handlepath` finds it, and finds it
again from anywhere. -/
theorem handlepath_resolves (drives : Drives) (dir : Currdir) (r : Relative) :
    handlepath drives dir.text r.text .dir false = some (r.target dir).text ∧
      (∀ dir' : Currdir, handlepath drives dir'.text (r.target dir).text .dir false = some (r.target dir).text) ∧
      (r.target dir).device = r.device dir ∧ (r.target dir).comps = resolve dot dotdot (r.comps dir) :=
  ⟨handlepath_target drives dir r, handlepath_again drives _, rfl, rfl⟩

end Psplink.Util
