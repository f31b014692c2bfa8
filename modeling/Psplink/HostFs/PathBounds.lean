import Psplink.HostFs.Normal

/-!
# Room for paths

The strings that `gen_path`, `find_nocase`, `make_nocase` and `make_path` put into their buffers of
`PATH_MAX` bytes, each without its terminator. `snprintf` cuts a string off; `strcpy` and `strcat`
do not.
-/

namespace Psplink.HostFs
open Psplink.Lib

/-! ## What is built -/

def snprintf (text : Bytes) : Bytes := text.take (pathMax - 1)

/-- The loop that both rebuild a path with: a name, and a slash where one follows. -/
def catLoop (dir : Bool) : List Bytes → Bytes → List Bytes
  | [], _ => []
  | w :: rest, path =>
      if dir || !rest.isEmpty then
        (path ++ w) :: (path ++ w ++ [slash]) :: catLoop dir rest (path ++ w ++ [slash])
      else (path ++ w) :: catLoop dir rest (path ++ w)

/-- `abspath`, then `path`. -/
def genPathBuilds (path : Bytes) (dir : Bool) : List Bytes :=
  path :: [slash] :: catLoop dir (resolve dot dotdot (tokens path)) [slash]

/-- What the scan copies to `match`. -/
def scanBuilds (token : Bytes) : List Bytes → Int → List Bytes
  | [], _ => []
  | name :: ents, rating =>
      if strcasecmpEq name token ∧ calcRating token name > rating then
        name :: scanBuilds token ents (calcRating token name)
      else scanBuilds token ents rating

/-- `abspath`, `match`, and the token in place. -/
def findNocaseBuilds (readdir : Readdir) (rootdir relpath token : Bytes) : List Bytes :=
  snprintf (rootdir ++ relpath) ::
    if (rootdir ++ relpath).length > pathMax then []
    else match readdir (snprintf (rootdir ++ relpath)) with
      | none => []
      | some ents => scanBuilds token ents (-1) ++ (findNocase readdir rootdir relpath token).toList

def nocaseLoopBuilds (readdir : Readdir) (rootdir : Bytes) (dir : Bool) :
    List Bytes → Bytes → List Bytes
  | [], retpath => [retpath]
  | token :: rest, retpath =>
      let closing := if dir || !rest.isEmpty then [slash] else []
      let go (name : Bytes) : List Bytes :=
        (retpath ++ name) :: (retpath ++ name ++ closing) ::
          nocaseLoopBuilds readdir rootdir dir rest (retpath ++ name ++ closing)
      findNocaseBuilds readdir rootdir retpath token ++
        match findNocase readdir rootdir retpath token with
        | some name => go name
        | none => if rest.isEmpty then go token else []

/-- `abspath`, `retpath`, and `path` where the loop comes to its end. -/
def makeNocaseBuilds (readdir : Readdir) (rootdir path : Bytes) (dir : Bool) : List Bytes :=
  path :: [slash] :: nocaseLoopBuilds readdir rootdir dir (tokens path) [slash]

/-- The path below the root, as the second `gen_path` gets it. -/
def below (env : PathEnv) (opts : PathOptions) (drives : Nat → HostDrive) (drive : BitVec 32)
    (path : Bytes) (dir : Bool) : Bytes :=
  let normal := genPath (msslashPath opts ((drives drive.toNat).currdir ++ path)) dir
  if opts.nocase then makeNocase env.readdir (drives drive.toNat).rootdir normal dir else normal

def makePathBuilds (env : PathEnv) (opts : PathOptions) (drives : Nat → HostDrive) (drive : BitVec 32)
    (path : Bytes) (dir : Bool) : List Bytes :=
  if drive.toNat ≥ maxHostdrives then []
  else if !env.locked then []
  else
    let d := drives drive.toNat
    let hostpath := d.currdir ++ path
    snprintf hostpath ::
      if hostpath.length ≥ pathMax then []
      else
        let hostpath := msslashPath opts hostpath
        let normal := genPath hostpath dir
        let retpath := d.rootdir ++ slash :: below env opts drives drive path dir
        genPathBuilds hostpath dir ++
          (if opts.nocase then makeNocaseBuilds env.readdir d.rootdir normal dir else []) ++
          snprintf retpath ::
            if retpath.length ≥ pathMax then [] else genPathBuilds retpath dir

/-- What the components take with a slash before each. -/
def weight (ws : List Bytes) : Nat := (ws.map fun w => w.length + 1).sum

/-- A combination that goes through the first check has room for what it normalises to. -/
def Room (env : PathEnv) (opts : PathOptions) (drives : Nat → HostDrive) (drive : BitVec 32)
    (path : Bytes) (dir : Bool) : Prop :=
  let hostpath := (drives drive.toNat).currdir ++ path
  drive.toNat < maxHostdrives → env.locked = true → hostpath.length < pathMax →
    weight (resolve dot dotdot (tokens (msslashPath opts hostpath))) + dir.toNat < pathMax

structure PathFits (env : PathEnv) (opts : PathOptions) (drives : Nat → HostDrive) (drive : BitVec 32)
    (path : Bytes) (dir : Bool) : Prop where
  builds : ∀ b ∈ makePathBuilds env opts drives drive path dir, b.length < pathMax
  long : pathMax ≤ (drives drive.toNat).currdir.length + path.length →
    makePath env opts drives drive path dir = none
  ret : ∀ ret, makePath env opts drives drive path dir = some ret → ret.length < pathMax

/-! ## Weights -/

@[simp] theorem weight_nil : weight [] = 0 := rfl

@[simp] theorem weight_cons (w : Bytes) (ws : List Bytes) : weight (w :: ws) = w.length + 1 + weight ws := rfl

theorem weight_sublist {ws vs : List Bytes} (sub : ws.Sublist vs) : weight ws ≤ weight vs := by
  induction sub with
  | slnil => rfl
  | cons w _ ih => exact ih.trans (Nat.le_add_left _ _)
  | cons_cons w _ ih => exact Nat.add_le_add_left ih _

theorem resolve_sublist (dot up : Bytes) (ws : List Bytes) : (resolve dot up ws).Sublist ws := by
  induction ws using List.reverseRecOn with
  | nil => exact List.nil_sublist _
  | append_singleton ws w ih =>
      rw [resolve_concat]
      split
      · exact ih.trans (List.sublist_append_left _ _)
      · split
        · exact (List.dropLast_sublist _).trans (ih.trans (List.sublist_append_left _ _))
        · exact ih.append (List.Sublist.refl _)

theorem weight_resolve_le (path : Bytes) :
    weight (resolve dot dotdot (tokens path)) ≤ weight (components slash path) :=
  weight_sublist ((resolve_sublist _ _ _).trans (List.take_sublist _ _))

theorem length_join (dir : Bool) (ws : List Bytes) :
    (joinSep slash dir ws).length + (if dir ∨ ws = [] then 0 else 1) = weight ws :=
  length_joinSep slash dir ws

theorem length_genPath (path : Bytes) (dir : Bool) :
    (genPath path dir).length =
      max 1 (weight (resolve dot dotdot (tokens path)) + dir.toNat) := by
  have joined := length_join dir (resolve dot dotdot (tokens path))
  rw [genPath, List.length_cons]
  generalize resolve dot dotdot (tokens path) = kept at joined ⊢
  cases kept with
  | nil => cases dir <;> simp [joinSep, weight]
  | cons w rest =>
      cases dir with
      | true =>
          simp only [true_or, ↓reduceIte, Nat.add_zero] at joined
          simp only [Bool.toNat_true]
          omega
      | false =>
          simp only [Bool.false_eq_true, reduceCtorEq, or_self, ↓reduceIte] at joined
          simp only [Bool.toNat_false]
          omega

theorem weight_splitSep (s : Bytes) : weight (splitSep slash s) = s.length + 1 := by
  induction s with
  | nil => rfl
  | cons c s ih =>
      rw [splitSep]
      split
      · rw [weight_cons, ih, List.length_nil, List.length_cons]
        omega
      · cases pieces : splitSep slash s with
        | nil => exact absurd pieces (splitSep_ne_nil slash s)
        | cons piece rest =>
            rw [pieces, weight_cons] at ih
            rw [weight_cons, List.length_cons, List.length_cons]
            omega

def empties (ws : List Bytes) : Nat := ws.countP (·.isEmpty)

theorem weight_nonempty (ws : List Bytes) : weight (ws.filter (· ≠ [])) + empties ws = weight ws := by
  induction ws with
  | nil => rfl
  | cons w ws ih =>
      rw [empties] at ih ⊢
      cases w with
      | nil =>
          rw [weight_cons, ← ih]
          simp only [List.isEmpty_nil, List.countP_cons_of_pos, ne_eq, not_true_eq_false, decide_false,
            Bool.false_eq_true, not_false_eq_true, List.filter_cons_of_neg, List.length_nil]
          omega
      | cons b w =>
          rw [weight_cons, ← ih]
          simp [Nat.add_assoc]

/-- Every slash of a path that is not between two components is to spare. -/
theorem weight_components (s : Bytes) :
    weight (components slash s) + empties (splitSep slash s) = s.length + 1 := by
  rw [components, weight_nonempty, weight_splitSep]

theorem empties_append (a b : Bytes) :
    empties (splitSep slash (a ++ slash :: b)) = empties (splitSep slash a) + empties (splitSep slash b) := by
  rw [splitSep_append, empties, List.countP_append]
  rfl

/-! ## What is built fits -/

theorem joinSep_cons (dir : Bool) (w : Bytes) (rest : List Bytes) :
    joinSep slash dir (w :: rest) =
      w ++ (if dir || !rest.isEmpty then [slash] else []) ++ joinSep slash dir rest := by
  cases rest with
  | nil => cases dir <;> simp [joinSep]
  | cons v rest => simp [joinSep_cons_cons]

theorem length_catLoop {dir : Bool} {ws : List Bytes} {path b : Bytes} (mem : b ∈ catLoop dir ws path) :
    b.length ≤ path.length + (joinSep slash dir ws).length := by
  induction ws generalizing path with
  | nil => cases mem
  | cons w rest ih =>
      rw [joinSep_cons]
      unfold catLoop at mem
      split at mem
      · simp only [List.mem_cons] at mem
        rcases mem with rfl | rfl | mem
        · simp only [List.length_append]
          omega
        · simp [*]
        · have after := ih mem
          simp only [*, List.length_append, ↓reduceIte] at after ⊢
          omega
      · simp only [List.mem_cons] at mem
        rcases mem with rfl | mem
        · simp only [List.length_append]
          omega
        · have after := ih mem
          simp only [List.length_append] at after ⊢
          omega

theorem mem_catLoop (dir : Bool) (ws : List Bytes) (path : Bytes) :
    path ++ joinSep slash dir ws ∈ path :: catLoop dir ws path := by
  induction ws generalizing path with
  | nil => simp [joinSep]
  | cons w rest ih =>
      rw [joinSep_cons, catLoop]
      apply List.mem_cons_of_mem
      split
      · have after := ih (path ++ w ++ [slash])
        simp only [List.append_assoc] at after ⊢
        exact List.mem_cons_of_mem _ after
      · have after := ih (path ++ w)
        simpa only [List.append_assoc, List.append_nil] using after

theorem genPathBuilds_fit {path : Bytes} {dir : Bool} :
    (∀ b ∈ genPathBuilds path dir, b.length < pathMax) ↔
      path.length < pathMax ∧ (genPath path dir).length < pathMax := by
  constructor
  · intro fit
    refine ⟨fit path List.mem_cons_self, fit _ ?_⟩
    exact List.mem_cons_of_mem _ (mem_catLoop dir _ [slash])
  · rintro ⟨short, room⟩ b mem
    rcases List.mem_cons.mp mem with rfl | mem
    · exact short
    · rcases List.mem_cons.mp mem with rfl | mem
      · decide
      · have bound := length_catLoop mem
        rw [genPath, List.length_cons] at room
        rw [List.length_singleton] at bound
        omega

theorem length_of_case {a b : Bytes} (same : SameCase a b) : a.length = b.length := by
  simpa using congrArg List.length same

theorem length_scanBuilds {token b : Bytes} {ents : List Bytes} {rating : Int}
    (mem : b ∈ scanBuilds token ents rating) : b.length = token.length := by
  induction ents generalizing rating with
  | nil => cases mem
  | cons name ents ih =>
      unfold scanBuilds at mem
      split at mem
      · rename_i kept
        rcases List.mem_cons.mp mem with rfl | mem
        · exact length_of_case (by simpa [strcasecmpEq, SameCase] using kept.1)
        · exact ih mem
      · exact ih mem

theorem length_snprintf (text : Bytes) : (snprintf text).length < pathMax :=
  lt_of_le_of_lt (List.length_take_le _ _) (by decide)

theorem findNocaseBuilds_fit {readdir : Readdir} {rootdir relpath token b : Bytes} (short : token.length < pathMax)
    (mem : b ∈ findNocaseBuilds readdir rootdir relpath token) : b.length < pathMax := by
  unfold findNocaseBuilds at mem
  rcases List.mem_cons.mp mem with rfl | mem
  · exact length_snprintf _
  · split at mem
    · cases mem
    · split at mem
      · cases mem
      · rcases List.mem_append.mp mem with mem | mem
        · rwa [length_scanBuilds mem]
        · rwa [length_of_case (findNocase_case (Option.mem_toList.mp mem))]

theorem nocaseLoopBuilds_fit {readdir : Readdir} {rootdir : Bytes} {dir : Bool} {toks : List Bytes}
    {retpath b : Bytes} (room : retpath.length + (joinSep slash dir toks).length < pathMax)
    (mem : b ∈ nocaseLoopBuilds readdir rootdir dir toks retpath) : b.length < pathMax := by
  induction toks generalizing retpath with
  | nil =>
      rw [nocaseLoopBuilds, List.mem_singleton] at mem
      rw [mem]
      omega
  | cons token rest ih =>
      rw [joinSep_cons, List.length_append, List.length_append] at room
      generalize closes : (if dir || !rest.isEmpty then [slash] else []) = closing at room
      -- A name as long as the token leaves the same room for the rest.
      have go : ∀ name : Bytes, name.length = token.length →
          b ∈ (retpath ++ name) :: (retpath ++ name ++ closing) ::
            nocaseLoopBuilds readdir rootdir dir rest (retpath ++ name ++ closing) → b.length < pathMax := by
        intro name same mem
        simp only [List.mem_cons] at mem
        rcases mem with rfl | rfl | mem
        · rw [List.length_append]
          omega
        · rw [List.length_append, List.length_append]
          omega
        · apply ih _ mem
          rw [List.length_append, List.length_append]
          omega
      simp only [nocaseLoopBuilds, closes] at mem
      rcases List.mem_append.mp mem with mem | mem
      · exact findNocaseBuilds_fit (by omega) mem
      · split at mem
        · rename_i name found
          exact go name (length_of_case (findNocase_case found)) mem
        · split at mem
          · exact go token rfl mem
          · cases mem

/-! ## The second normalisation -/

theorem empties_joinSep (ws : List Bytes) : 1 ≤ empties (splitSep slash (joinSep slash true ws)) := by
  induction ws with
  | nil => decide
  | cons w rest ih =>
      have closed : joinSep slash true (w :: rest) = w ++ slash :: joinSep slash true rest := by
        rw [joinSep_cons]
        simp
      rw [closed, empties_append]
      omega

/-- The two slashes between the root and a normalised path pay for what is added. -/
theorem length_genPath_below (root : Bytes) (dir : Bool) (ws : List Bytes) :
    (genPath (root ++ slash :: slash :: joinSep slash dir ws) dir).length ≤
      (root ++ slash :: slash :: joinSep slash dir ws).length := by
  have spare := weight_components (root ++ slash :: slash :: joinSep slash dir ws)
  have kept := weight_resolve_le (root ++ slash :: slash :: joinSep slash dir ws)
  have between : empties (splitSep slash (slash :: joinSep slash dir ws)) =
      1 + empties (splitSep slash (joinSep slash dir ws)) := empties_append [] _
  have pos : 1 ≤ (root ++ slash :: slash :: joinSep slash dir ws).length := by
    rw [List.length_append, List.length_cons]
    omega
  rw [empties_append, between] at spare
  rw [length_genPath]
  cases dir with
  | true =>
      have last := empties_joinSep ws
      simp only [Bool.toNat_true]
      omega
  | false =>
      simp only [Bool.toNat_false]
      omega

theorem makeNocase_shape (readdir : Readdir) (rootdir path : Bytes) (dir : Bool) :
    ∃ ws, makeNocase readdir rootdir (genPath path dir) dir = slash :: joinSep slash dir ws := by
  unfold makeNocase
  cases looped : nocaseLoop readdir rootdir dir (tokens (genPath path dir)) [slash] with
  | none => exact ⟨_, rfl⟩
  | some out =>
      obtain ⟨names, rfl, -⟩ := nocaseLoop_names looped
      exact ⟨names, rfl⟩

theorem makeNocaseBuilds_fit {readdir : Readdir} {rootdir path b : Bytes} {dir : Bool}
    (room : (genPath path dir).length < pathMax)
    (mem : b ∈ makeNocaseBuilds readdir rootdir (genPath path dir) dir) : b.length < pathMax := by
  have same : tokens (genPath path dir) = resolve dot dotdot (tokens path) := by
    rw [tokens, components_genPath]
    exact List.take_of_length_le ((length_resolve_le _ _ _).trans (List.length_take_le _ _))
  simp only [makeNocaseBuilds, List.mem_cons] at mem
  rcases mem with rfl | rfl | mem
  · exact room
  · decide
  · apply nocaseLoopBuilds_fit _ mem
    rw [same, List.length_singleton, Nat.add_comm]
    rwa [genPath, List.length_cons] at room

/-! ## `make_path` -/

section
variable (env : PathEnv) (opts : PathOptions) (drives : Nat → HostDrive) (drive : BitVec 32)
  (path : Bytes) (dir : Bool)

theorem below_shape : ∃ ws, below env opts drives drive path dir = slash :: joinSep slash dir ws := by
  unfold below
  dsimp only
  split
  · exact makeNocase_shape ..
  · exact ⟨_, rfl⟩

theorem genPath_below_fits
    (short : ((drives drive.toNat).rootdir ++ slash :: below env opts drives drive path dir).length < pathMax) :
    (genPath ((drives drive.toNat).rootdir ++ slash :: below env opts drives drive path dir) dir).length < pathMax := by
  obtain ⟨ws, shape⟩ := below_shape env opts drives drive path dir
  rw [shape] at short ⊢
  exact lt_of_le_of_lt (length_genPath_below _ dir ws) short

theorem makePath_eq : makePath env opts drives drive path dir =
    if drive.toNat ≥ maxHostdrives then none
    else if !env.locked then none
    else if ((drives drive.toNat).currdir ++ path).length ≥ pathMax then none
    else
      let retpath := (drives drive.toNat).rootdir ++ slash :: below env opts drives drive path dir
      if retpath.length ≥ pathMax then none else some (genPath retpath dir) := rfl

theorem room_iff : Room env opts drives drive path dir ↔
    (drive.toNat < maxHostdrives → env.locked = true →
      ((drives drive.toNat).currdir ++ path).length < pathMax →
        (genPath (msslashPath opts ((drives drive.toNat).currdir ++ path)) dir).length < pathMax) := by
  simp only [Room, length_genPath, Nat.max_lt]
  exact forall_congr' fun _ => forall_congr' fun _ => forall_congr' fun _ =>
    ⟨fun room => ⟨by decide, room⟩, fun room => room.2⟩

theorem makePathBuilds_fit : (∀ b ∈ makePathBuilds env opts drives drive path dir, b.length < pathMax) ↔
    Room env opts drives drive path dir := by
  rw [room_iff]
  unfold makePathBuilds
  by_cases number : drive.toNat ≥ maxHostdrives
  · simp [number, Nat.not_lt.mpr number]
  by_cases locked : env.locked = true
  swap
  · simp [locked]
  by_cases long : ((drives drive.toNat).currdir ++ path).length ≥ pathMax
  · simp only [number, locked, Bool.not_true, Bool.false_eq_true, ↓reduceIte, long]
    constructor
    · intro _ _ _ short
      omega
    · intro _ b mem
      rw [List.mem_singleton.mp mem]
      exact length_snprintf _
  simp only [number, locked, Bool.not_true, Bool.false_eq_true, ↓reduceIte, long, List.forall_mem_cons]
  constructor
  · rintro ⟨-, fit⟩ _ _ _
    apply (genPathBuilds_fit.mp _).2
    intro b mem
    exact fit b (List.mem_append_left _ (List.mem_append_left _ mem))
  · intro room
    have room := room (by omega) trivial (by omega)
    refine ⟨length_snprintf _, ?_⟩
    intro b mem
    rcases List.mem_append.mp mem with mem | mem
    · rcases List.mem_append.mp mem with mem | mem
      · apply genPathBuilds_fit.mpr ⟨_, room⟩ b mem
        unfold msslashPath
        split
        · rw [List.length_map]
          omega
        · omega
      · split at mem
        · exact makeNocaseBuilds_fit room mem
        · cases mem
    · rcases List.mem_cons.mp mem with rfl | mem
      · exact length_snprintf _
      · split at mem
        · cases mem
        · rename_i short
          have short := Nat.not_le.mp short
          exact genPathBuilds_fit.mpr ⟨short, genPath_below_fits env opts drives drive path dir short⟩ b mem

theorem make_path_fits : PathFits env opts drives drive path dir ↔ Room env opts drives drive path dir := by
  rw [← makePathBuilds_fit]
  refine ⟨PathFits.builds, fun builds => ⟨builds, ?_, ?_⟩⟩
  · intro long
    rw [← List.length_append] at long
    simp only [makePath]
    split_ifs
    all_goals rfl
  · intro ret made
    rw [makePath_eq] at made
    dsimp only at made
    split_ifs at made with number unlocked long short
    cases made
    exact genPath_below_fits env opts drives drive path dir (Nat.not_le.mp short)

end

theorem exists_name (n : Nat) : ∃ name : Bytes, name.length = n + 3 ∧ PlainName name := by
  refine ⟨List.replicate (n + 3) 97, List.length_replicate, ⟨?_, ?_⟩, ?_, ?_⟩
  · exact nofun
  · intro mem
    exact absurd (List.eq_of_mem_replicate mem) (by decide)
  · exact nofun
  · exact nofun

/-- The directory name fills the 4095 bytes after `/`, and a slash is put behind it. -/
theorem make_path_overflow : ∃ path : Bytes, path.length = 4094 ∧
    ¬PathFits ⟨true, fun _ => none⟩ ⟨false, false⟩ (fun _ => ⟨ascii "/srv", ascii "/"⟩) 0 path true := by
  obtain ⟨name, length, plain⟩ := exists_name 4091
  refine ⟨name, length, ?_⟩
  intro fits
  have room := (makePathBuilds_fit _ _ _ _ _ _).mp fits.builds (by decide) rfl (by
    rw [List.length_append, length]
    decide)
  have kept : resolve dot dotdot (tokens (slash :: name)) = [name] := by
    rw [tokens, components_cons_sep, components_piece plain.toPiece]
    apply resolve_plain
    intro w mem
    rw [List.mem_singleton.mp (List.mem_of_mem_take mem)]
    exact ⟨plain.notDot, plain.notUp⟩
  change weight (resolve dot dotdot (tokens (slash :: name))) + 1 < pathMax at room
  rw [kept, weight_cons, length] at room
  exact absurd room (by decide)

end Psplink.HostFs
