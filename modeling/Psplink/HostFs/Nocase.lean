import Psplink.HostFs.Normal
import Mathlib.Data.List.Forall2
import Mathlib.Data.List.MinMax

/-!
# Case-insensitive lookup

What `make_nocase` finds: in the directory that has been reached, the entry closest to the requested
spelling.
-/

namespace Psplink.HostFs
open Psplink.Lib

/-! ## Closest entries -/

/-- The number of positions at which two names agree. -/
def agreement (token name : Bytes) : Nat := (token.zip name).countP fun p => p.1 = p.2

instance (a b : Bytes) : Decidable (SameCase a b) := inferInstanceAs (Decidable (a.map toLower = b.map toLower))

/-- The first of the closest entries. -/
def bestMatch (ents : List Bytes) (token : Bytes) : Option Bytes :=
  (ents.filter fun name => SameCase name token).argmax (agreement token)

structure Best (ents : List Bytes) (token name : Bytes) : Prop where
  entry : name ∈ ents
  same : SameCase name token
  closest : ∀ other ∈ ents, SameCase other token → agreement token other ≤ agreement token name

def Unmatched (ents : List Bytes) (token : Bytes) : Prop := ∀ name ∈ ents, ¬ SameCase name token

theorem best_of_bestMatch {ents : List Bytes} {token name : Bytes} (found : bestMatch ents token = some name) :
    Best ents token name := by
  have mem := List.mem_filter.mp (List.argmax_mem found)
  refine ⟨mem.1, of_decide_eq_true mem.2, fun other entry same => ?_⟩
  exact List.le_of_mem_argmax (List.mem_filter.mpr ⟨entry, decide_eq_true same⟩) found

theorem bestMatch_eq_none {ents : List Bytes} {token : Bytes} :
    bestMatch ents token = none ↔ Unmatched ents token := by
  simp [bestMatch, Unmatched]

theorem agreement_cons (a b : UInt8) (token name : Bytes) :
    agreement (a :: token) (b :: name) = agreement token name + if a = b then 1 else 0 := by
  simp [agreement, List.countP_cons]

theorem agreement_self (token : Bytes) : agreement token token = token.length := by
  induction token with
  | nil => rfl
  | cons a token ih => rw [agreement_cons, ih, if_pos rfl, List.length_cons]

theorem eq_of_agreement {token name : Bytes} (long : name.length = token.length)
    (all : token.length ≤ agreement token name) : name = token := by
  induction token generalizing name with
  | nil => exact List.eq_nil_of_length_eq_zero long
  | cons a token ih =>
      cases name with
      | nil => cases long
      | cons b name =>
          have short : agreement token name ≤ token.length :=
            List.countP_le_length.trans (by simp)
          rw [agreement_cons, List.length_cons] at all
          split at all
          · rename_i same
            have rest : name = token := ih (by simpa using long) (by omega)
            rw [same, rest]
          · omega

theorem SameCase.length {a b : Bytes} (same : SameCase a b) : a.length = b.length := by
  simpa using congrArg List.length same

theorem Best.eq {ents : List Bytes} {token name : Bytes} (best : Best ents token name) (exact : token ∈ ents) :
    name = token := by
  refine eq_of_agreement best.same.length ?_
  have closest := best.closest token exact rfl
  rwa [agreement_self] at closest

/-! ## The scan -/

theorem calcRating_eq (token name : Bytes) : calcRating token name = agreement token name := by
  induction token generalizing name with
  | nil => rfl
  | cons a token ih =>
      cases name with
      | nil => rfl
      | cons b name =>
          rw [calcRating, ih, agreement_cons]
          split <;> omega

/-- The scan keeps what `argmax` keeps. -/
theorem scanNocase_eq (token : Bytes) (ents : List Bytes) {best : Option Bytes × Int}
    (rated : best.2 = best.1.elim (-1) fun name => (agreement token name : Int)) :
    (scanNocase token ents best).1 =
      (ents.filter fun name => SameCase name token).foldl
        (List.argAux fun b c => agreement token c < agreement token b) best.1 := by
  induction ents generalizing best with
  | nil => rfl
  | cons name ents ih =>
      obtain ⟨found, rating⟩ := best
      have cases : strcasecmpEq name token = decide (SameCase name token) := rfl
      simp only [scanNocase, cases, List.filter_cons]
      split
      · rw [List.foldl_cons, calcRating_eq]
        cases found with
        | none =>
            have unrated : rating = -1 := rated
            rw [if_pos (by omega)]
            exact ih rfl
        | some held =>
            have kept : rating = (agreement token held : Int) := rated
            subst kept
            simp only [List.argAux]
            split
            · rw [if_pos (by omega)]
              exact ih rfl
            · rw [if_neg (by omega)]
              exact ih rfl
      · exact ih rated

def entries (readdir : Readdir) (path : Bytes) : List Bytes := (readdir path).getD []

theorem findNocase_eq {readdir : Readdir} {rootdir relpath token : Bytes}
    (fits : (rootdir ++ relpath).length < pathMax) :
    findNocase readdir rootdir relpath token = bestMatch (entries readdir (rootdir ++ relpath)) token := by
  rw [findNocase, if_neg (by omega), List.take_of_length_le (by omega), entries]
  cases readdir (rootdir ++ relpath) with
  | none => rfl
  | some ents => exact scanNocase_eq token ents rfl

/-! ## The walk -/

/-- The directory below the root that some components lead to. -/
def reached (taken : List Bytes) : Bytes := slash :: joinSep slash true taken

/-- The entries found for the components after `taken`, up to the first without a match. -/
def walk (readdir : Readdir) (rootdir : Bytes) : List Bytes → List Bytes → List Bytes
  | _, [] => []
  | taken, token :: rest =>
      match bestMatch (entries readdir (rootdir ++ reached taken)) token with
      | some name => name :: walk readdir rootdir (taken ++ [name]) rest
      | none => []

section

variable {readdir : Readdir} {rootdir : Bytes} {dir : Bool}

theorem walk_best {taken ws : List Bytes} {i : Nat} (here : i < (walk readdir rootdir taken ws).length) :
    ∃ token, ws[i]? = some token ∧
      Best (entries readdir (rootdir ++ reached (taken ++ (walk readdir rootdir taken ws).take i))) token
        (walk readdir rootdir taken ws)[i] := by
  induction ws generalizing taken i with
  | nil => cases here
  | cons token rest ih =>
      cases found : bestMatch (entries readdir (rootdir ++ reached taken)) token with
      | none =>
          simp only [walk, found] at here
          cases here
      | some name =>
          simp only [walk, found] at here ⊢
          cases i with
          | zero => exact ⟨token, rfl, by simpa using best_of_bestMatch found⟩
          | succ i =>
              obtain ⟨next, there, best⟩ := ih (Nat.lt_of_succ_lt_succ here)
              exact ⟨next, there, by simpa using best⟩

theorem walk_stops {taken ws : List Bytes} {token : Bytes}
    (next : ws[(walk readdir rootdir taken ws).length]? = some token) :
    Unmatched (entries readdir (rootdir ++ reached (taken ++ walk readdir rootdir taken ws))) token := by
  induction ws generalizing taken with
  | nil => cases next
  | cons first rest ih =>
      cases found : bestMatch (entries readdir (rootdir ++ reached taken)) first with
      | none =>
          simp only [walk, found] at next ⊢
          cases next
          simpa using bestMatch_eq_none.mp found
      | some name =>
          simp only [walk, found] at next ⊢
          simpa using ih next

theorem walk_exact (taken : List Bytes) {ws : List Bytes}
    (exact : ∀ i token, ws[i]? = some token → token ∈ entries readdir (rootdir ++ reached (taken ++ ws.take i))) :
    walk readdir rootdir taken ws = ws := by
  induction ws generalizing taken with
  | nil => rfl
  | cons token rest ih =>
      have first : token ∈ entries readdir (rootdir ++ reached taken) := by simpa using exact 0 token rfl
      have later : walk readdir rootdir (taken ++ [token]) rest = rest :=
        ih _ fun i next there => by simpa using exact (i + 1) next there
      cases found : bestMatch (entries readdir (rootdir ++ reached taken)) token with
      | none => exact absurd rfl (bestMatch_eq_none.mp found token first)
      | some name =>
          have same := (best_of_bestMatch found).eq first
          subst same
          simp only [walk, found, later]

theorem length_reached (taken : List Bytes) :
    (reached taken).length = (taken.map fun w => w.length + 1).sum + 1 := by
  have length := length_joinSep slash true taken
  rw [if_pos (Or.inl rfl)] at length
  rw [reached, List.length_cons, ← length]

theorem nocaseLoop_eq (taken : List Bytes) {ws : List Bytes} (pieces : ∀ w ∈ ws, w ≠ [])
    (fits : rootdir.length + 1 + ((taken ++ ws).map fun w => w.length + 1).sum ≤ pathMax) :
    nocaseLoop readdir rootdir dir ws (slash :: joinSep slash (dir || !ws.isEmpty) taken) =
      if (walk readdir rootdir taken ws).length + 1 < ws.length then none
      else some (slash :: joinSep slash dir
        (taken ++ walk readdir rootdir taken ws ++ ws.drop (walk readdir rootdir taken ws).length)) := by
  induction ws generalizing taken with
  | nil => simp [nocaseLoop, walk]
  | cons token rest ih =>
      obtain ⟨some, pieces'⟩ := List.forall_mem_cons.mp pieces
      have room : (rootdir ++ reached taken).length < pathMax := by
        have long := List.length_pos_of_ne_nil some
        rw [List.map_append, List.sum_append, List.map_cons, List.sum_cons] at fits
        rw [List.length_append, length_reached]
        omega
      -- The path with another name, as the next turn finds it.
      have next : ∀ name : Bytes, slash :: joinSep slash (dir || !(token :: rest).isEmpty) taken ++ name ++
          (if dir || !rest.isEmpty then [slash] else []) =
            slash :: joinSep slash (dir || !rest.isEmpty) (taken ++ [name]) := by
        intro name
        rw [joinSep_concat]
        simp
      have here : slash :: joinSep slash (dir || !(token :: rest).isEmpty) taken = reached taken := by
        simp [reached]
      cases found : bestMatch (entries readdir (rootdir ++ reached taken)) token with
      | none =>
          have found' := (findNocase_eq room).trans found
          simp only [nocaseLoop, here, found', walk, found, List.length_nil]
          cases rest with
          | nil =>
              rw [← here, next token]
              simp [nocaseLoop]
          | cons => simp
      | some name =>
          have found' := (findNocase_eq room).trans found
          have long := (best_of_bestMatch found).same.length
          have fits' : rootdir.length + 1 + ((taken ++ [name] ++ rest).map fun w => w.length + 1).sum ≤ pathMax := by
            simp only [List.map_append, List.sum_append, List.map_cons, List.sum_cons, List.map_nil, List.sum_nil] at fits ⊢
            omega
          simp only [nocaseLoop, here, found', walk, found, List.length_cons]
          rw [← here, next name, ih _ pieces' fits']
          simp

end

/-! ## The whole path -/

/-- What a lookup of `path` gives: `found` are the entries that it comes through. -/
structure LookedUp (readdir : Readdir) (rootdir path : Bytes) (dir : Bool) (found : List Bytes) (out : Bytes) : Prop where
  sameCase : ∃ names, out = slash :: joinSep slash dir names ∧ List.Forall₂ SameCase names (components slash path)
  exact : (∀ i token, (components slash path)[i]? = some token →
    token ∈ entries readdir (rootdir ++ reached ((components slash path).take i))) → out = path
  best : ∀ i (here : i < found.length), ∃ token, (components slash path)[i]? = some token ∧
    Best (entries readdir (rootdir ++ reached (found.take i))) token found[i]
  stops : ∀ token, (components slash path)[found.length]? = some token →
    Unmatched (entries readdir (rootdir ++ reached found)) token
  /-- A component without a match, and not the last one. -/
  missing : found.length + 1 < (components slash path).length → out = path
  /-- Every component has a match, or the last one has none. -/
  present : (components slash path).length ≤ found.length + 1 →
    out = slash :: joinSep slash dir (found ++ (components slash path).drop found.length)

theorem makeNocase_lookedUp (readdir : Readdir) (rootdir path : Bytes) (dir : Bool)
    (fits : (rootdir ++ genPath path dir).length < pathMax) :
    ∃ found, LookedUp readdir rootdir (genPath path dir) dir found
      (makeNocase readdir rootdir (genPath path dir) dir) := by
  have parts : tokens (genPath path dir) = components slash (genPath path dir) :=
    (tokens_genPath path dir).trans (components_genPath path dir).symm
  have joined : genPath path dir = slash :: joinSep slash dir (components slash (genPath path dir)) := by
    rw [components_genPath]
    rfl
  have pieces : ∀ w ∈ components slash (genPath path dir), w ≠ [] :=
    fun w mem => (piece_of_mem_components mem).nonempty
  generalize genPath path dir = p at *
  have looped : nocaseLoop readdir rootdir dir (components slash p) [slash] = _ :=
    nocaseLoop_eq [] pieces (by
      have length := length_joinSep slash dir (components slash p)
      have long := congrArg List.length joined
      rw [List.length_cons] at long
      rw [List.length_append] at fits
      rw [List.nil_append, ← length]
      split <;> omega)
  rw [List.nil_append] at looped
  refine ⟨walk readdir rootdir [] (components slash p), ?_⟩
  have out : makeNocase readdir rootdir p dir =
      if (walk readdir rootdir [] (components slash p)).length + 1 < (components slash p).length then p
      else slash :: joinSep slash dir (walk readdir rootdir [] (components slash p) ++
        (components slash p).drop (walk readdir rootdir [] (components slash p)).length) := by
    rw [makeNocase, parts, looped]
    split <;> rfl
  have same : ∃ names, makeNocase readdir rootdir p dir = slash :: joinSep slash dir names ∧
      List.Forall₂ SameCase names (components slash p) := by
    rw [makeNocase, parts]
    cases finished : nocaseLoop readdir rootdir dir (components slash p) [slash] with
    | none => exact ⟨components slash p, joined, List.forall₂_same.mpr fun _ _ => rfl⟩
    | some path' =>
        obtain ⟨names, rfl, all⟩ := nocaseLoop_names finished
        exact ⟨names, rfl, all⟩
  exact
    { sameCase := same
      exact := fun all => by
        have whole := walk_exact [] all
        rw [out, whole, if_neg (by omega), List.drop_length, List.append_nil, ← joined]
      best := fun i here => walk_best here
      stops := fun token next => walk_stops next
      missing := fun early => by rw [out, if_pos early]
      present := fun late => by rw [out, if_neg (by omega)] }

/-- Two spellings of one name. -/
def twoReadmes : Readdir := fun dir =>
  if dir = ascii "/srv/" then some [ascii "README", ascii "readme"] else none

theorem makeNocase_lookedUp_readme :
    ∃ found, LookedUp twoReadmes (ascii "/srv") (genPath (ascii "/./Readme") false) false found
      (makeNocase twoReadmes (ascii "/srv") (genPath (ascii "/./Readme") false) false) :=
  makeNocase_lookedUp twoReadmes (ascii "/srv") (ascii "/./Readme") false (by decide)

example : makeNocase twoReadmes (ascii "/srv") (ascii "/Readme") false = ascii "/readme" := by decide +kernel

end Psplink.HostFs
