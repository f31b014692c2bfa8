import Psplink.HostFs.Path

/-!
# The host drives are sandboxes

`make_path` never leaves the root directory of its drive: the last `gen_path` sees the root's
components followed by components none of which is `..`, because the path below the root has
already been resolved on its own, and the case-insensitive lookup replaces a component only by a
name that differs from it in the case of letters.
-/

namespace Psplink.HostFs
open Psplink.Lib

structure PlainName (w : Bytes) : Prop extends Piece slash w where
  notDot : w ≠ dot
  notUp : w ≠ dotdot

/-! ## What `gen_path` returns -/

theorem resolve_tokens_plain {path w : Bytes} (mem : w ∈ resolve dot dotdot (tokens path)) :
    PlainName w := by
  obtain ⟨token, notDot, notUp⟩ := mem_resolve mem
  exact ⟨piece_of_mem_components (List.mem_of_mem_take token), notDot, notUp⟩

theorem components_genPath (path : Bytes) (dir : Bool) :
    components slash (genPath path dir) = resolve dot dotdot (tokens path) := by
  rw [genPath, components_cons_sep]
  exact components_joinSep dir fun w mem => (resolve_tokens_plain mem).toPiece

theorem genPath_plain {path w : Bytes} {dir : Bool}
    (mem : w ∈ components slash (genPath path dir)) : PlainName w := by
  rw [components_genPath] at mem
  exact resolve_tokens_plain mem

/-! ## What the case-insensitive lookup returns -/

theorem toLower_eq_iff {c b : UInt8} (below : b.toNat < 65) : toLower c = b ↔ c = b := by
  unfold toLower
  split
  · rename_i upper
    simp only [UInt8.le_iff_toNat_le] at upper
    simp only [← UInt8.toNat_inj, UInt8.toNat_add, UInt8.toNat_ofNat] at *
    omega
  · exact Iff.rfl

def SameCase (a b : Bytes) : Prop := a.map toLower = b.map toLower

theorem plainName_of_case {name token : Bytes} (same : SameCase name token)
    (plain : PlainName token) : PlainName name := by
  have fixed : ∀ w : Bytes, (∀ b ∈ w, b.toNat < 65) → name = w → token = w := by
    intro w low eq
    subst eq
    apply List.ext_getElem (by simpa using (congrArg List.length same).symm)
    intro i hi hj
    have here := congrArg (·[i]?) same
    simp only [List.getElem?_map, List.getElem?_eq_getElem hi, List.getElem?_eq_getElem hj,
      Option.map_some, Option.some.injEq] at here
    have bound := low _ (List.getElem_mem hj)
    rw [(toLower_eq_iff bound).mpr rfl] at here
    exact (toLower_eq_iff bound).mp here.symm
  refine ⟨⟨?_, ?_⟩, ?_, ?_⟩
  · exact fun empty => plain.nonempty (fixed [] (by simp) empty)
  · intro mem
    have low : toLower slash ∈ token.map toLower := same ▸ List.mem_map_of_mem mem
    obtain ⟨c, inside, eq⟩ := List.mem_map.mp low
    rw [show toLower slash = slash from rfl, toLower_eq_iff (by decide)] at eq
    exact plain.noSep (eq ▸ inside)
  · exact fun eq => plain.notDot (fixed dot (by simp [dot]) eq)
  · exact fun eq => plain.notUp (fixed dotdot (by simp [dotdot]) eq)

theorem scanNocase_found {token name : Bytes} {ents : List Bytes} {best : Option Bytes × Int}
    (kept : ∀ n, best.1 = some n → strcasecmpEq n token)
    (found : (scanNocase token ents best).1 = some name) : strcasecmpEq name token := by
  induction ents generalizing best with
  | nil => exact kept name found
  | cons ent ents ih =>
      obtain ⟨held, rating⟩ := best
      simp only [scanNocase] at found
      split at found
      · rename_i same
        split at found
        · exact ih (fun n eq => by cases eq; exact same) found
        · exact ih kept found
      · exact ih kept found

theorem findNocase_case {readdir : Readdir} {rootdir relpath token name : Bytes}
    (found : findNocase readdir rootdir relpath token = some name) : SameCase name token := by
  unfold findNocase at found
  split at found
  · cases found
  · split at found
    · cases found
    · have := scanNocase_found (fun _ none => by cases none) found
      simpa [strcasecmpEq, SameCase] using this

theorem nocaseLoop_names {readdir : Readdir} {rootdir : Bytes} {dir : Bool} {toks : List Bytes}
    {retpath out : Bytes} (finished : nocaseLoop readdir rootdir dir toks retpath = some out) :
    ∃ names, out = retpath ++ joinSep slash dir names ∧ List.Forall₂ SameCase names toks := by
  induction toks generalizing retpath with
  | nil =>
      cases finished
      exact ⟨[], by simp [joinSep], .nil⟩
  | cons token rest ih =>
      -- Whichever name is appended for the first token, the rest goes on from there.
      have append : ∀ name, SameCase name token →
          nocaseLoop readdir rootdir dir rest
            (retpath ++ name ++ if dir || !rest.isEmpty then [slash] else []) = some out →
          ∃ names, out = retpath ++ joinSep slash dir names ∧
            List.Forall₂ SameCase names (token :: rest) := by
        intro name same finished
        obtain ⟨names, rfl, all⟩ := ih finished
        refine ⟨name :: names, ?_, .cons same all⟩
        cases all with
        | nil => cases dir <;> simp [joinSep]
        | cons => simp [joinSep]
      simp only [nocaseLoop] at finished
      split at finished
      · rename_i name found
        exact append name (findNocase_case found) finished
      · split at finished
        · exact append token rfl finished
        · cases finished

theorem plainNames_of_case {names toks : List Bytes} (all : List.Forall₂ SameCase names toks)
    (plain : ∀ t ∈ toks, PlainName t) : ∀ n ∈ names, PlainName n := by
  induction all with
  | nil => simp
  | cons same _ ih =>
      rw [List.forall_mem_cons] at plain ⊢
      exact ⟨plainName_of_case same plain.1, ih plain.2⟩

theorem makeNocase_plain {readdir : Readdir} {rootdir path w : Bytes} {dir : Bool}
    (plain : ∀ t ∈ components slash path, PlainName t)
    (mem : w ∈ components slash (makeNocase readdir rootdir path dir)) : PlainName w := by
  unfold makeNocase at mem
  cases looped : nocaseLoop readdir rootdir dir (tokens path) [slash] with
  | none =>
      rw [looped, Option.getD_none] at mem
      exact plain w mem
  | some out =>
      obtain ⟨names, rfl, all⟩ := nocaseLoop_names looped
      have good := plainNames_of_case all fun t token => plain t (List.mem_of_mem_take token)
      rw [looped, Option.getD_some, List.singleton_append, components_cons_sep,
        components_joinSep dir fun n inside => (good n inside).toPiece] at mem
      exact good w mem

/-! ## Containment -/

/-- The path below the root is resolved on its own before the root is put in front of it. -/
theorem makePath_below {env : PathEnv} {opts : PathOptions} {drives : Nat → HostDrive}
    {drive : BitVec 32} {path ret : Bytes} {dir : Bool}
    (made : makePath env opts drives drive path dir = some ret) :
    ∃ below, ret = genPath ((drives drive.toNat).rootdir ++ slash :: below) dir ∧
      ∀ w ∈ components slash below, PlainName w := by
  simp only [makePath] at made
  split_ifs at made
  all_goals cases made
  · exact ⟨_, rfl, fun w mem => makeNocase_plain (fun t => genPath_plain) mem⟩
  · exact ⟨_, rfl, fun w mem => genPath_plain mem⟩

theorem makePath_contained (env : PathEnv) (opts : PathOptions) (drives : Nat → HostDrive)
    (drive : BitVec 32) (path ret : Bytes) (dir : Bool) (root : List Bytes)
    (rootdir : (drives drive.toNat).rootdir = slash :: joinSep slash false root)
    (normalised : ∀ w ∈ root, PlainName w) (short : root.length ≤ 255)
    (made : makePath env opts drives drive path dir = some ret) :
    root <+: components slash ret ∧ ∀ w ∈ components slash ret, w ≠ dot ∧ w ≠ dotdot := by
  obtain ⟨below, rfl, plain⟩ := makePath_below made
  have whole : components slash ((drives drive.toNat).rootdir ++ slash :: below) =
      root ++ components slash below := by
    rw [components_append, rootdir, components_cons_sep,
      components_joinSep false fun w mem => (normalised w mem).toPiece]
  have kept : resolve dot dotdot (tokens ((drives drive.toNat).rootdir ++ slash :: below)) =
      root ++ (components slash below).take (255 - root.length) := by
    rw [tokens, whole, maxTokens, List.take_append, List.take_of_length_le short]
    apply resolve_plain
    intro w mem
    rcases List.mem_append.mp mem with mem | mem
    · exact ⟨(normalised w mem).notDot, (normalised w mem).notUp⟩
    · have := plain w (List.mem_of_mem_take mem)
      exact ⟨this.notDot, this.notUp⟩
  refine ⟨?_, fun w mem => ⟨(genPath_plain mem).notDot, (genPath_plain mem).notUp⟩⟩
  rw [components_genPath, kept]
  exact List.prefix_append _ _

/-- `..\..\Tmp` on a drive rooted at `/srv/psp`, with both options set. -/
theorem makePath_contained_escape :
    makePath ⟨true, fun _ => some [ascii "tMP", ascii "tmp"]⟩ ⟨true, true⟩
        (fun _ => ⟨ascii "/srv/psp", ascii "/"⟩) 0 (ascii "..\\..\\Tmp") false =
      some (ascii "/srv/psp/tmp") ∧
    [ascii "srv", ascii "psp"] <+: components slash (ascii "/srv/psp/tmp") := by
  have made : makePath ⟨true, fun _ => some [ascii "tMP", ascii "tmp"]⟩ ⟨true, true⟩
      (fun _ => ⟨ascii "/srv/psp", ascii "/"⟩) 0 (ascii "..\\..\\Tmp") false =
      some (ascii "/srv/psp/tmp") := by decide
  have plain : ∀ w ∈ [ascii "srv", ascii "psp"], PlainName w := by
    simp only [List.forall_mem_cons]
    exact ⟨⟨⟨by decide, by decide⟩, by decide, by decide⟩,
      ⟨⟨by decide, by decide⟩, by decide, by decide⟩, by simp⟩
  exact ⟨made, (makePath_contained _ _ _ 0 _ _ false [ascii "srv", ascii "psp"] (by decide) plain
    (by decide) made).1⟩

end Psplink.HostFs
