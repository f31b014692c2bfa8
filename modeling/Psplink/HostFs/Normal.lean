import Psplink.HostFs.Containment

/-!
# Lexical normalisation

What `gen_path` has to return, and that it returns it for a path whose components past its token
array would have changed nothing.
-/

namespace Psplink.HostFs
open Psplink.Lib

def normal (path : Bytes) (dir : Bool) : Bytes :=
  let kept := resolve dot dotdot (components slash path)
  slash :: ([slash].intercalate kept ++ if dir ∧ kept ≠ [] then [slash] else [])

/-- The components that find no place in the array do not change what the others resolve to. -/
def TailCancels (path : Bytes) : Prop :=
  Cancels dot dotdot (resolve dot dotdot (tokens path)) ((components slash path).drop (maxTokens - 1))

theorem tailCancels_of_few {path : Bytes} (few : (components slash path).length ≤ maxTokens - 1) :
    TailCancels path := by
  rw [TailCancels, List.drop_eq_nil_of_le few]
  rfl

theorem tailCancels_iff (path : Bytes) :
    TailCancels path ↔ resolve dot dotdot (components slash path) = resolve dot dotdot (tokens path) := by
  rw [TailCancels, ← resolve_append_eq_left, tokens, List.take_append_drop]

theorem normal_eq (path : Bytes) (dir : Bool) :
    normal path dir = slash :: joinSep slash dir (resolve dot dotdot (components slash path)) := by
  rw [joinSep_eq_intercalate]
  rfl

theorem components_normal (path : Bytes) (dir : Bool) :
    components slash (normal path dir) = resolve dot dotdot (components slash path) := by
  rw [normal_eq, components_cons_sep]
  apply components_joinSep
  intro w mem
  exact piece_of_mem_components (mem_resolve mem).1

theorem length_resolve_le (dot up : Bytes) (ws : List Bytes) : (resolve dot up ws).length ≤ ws.length := by
  induction ws using List.reverseRecOn with
  | nil => rfl
  | append_singleton ws w ih =>
      rw [resolve_concat, List.length_append, List.length_singleton]
      split
      · omega
      · split
        · rw [List.length_dropLast]
          omega
        · rw [List.length_append, List.length_singleton]
          omega

theorem tokens_genPath (path : Bytes) (dir : Bool) :
    tokens (genPath path dir) = resolve dot dotdot (tokens path) := by
  have few : (resolve dot dotdot (tokens path)).length ≤ maxTokens - 1 :=
    (length_resolve_le _ _ _).trans (List.length_take_le _ _)
  rw [tokens, components_genPath, List.take_of_length_le few]

theorem genPath_genPath (path : Bytes) (dir : Bool) : genPath (genPath path dir) dir = genPath path dir := by
  have plain : resolve dot dotdot (resolve dot dotdot (tokens path)) = resolve dot dotdot (tokens path) := by
    apply resolve_plain
    intro w mem
    exact (mem_resolve mem).2
  rw [genPath, tokens_genPath, plain]
  rfl

theorem genPath_normal (path : Bytes) (dir : Bool) :
    (genPath path dir = normal path dir ∧ genPath (genPath path dir) dir = genPath path dir) ↔
      TailCancels path := by
  rw [tailCancels_iff]
  constructor
  · rintro ⟨same, -⟩
    rw [← components_genPath path dir, same, components_normal]
  · intro cancels
    refine ⟨?_, genPath_genPath path dir⟩
    rw [normal_eq, cancels]
    rfl

/-- 256 directories. -/
theorem genPath_cut : ∃ path : Bytes, path.length < pathMax ∧ genPath path false ≠ normal path false := by
  have piece : ∀ w ∈ List.replicate 256 (ascii "a"), Piece slash w := by
    intro w mem
    rw [List.eq_of_mem_replicate mem]
    exact ⟨by decide, by decide⟩
  have plain : ∀ w ∈ List.replicate 256 (ascii "a"), w ≠ dot ∧ w ≠ dotdot := by
    intro w mem
    rw [List.eq_of_mem_replicate mem]
    decide
  have whole := components_joinSep false piece
  refine ⟨joinSep slash false (List.replicate 256 (ascii "a")), ?_, ?_⟩
  · have length := length_joinSep slash false (List.replicate 256 (ascii "a"))
    rw [List.map_replicate, List.sum_replicate_nat] at length
    have bound : 256 * ((ascii "a").length + 1) = 512 := by decide
    rw [bound] at length
    exact lt_of_le_of_lt (Nat.le_of_add_right_le length.le) (by decide)
  · intro same
    have cut := congrArg (components slash) same
    rw [components_genPath, components_normal, whole, resolve_plain plain] at cut
    have few := length_resolve_le dot dotdot (tokens (joinSep slash false (List.replicate 256 (ascii "a"))))
    rw [cut, List.length_replicate, tokens, List.length_take] at few
    exact absurd (few.trans (Nat.min_le_left _ _)) (by decide)

end Psplink.HostFs
