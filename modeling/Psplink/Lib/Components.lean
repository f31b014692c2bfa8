import Mathlib.Tactic.Common
import Mathlib.Algebra.Ring.Nat
import Mathlib.Data.List.Induction
import Mathlib.Data.List.TakeWhile

/-!
# Separated components

A string over any alphabet cut at a separator into its non-empty components, the lexical
resolution of the two special components that stay put and go up, and the string that components
are joined into.
-/

namespace Psplink.Lib

variable {α : Type} [DecidableEq α]

/-! ## Up to a separator -/

section Upto

variable {b : α} {front : List α}

theorem ne_of_before (before : b ∉ front) : ∀ c ∈ front, decide (c ≠ b) = true := fun _ mem =>
  decide_eq_true fun eq => before (eq ▸ mem)

theorem takeWhile_whole (before : b ∉ front) : front.takeWhile (· ≠ b) = front :=
  List.takeWhile_eq_self_iff.mpr (ne_of_before before)

theorem takeWhile_upto (before : b ∉ front) (back : List α) : (front ++ b :: back).takeWhile (· ≠ b) = front := by
  rw [List.takeWhile_append_of_pos (ne_of_before before), List.takeWhile_cons_of_neg (by simp), List.append_nil]

theorem dropWhile_upto (before : b ∉ front) (back : List α) : (front ++ b :: back).dropWhile (· ≠ b) = b :: back := by
  rw [List.dropWhile_append_of_pos (ne_of_before before), List.dropWhile_cons_of_neg (by simp)]

end Upto

/-! ## Splitting -/

def splitSep (sep : α) : List α → List (List α)
  | [] => [[]]
  | c :: s =>
      if c = sep then [] :: splitSep sep s
      else match splitSep sep s with
        | [] => [[c]]
        | piece :: rest => (c :: piece) :: rest

/-- The non-empty pieces between separators. -/
def components (sep : α) (s : List α) : List (List α) := (splitSep sep s).filter (· ≠ [])

/-- A string that can stand between separators. -/
structure Piece (sep : α) (w : List α) : Prop where
  nonempty : w ≠ []
  noSep : sep ∉ w

theorem splitSep_ne_nil (sep : α) (s : List α) : splitSep sep s ≠ [] := by
  cases s with
  | nil => simp [splitSep]
  | cons c s =>
      simp only [splitSep]
      split
      · simp
      · split <;> simp

theorem splitSep_append (sep : α) (a b : List α) :
    splitSep sep (a ++ sep :: b) = splitSep sep a ++ splitSep sep b := by
  induction a with
  | nil => simp [splitSep]
  | cons c a ih =>
      simp only [List.cons_append, splitSep, ih]
      split
      · rfl
      · cases h : splitSep sep a with
        | nil => exact absurd h (splitSep_ne_nil sep a)
        | cons piece rest => rfl

theorem splitSep_noSep {sep : α} {w : List α} (noSep : sep ∉ w) : splitSep sep w = [w] := by
  induction w with
  | nil => rfl
  | cons c w ih =>
      have here : c ≠ sep := fun same => noSep (same ▸ List.mem_cons_self)
      simp only [splitSep, here, ↓reduceIte, ih fun mem => noSep (List.mem_cons_of_mem _ mem)]

theorem noSep_of_mem_splitSep {sep : α} {s w : List α} (mem : w ∈ splitSep sep s) : sep ∉ w := by
  induction s generalizing w with
  | nil => simp_all [splitSep]
  | cons c s ih =>
      simp only [splitSep] at mem
      split at mem
      · rcases List.mem_cons.mp mem with rfl | mem
        · exact List.not_mem_nil
        · exact ih mem
      · rename_i here
        cases h : splitSep sep s with
        | nil => exact absurd h (splitSep_ne_nil sep s)
        | cons piece rest =>
            simp only [h] at mem ih
            rcases List.mem_cons.mp mem with rfl | mem
            · intro inside
              rcases List.mem_cons.mp inside with same | inside
              · exact here same.symm
              · exact ih List.mem_cons_self inside
            · exact ih (List.mem_cons_of_mem _ mem)

@[simp] theorem components_nil (sep : α) : components sep ([] : List α) = [] := rfl

theorem components_append (sep : α) (a b : List α) :
    components sep (a ++ sep :: b) = components sep a ++ components sep b := by
  simp [components, splitSep_append]

@[simp] theorem components_cons_sep (sep : α) (b : List α) :
    components sep (sep :: b) = components sep b := by
  simpa using components_append sep [] b

theorem components_piece {sep : α} {w : List α} (piece : Piece sep w) :
    components sep w = [w] := by
  simp [components, splitSep_noSep piece.noSep, piece.nonempty]

theorem components_piece_append {sep : α} {w : List α} (piece : Piece sep w) (b : List α) :
    components sep (w ++ sep :: b) = w :: components sep b := by
  rw [components_append, components_piece piece]
  rfl

theorem piece_of_mem_components {sep : α} {s w : List α} (mem : w ∈ components sep s) :
    Piece sep w := by
  obtain ⟨mem, nonempty⟩ := List.mem_filter.mp mem
  exact ⟨by simpa using nonempty, noSep_of_mem_splitSep mem⟩

/-! ## Joining -/

/-- The pieces, each followed by a separator; the last one only if `closed`. -/
def joinSep (sep : α) (closed : Bool) : List (List α) → List α
  | [] => []
  | [w] => if closed then w ++ [sep] else w
  | w :: rest => w ++ sep :: joinSep sep closed rest

omit [DecidableEq α] in
theorem joinSep_cons_cons (sep : α) (closed : Bool) (w v : List α) (rest : List (List α)) :
    joinSep sep closed (w :: v :: rest) = w ++ sep :: joinSep sep closed (v :: rest) := rfl

omit [DecidableEq α] in
theorem joinSep_eq_intercalate (sep : α) (closed : Bool) (ws : List (List α)) :
    joinSep sep closed ws = [sep].intercalate ws ++ if closed ∧ ws ≠ [] then [sep] else [] := by
  induction ws with
  | nil => simp [joinSep, List.intercalate]
  | cons w rest ih =>
      cases rest with
      | nil => cases closed <;> simp [joinSep, List.intercalate]
      | cons v rest =>
          rw [joinSep_cons_cons, ih]
          simp [List.intercalate]

omit [DecidableEq α] in
theorem length_joinSep (sep : α) (closed : Bool) (ws : List (List α)) :
    (joinSep sep closed ws).length + (if closed ∨ ws = [] then 0 else 1) =
      (ws.map fun w => w.length + 1).sum := by
  induction ws with
  | nil => simp [joinSep]
  | cons w rest ih =>
      cases rest with
      | nil => cases closed <;> simp [joinSep]
      | cons v rest =>
          rw [joinSep_cons_cons, List.map_cons, List.sum_cons, ← ih]
          simp only [List.length_append, List.length_cons, reduceCtorEq, or_false]
          omega

omit [DecidableEq α] in
theorem joinSep_concat (sep : α) (closed : Bool) (ws : List (List α)) (w : List α) :
    joinSep sep closed (ws ++ [w]) = joinSep sep true ws ++ w ++ if closed then [sep] else [] := by
  induction ws with
  | nil => cases closed <;> simp [joinSep]
  | cons v rest ih =>
      cases rest with
      | nil => cases closed <;> simp [joinSep]
      | cons u rest =>
          rw [List.cons_append, List.cons_append, joinSep_cons_cons, joinSep_cons_cons, ← List.cons_append, ih]
          simp

theorem components_joinSep {sep : α} (closed : Bool) {ws : List (List α)}
    (pieces : ∀ w ∈ ws, Piece sep w) : components sep (joinSep sep closed ws) = ws := by
  induction ws with
  | nil => rfl
  | cons w rest ih =>
      have piece := pieces w List.mem_cons_self
      have tail := ih fun v mem => pieces v (List.mem_cons_of_mem _ mem)
      cases rest with
      | nil =>
          cases closed with
          | false => exact components_piece piece
          | true => exact components_piece_append piece []
      | cons v rest => rw [joinSep_cons_cons, components_piece_append piece, tail]

/-! ## Resolution -/

section Resolve

variable {γ : Type} [DecidableEq γ]

/-- The components kept when `dot` stays and `up` takes the last one back. -/
def resolve (dot up : γ) (ws : List γ) : List γ :=
  ws.foldl (fun kept w => if w = dot then kept else if w = up then kept.dropLast else kept ++ [w]) []

/-- Components that leave what has been kept so far as it is. -/
def Cancels (dot up : γ) (kept rest : List γ) : Prop :=
  rest.foldl (fun kept w => if w = dot then kept else if w = up then kept.dropLast else kept ++ [w]) kept = kept

theorem resolve_append_eq_left (dot up : γ) (ws rest : List γ) :
    resolve dot up (ws ++ rest) = resolve dot up ws ↔ Cancels dot up (resolve dot up ws) rest := by
  simp only [resolve, Cancels, List.foldl_append]

theorem resolve_concat (dot up w : γ) (ws : List γ) :
    resolve dot up (ws ++ [w]) =
      if w = dot then resolve dot up ws
      else if w = up then (resolve dot up ws).dropLast
      else resolve dot up ws ++ [w] := by
  simp [resolve]

theorem mem_resolve {dot up v : γ} {ws : List γ} (mem : v ∈ resolve dot up ws) :
    v ∈ ws ∧ v ≠ dot ∧ v ≠ up := by
  induction ws using List.reverseRecOn with
  | nil => simp [resolve] at mem
  | append_singleton ws w ih =>
      rw [resolve_concat] at mem
      have earlier : v ∈ resolve dot up ws → v ∈ ws ++ [w] ∧ v ≠ dot ∧ v ≠ up := fun mem =>
        ⟨List.mem_append_left _ (ih mem).1, (ih mem).2⟩
      split at mem
      · exact earlier mem
      · split at mem
        · exact earlier ((List.dropLast_sublist _).subset mem)
        · rename_i notDot notUp
          rcases List.mem_append.mp mem with mem | mem
          · exact earlier mem
          · rw [List.mem_singleton] at mem
            subst mem
            exact ⟨by simp, notDot, notUp⟩

theorem resolve_plain {dot up : γ} {ws : List γ} (plain : ∀ w ∈ ws, w ≠ dot ∧ w ≠ up) :
    resolve dot up ws = ws := by
  induction ws using List.reverseRecOn with
  | nil => rfl
  | append_singleton ws w ih =>
      obtain ⟨notDot, notUp⟩ := plain w (by simp)
      rw [resolve_concat, if_neg notDot, if_neg notUp,
        ih fun v mem => plain v (List.mem_append_left _ mem)]

end Resolve

end Psplink.Lib
