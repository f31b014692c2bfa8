import Mathlib.Logic.Function.Basic
import Mathlib.Data.Set.Basic

/-!
# Memory with words patched in

A debugger replaces words of a program by a trap word and keeps what was there in a table; a hook
replaces an entry of a table by its own. What was there is in a family of slots; only the lines of a
region that nothing else writes are spoken of.
-/

namespace Psplink.Lib

structure Patch (κ υ : Type) where
  line : κ
  old : υ

variable {κ υ S : Type} [DecidableEq κ] [DecidableEq S]

/-- In `region`, the memory `mem` is `orig` but for the lines in the slots: there it holds the word
of the slot, and the slot has the original one. -/
structure PatchedBy (region : Set κ) (word : S → υ) (orig mem : κ → υ) (slots : S → Option (Patch κ υ)) :
    Prop where
  separate : ∀ i j p q, slots i = some p → slots j = some q → p.line ∈ region →
    p.line = q.line → i = j
  old : ∀ i p, slots i = some p → p.line ∈ region → p.old = orig p.line
  trapped : ∀ i p, slots i = some p → p.line ∈ region → mem p.line = word i
  rest : ∀ k ∈ region, (∀ i p, slots i = some p → p.line ≠ k) → mem k = orig k

def Free (slots : S → Option (Patch κ υ)) (k : κ) : Prop := ∀ i p, slots i = some p → p.line ≠ k

namespace PatchedBy

variable {region : Set κ} {word : S → υ} {orig mem : κ → υ} {slots : S → Option (Patch κ υ)}

omit [DecidableEq κ] [DecidableEq S] in
theorem empty (none : ∀ i, slots i = none) (same : ∀ k ∈ region, mem k = orig k) :
    PatchedBy region word orig mem slots where
  separate i j p q at_i := by simp [none] at at_i
  old i p at_i := by simp [none] at at_i
  trapped i p at_i := by simp [none] at at_i
  rest k inside _ := same k inside

omit [DecidableEq κ] [DecidableEq S] in
theorem clean (patched : PatchedBy region word orig mem slots) (none : ∀ i, slots i = none) {k : κ}
    (inside : k ∈ region) : mem k = orig k := by
  apply patched.rest k inside
  intro i p at_i
  simp [none] at at_i

omit [DecidableEq κ] [DecidableEq S] in
theorem agree (patched : PatchedBy region word orig mem slots) {mem' : κ → υ}
    (same : ∀ k ∈ region, mem' k = mem k) : PatchedBy region word orig mem' slots where
  separate := patched.separate
  old := patched.old
  trapped i p at_i inside := (same _ inside).trans (patched.trapped i p at_i inside)
  rest k inside free := (same k inside).trans (patched.rest k inside free)

theorem plant (patched : PatchedBy region word orig mem slots) {i : S} {k : κ}
    (unused : slots i = none) (free : k ∈ region → Free slots k) :
    PatchedBy region word orig (Function.update mem k (word i))
      (Function.update slots i (some ⟨k, mem k⟩)) where
  separate j j' p q at_j at_j' inside same := by
    by_cases hj : j = i <;> by_cases hj' : j' = i
    · rw [hj, hj']
    · subst hj
      rw [Function.update_self] at at_j
      rw [Function.update_of_ne hj'] at at_j'
      cases at_j
      exact absurd same.symm (free inside j' q at_j')
    · subst hj'
      rw [Function.update_of_ne hj] at at_j
      rw [Function.update_self] at at_j'
      cases at_j'
      have here : p.line = k := same
      exact absurd here (free (here ▸ inside) j p at_j)
    · rw [Function.update_of_ne hj] at at_j
      rw [Function.update_of_ne hj'] at at_j'
      exact patched.separate j j' p q at_j at_j' inside same
  old j p at_j inside := by
    by_cases hj : j = i
    · subst hj
      rw [Function.update_self] at at_j
      cases at_j
      exact patched.rest k inside (free inside)
    · rw [Function.update_of_ne hj] at at_j
      exact patched.old j p at_j inside
  trapped j p at_j inside := by
    by_cases hj : j = i
    · subst hj
      rw [Function.update_self] at at_j
      cases at_j
      exact Function.update_self ..
    · rw [Function.update_of_ne hj] at at_j
      have other : p.line ≠ k := fun same => free (same ▸ inside) j p at_j same
      rw [Function.update_of_ne other]
      exact patched.trapped j p at_j inside
  rest k' inside none := by
    have other : k' ≠ k := fun same => none i ⟨k, mem k⟩ (Function.update_self ..) same.symm
    rw [Function.update_of_ne other]
    apply patched.rest k' inside
    intro j p at_j
    have hj : j ≠ i := by
      rintro rfl
      simp [unused] at at_j
    exact none j p (by rw [Function.update_of_ne hj, at_j])

omit [DecidableEq κ] in
theorem outside (patched : PatchedBy region word orig mem slots) {i : S} {p : Patch κ υ}
    (unused : slots i = none) (away : p.line ∉ region) :
    PatchedBy region word orig mem (Function.update slots i (some p)) := by
  have elsewhere : ∀ j q, Function.update slots i (some p) j = some q → q.line ∈ region →
      slots j = some q := by
    intro j q at_j inside
    by_cases here : j = i
    · subst here
      rw [Function.update_self] at at_j
      cases at_j
      exact absurd inside away
    · rwa [Function.update_of_ne here] at at_j
  constructor
  · intro j j' q q' at_j at_j' inside same
    exact patched.separate j j' q q' (elsewhere j q at_j inside)
      (elsewhere j' q' at_j' (same ▸ inside)) inside same
  · intro j q at_j inside
    exact patched.old j q (elsewhere j q at_j inside) inside
  · intro j q at_j inside
    exact patched.trapped j q (elsewhere j q at_j inside) inside
  · intro k inside free
    apply patched.rest k inside
    intro j q at_j
    have here : j ≠ i := by
      rintro rfl
      simp [unused] at at_j
    exact free j q (by rw [Function.update_of_ne here, at_j])

theorem restore (patched : PatchedBy region word orig mem slots) {i : S} {p : Patch κ υ}
    (at_i : slots i = some p) :
    PatchedBy region word orig (Function.update mem p.line p.old) (Function.update slots i none) where
  separate j j' q q' at_j at_j' inside same := by
    have hj : j ≠ i := by rintro rfl; simp at at_j
    have hj' : j' ≠ i := by rintro rfl; simp at at_j'
    rw [Function.update_of_ne hj] at at_j
    rw [Function.update_of_ne hj'] at at_j'
    exact patched.separate j j' q q' at_j at_j' inside same
  old j q at_j inside := by
    have hj : j ≠ i := by rintro rfl; simp at at_j
    rw [Function.update_of_ne hj] at at_j
    exact patched.old j q at_j inside
  trapped j q at_j inside := by
    have hj : j ≠ i := by rintro rfl; simp at at_j
    rw [Function.update_of_ne hj] at at_j
    have other : q.line ≠ p.line := fun same =>
      hj (patched.separate j i q p at_j at_i inside same)
    rw [Function.update_of_ne other]
    exact patched.trapped j q at_j inside
  rest k inside none := by
    by_cases here : k = p.line
    · subst here
      rw [Function.update_self]
      exact patched.old i p at_i inside
    · rw [Function.update_of_ne here]
      apply patched.rest k inside
      intro j q at_j same
      by_cases hj : j = i
      · subst hj
        cases at_j.symm.trans at_i
        exact here same.symm
      · exact none j q (by rw [Function.update_of_ne hj, at_j]) same

end PatchedBy

/-- With one word for all slots. -/
structure Patched (region : Set κ) (trap : υ) (orig mem : κ → υ) (slots : S → Option (Patch κ υ)) :
    Prop where
  separate : ∀ i j p q, slots i = some p → slots j = some q → p.line ∈ region →
    p.line = q.line → i = j
  old : ∀ i p, slots i = some p → p.line ∈ region → p.old = orig p.line
  trapped : ∀ i p, slots i = some p → p.line ∈ region → mem p.line = trap
  rest : ∀ k ∈ region, (∀ i p, slots i = some p → p.line ≠ k) → mem k = orig k

omit [DecidableEq κ] [DecidableEq S] in
theorem patched_iff {region : Set κ} {trap : υ} {orig mem : κ → υ} {slots : S → Option (Patch κ υ)} :
    Patched region trap orig mem slots ↔ PatchedBy region (fun _ => trap) orig mem slots :=
  ⟨fun h => ⟨h.separate, h.old, h.trapped, h.rest⟩, fun h => ⟨h.separate, h.old, h.trapped, h.rest⟩⟩

namespace Patched

variable {region : Set κ} {trap : υ} {orig mem : κ → υ} {slots : S → Option (Patch κ υ)}

omit [DecidableEq κ] [DecidableEq S] in
theorem empty (none : ∀ i, slots i = none) (same : ∀ k ∈ region, mem k = orig k) :
    Patched region trap orig mem slots :=
  patched_iff.mpr (.empty none same)

omit [DecidableEq κ] [DecidableEq S] in
theorem clean (patched : Patched region trap orig mem slots) (none : ∀ i, slots i = none) {k : κ}
    (inside : k ∈ region) : mem k = orig k :=
  (patched_iff.mp patched).clean none inside

omit [DecidableEq κ] [DecidableEq S] in
theorem agree (patched : Patched region trap orig mem slots) {mem' : κ → υ}
    (same : ∀ k ∈ region, mem' k = mem k) : Patched region trap orig mem' slots :=
  patched_iff.mpr ((patched_iff.mp patched).agree same)

theorem plant (patched : Patched region trap orig mem slots) {i : S} {k : κ}
    (unused : slots i = none) (free : k ∈ region → Free slots k) :
    Patched region trap orig (Function.update mem k trap)
      (Function.update slots i (some ⟨k, mem k⟩)) :=
  patched_iff.mpr ((patched_iff.mp patched).plant unused free)

omit [DecidableEq κ] in
theorem outside (patched : Patched region trap orig mem slots) {i : S} {p : Patch κ υ}
    (unused : slots i = none) (away : p.line ∉ region) :
    Patched region trap orig mem (Function.update slots i (some p)) :=
  patched_iff.mpr ((patched_iff.mp patched).outside unused away)

theorem restore (patched : Patched region trap orig mem slots) {i : S} {p : Patch κ υ}
    (at_i : slots i = some p) :
    Patched region trap orig (Function.update mem p.line p.old) (Function.update slots i none) :=
  patched_iff.mpr ((patched_iff.mp patched).restore at_i)

end Patched

end Psplink.Lib
