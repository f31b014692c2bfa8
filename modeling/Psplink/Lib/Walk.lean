import Mathlib.Algebra.Group.Nat.Defs
import Mathlib.Algebra.Order.Group.Int
import Mathlib.Tactic.Common

/-!
# Walks over tables

A loop over the records of a table, each of which says how long it is, with an offset that is a 32-bit `int`: how
the records lie says whether the loop ends and never goes back.
-/

namespace Psplink.Lib

/-- The loop runs while the offset is below the size, unless it is left at a record. -/
structure Table where
  size : Int
  len : Int → Nat
  leaves : Int → Bool

/-- The offsets of the records so far, and once the loop has ended the record that it was left at. -/
structure Walked where
  visited : List Int
  ended : Option (Option Int)

/-- The value of an `int` of 32 bits. -/
def wrap (i : Int) : Int := (i + 2 ^ 31) % 2 ^ 32 - 2 ^ 31

theorem wrap_of_lt {i : Int} (low : 0 ≤ i) (high : i < 2 ^ 31) : wrap i = i := by
  unfold wrap
  omega

theorem wrap_of_ge {i : Int} (low : 2 ^ 31 ≤ i) (high : i < 2 ^ 32) : wrap i = i - 2 ^ 32 := by
  unfold wrap
  omega

namespace Table

variable (t : Table)

def next (i : Int) : Int := wrap (i + t.len i)

def walk : Nat → Int → Walked
  | 0, _ => ⟨[], none⟩
  | turns + 1, i =>
      if i < t.size then
        if t.leaves i then ⟨[i], some (some i)⟩
        else ⟨i :: (walk turns (t.next i)).visited, (walk turns (t.next i)).ended⟩
      else ⟨[], some none⟩

/-- Where a record begins, one behind the other. -/
def place : Nat → Nat
  | 0 => 0
  | n + 1 => place n + t.len (place n)

/-- The loop would go on from each of the first records. -/
def Passes (n : Nat) : Prop := ∀ m < n, (t.place m : Int) < t.size ∧ t.leaves (t.place m) = false

/-- No record from which the loop would go on is empty or so far behind that the next offset is no `int`. -/
def Sound : Prop := ∀ n, t.Passes (n + 1) → 0 < t.len (t.place n) ∧ t.place (n + 1) < 2 ^ 31

structure Walks : Prop where
  ends : ∃ turns, (t.walk turns 0).ended.isSome
  increasing : ∀ turns, (t.walk turns 0).visited.Pairwise (· < ·)

variable {t} {n turns : Nat}

theorem Passes.mono {k : Nat} (passes : t.Passes n) (le : k ≤ n) : t.Passes k := fun m less =>
  passes m (Nat.lt_of_lt_of_le less le)

theorem Passes.succ (passes : t.Passes n) (inside : (t.place n : Int) < t.size) (stays : t.leaves (t.place n) = false) :
    t.Passes (n + 1) := by
  intro m less
  rcases Nat.lt_succ_iff_lt_or_eq.mp less with earlier | rfl
  · exact passes m earlier
  · exact ⟨inside, stays⟩

theorem next_place (far : t.place (n + 1) < 2 ^ 31) : t.next (t.place n) = t.place (n + 1) := by
  have sum : (t.place n : Int) + t.len (t.place n) = (t.place (n + 1) : Nat) := by rw [place, Int.natCast_add]
  rw [next, sum, wrap_of_lt (Int.natCast_nonneg _) (by exact_mod_cast far)]

/-! ## Sound tables -/

theorem visited_ascends (sound : t.Sound) (passes : t.Passes n) :
    (t.walk turns (t.place n)).visited.Pairwise (· < ·) ∧ ∀ i ∈ (t.walk turns (t.place n)).visited, (t.place n : Int) ≤ i := by
  induction turns generalizing n with
  | zero => simp [walk]
  | succ turns ih =>
      rw [walk]
      split
      · next inside =>
        cases stays : t.leaves (t.place n) with
        | true => simp
        | false =>
            have further := passes.succ inside stays
            obtain ⟨some_, far⟩ := sound n further
            have more : t.place n < t.place (n + 1) := by
              rw [place]
              omega
            obtain ⟨ascends, behind⟩ := ih further
            rw [if_neg Bool.false_ne_true, next_place far]
            refine ⟨List.pairwise_cons.mpr ⟨fun i member => ?_, ascends⟩, fun i member => ?_⟩
            · have := behind i member
              omega
            · rcases List.mem_cons.mp member with rfl | member
              · exact le_refl _
              · have := behind i member
                omega
      · simp

theorem ends_of_sound (sound : t.Sound) (passes : t.Passes n) (enough : t.size ≤ t.place n + turns) :
    (t.walk (turns + 1) (t.place n)).ended.isSome := by
  induction turns generalizing n with
  | zero =>
      rw [walk, if_neg (by omega)]
      rfl
  | succ turns ih =>
      rw [walk]
      split
      · next inside =>
        cases stays : t.leaves (t.place n) with
        | true => rfl
        | false =>
            have further := passes.succ inside stays
            obtain ⟨some_, far⟩ := sound n further
            rw [if_neg Bool.false_ne_true, next_place far]
            refine ih further ?_
            rw [place]
            omega
      · rfl

theorem Sound.walks (sound : t.Sound) : t.Walks where
  ends := ⟨t.size.toNat + 1, ends_of_sound sound (n := 0) (fun _ less => absurd less (Nat.not_lt_zero _)) (by omega)⟩
  increasing _ := (visited_ascends sound (n := 0) fun _ less => absurd less (Nat.not_lt_zero _)).1

/-! ## Walks that ascend -/

/-- The loop comes to each record that it passes on the way. -/
theorem visited_from (passes : t.Passes n) (far : ∀ m < n, t.place (m + 1) < 2 ^ 31) (turns : Nat) :
    ∃ before, (t.walk (n + turns) 0).visited = before ++ (t.walk turns (t.place n)).visited := by
  induction n generalizing turns with
  | zero => exact ⟨[], by rw [Nat.zero_add]; rfl⟩
  | succ n ih =>
      obtain ⟨before, split⟩ := ih (passes.mono (Nat.le_succ n)) (fun m less => far m (Nat.lt_succ_of_lt less)) (turns + 1)
      obtain ⟨inside, stays⟩ := passes n (Nat.lt_succ_self n)
      have here : (t.walk (turns + 1) (t.place n)).visited = (t.place n : Int) :: (t.walk turns (t.place (n + 1))).visited := by
        rw [walk, if_pos inside, stays, if_neg Bool.false_ne_true, next_place (far n (Nat.lt_succ_self n))]
      refine ⟨before ++ [(t.place n : Int)], ?_⟩
      rw [Nat.succ_add_eq_add_succ, split, here, List.append_assoc]
      rfl

theorem head_visited {i : Int} (inside : i < t.size) (turns : Nat) : ∃ rest, (t.walk (turns + 1) i).visited = i :: rest := by
  rw [walk, if_pos inside]
  split
  · exact ⟨[], rfl⟩
  · exact ⟨_, rfl⟩

theorem Walks.sound (walks : t.Walks) (small : t.size < 2 ^ 31) (short : ∀ i, t.len i ≤ 2 ^ 31) : t.Sound := by
  intro n
  induction n using Nat.strongRecOn with
  | ind n ih =>
      intro passes
      obtain ⟨inside, stays⟩ := passes n (Nat.lt_succ_self n)
      have far (m : Nat) (less : m < n) : t.place (m + 1) < 2 ^ 31 := (ih m less (passes.mono (Nat.succ_le_succ less.le))).2
      obtain ⟨before, split⟩ := visited_from (passes.mono (Nat.le_succ n)) far 2
      have here : (t.walk 2 (t.place n)).visited = (t.place n : Int) :: (t.walk 1 (t.next (t.place n))).visited := by
        rw [walk, if_pos inside, stays, if_neg Bool.false_ne_true]
      have ascends := walks.increasing (n + 2)
      rw [split, here] at ascends
      have later := (List.pairwise_cons.mp (List.pairwise_append.mp ascends).2.1).1
      -- a next offset below the size is the next one visited
      have further (back : t.next (t.place n) < t.size) : (t.place n : Int) < t.next (t.place n) := by
        obtain ⟨rest, cons⟩ := head_visited back 0
        exact later _ (by rw [cons]; exact List.mem_cons_self)
      have len := short (t.place n)
      have sum : t.place (n + 1) = t.place n + t.len (t.place n) := rfl
      by_cases fits : t.place (n + 1) < 2 ^ 31
      · refine ⟨?_, fits⟩
        rw [next_place fits] at further
        by_contra empty
        have := further (by omega)
        omega
      · have around : t.next (t.place n) = (t.place n : Int) + t.len (t.place n) - 2 ^ 32 := by
          rw [next, wrap_of_ge] <;> omega
        rw [around] at further
        have := further (by omega)
        omega

theorem walks_iff (small : t.size < 2 ^ 31) (short : ∀ i, t.len i ≤ 2 ^ 31) : t.Walks ↔ t.Sound :=
  ⟨fun walks => walks.sound small short, Sound.walks⟩

/-! ## Where the loop is left -/

/-- The same records, with no one at which the loop is left. -/
def through (t : Table) : Table := { t with leaves := fun _ => false }

theorem ended_through {i : Int} (ended : (t.through.walk turns i).ended.isSome) :
    (t.walk turns i).ended = some ((t.through.walk turns i).visited.find? t.leaves) := by
  induction turns generalizing i with
  | zero => cases ended
  | succ turns ih =>
      have same : t.through.next = t.next := rfl
      rw [walk] at ended ⊢
      rw [walk]
      simp only [through, Bool.false_eq_true, if_false] at ended ⊢
      by_cases inside : i < t.size
      · rw [if_pos inside] at ended ⊢
        rw [if_pos inside]
        cases stays : t.leaves i with
        | true => rw [if_pos rfl, List.find?_cons_of_pos stays]
        | false =>
            rw [if_neg Bool.false_ne_true, List.find?_cons_of_neg (by rw [stays]; exact Bool.false_ne_true)]
            exact ih ended
      · rw [if_neg inside, if_neg inside]
        rfl

end Table

end Psplink.Lib
