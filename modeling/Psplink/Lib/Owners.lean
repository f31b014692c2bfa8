import Mathlib.Data.List.Nodup
import Mathlib.Data.Set.Card
import Mathlib.Logic.Function.Basic

/-!
# Slots and their owners

Slots that are used or not, and owners with a stack of slots each: whether every slot in use is in the stack of
exactly one owner.
-/

namespace Psplink.Lib

variable {ι τ : Type}

structure Owned (used : ι → Prop) (held : τ → List ι) : Prop where
  owner : ∀ i, used i → ∃ t, i ∈ held t
  used : ∀ {i t}, i ∈ held t → used i
  unique : ∀ {i t u}, i ∈ held t → i ∈ held u → t = u
  nodup : ∀ t, (held t).Nodup

namespace Owned

variable {used used' : ι → Prop} {held : τ → List ι} {i : ι} {t : τ}

theorem congr (owned : Owned used held) (same : ∀ i, used' i ↔ used i) : Owned used' held where
  owner i here := owned.owner i ((same i).mp here)
  used mem := (same _).mpr (owned.used mem)
  unique := owned.unique
  nodup := owned.nodup

theorem free (unused : ∀ i, ¬ used i) (empty : ∀ t, held t = []) : Owned used held where
  owner i here := absurd here (unused i)
  used {i t} mem := by
    rw [empty t] at mem
    cases mem
  unique {i t u} mem := by
    rw [empty t] at mem
    cases mem
  nodup t := by
    rw [empty t]
    exact List.nodup_nil

theorem tail (owned : Owned used held) {rest : List ι} (top : held t = i :: rest) : i ∉ rest ∧ rest.Nodup := by
  have nodup := owned.nodup t
  rw [top, List.nodup_cons] at nodup
  exact nodup

variable [DecidableEq τ]

theorem push (owned : Owned used held) (unused : ¬ used i) (t : τ) :
    Owned (fun j => j = i ∨ used j) (Function.update held t (i :: held t)) where
  owner j here := by
    rcases here with rfl | here
    · exact ⟨t, by rw [Function.update_self]; exact List.mem_cons_self⟩
    · obtain ⟨u, mem⟩ := owned.owner j here
      refine ⟨u, ?_⟩
      rw [Function.update_apply]
      split
      · next same => exact List.mem_cons_of_mem _ (same ▸ mem)
      · exact mem
  used {j u} mem := by
    rw [Function.update_apply] at mem
    split at mem
    · exact (List.mem_cons.mp mem).imp id owned.used
    · exact .inr (owned.used mem)
  unique {j u v} first second := by
    rw [Function.update_apply] at first second
    have fresh {w : τ} : i ∉ held w := fun mem => unused (owned.used mem)
    split at first <;> split at second
    · next same same' => exact same.trans same'.symm
    · next same _ =>
      rcases List.mem_cons.mp first with rfl | first
      · exact absurd second fresh
      · exact same.trans (owned.unique first second)
    · next _ same =>
      rcases List.mem_cons.mp second with rfl | second
      · exact absurd first fresh
      · exact (owned.unique first second).trans same.symm
    · exact owned.unique first second
  nodup u := by
    rw [Function.update_apply]
    split
    · exact List.nodup_cons.mpr ⟨fun mem => unused (owned.used mem), owned.nodup t⟩
    · exact owned.nodup u

theorem pop (owned : Owned used held) {rest : List ι} (top : held t = i :: rest) :
    Owned (fun j => j ≠ i ∧ used j) (Function.update held t rest) := by
  have here : i ∈ held t := by
    rw [top]
    exact List.mem_cons_self
  have within {j : ι} {u : τ} (mem : j ∈ Function.update held t rest u) : j ∈ held u ∧ j ≠ i := by
    rw [Function.update_apply] at mem
    split at mem
    · next same =>
      rw [same, top]
      exact ⟨List.mem_cons_of_mem _ mem, fun same => (owned.tail top).1 (same ▸ mem)⟩
    · next other => exact ⟨mem, fun same => other (owned.unique (same ▸ mem) here)⟩
  refine ⟨?_, ?_, ?_, ?_⟩
  · rintro j ⟨other, used⟩
    obtain ⟨u, mem⟩ := owned.owner j used
    refine ⟨u, ?_⟩
    rw [Function.update_apply]
    split
    · next same =>
      rw [same, top] at mem
      exact (List.mem_cons.mp mem).resolve_left other
    · exact mem
  · exact fun mem => ⟨(within mem).2, owned.used (within mem).1⟩
  · exact fun first second => owned.unique (within first).1 (within second).1
  · intro u
    rw [Function.update_apply]
    split
    · exact (owned.tail top).2
    · exact owned.nodup u

/-- An owner that goes without giving up its slots leaves them in use. -/
theorem not_dropped (owned : Owned used held) (here : held t ≠ []) : ¬ Owned used (Function.update held t []) := by
  intro owned'
  obtain ⟨i, mem⟩ := List.exists_mem_of_ne_nil _ here
  obtain ⟨u, mem'⟩ := owned'.owner i (owned.used mem)
  rw [Function.update_apply] at mem'
  split at mem'
  · cases mem'
  · next other => exact other (owned.unique mem' mem)

/-! ## When all slots are in use -/

omit [DecidableEq τ] in
/-- There are fewer owners than slots exactly if one of them has more than one. -/
theorem ncard_lt_iff [Fintype ι] [Finite τ] (owned : Owned used held) (full : ∀ i, used i) :
    {t | held t ≠ []}.ncard < Fintype.card ι ↔ ∃ t, 1 < (held t).length := by
  constructor
  · intro fewer
    by_contra none
    push Not at none
    choose owner mem using fun i => owned.owner i (full i)
    have injective : Function.Injective owner := by
      intro i j same
      have first := mem i
      have second := mem j
      rw [← same] at second
      obtain ⟨k, single⟩ : ∃ k, held (owner i) = [k] := by
        have size := none (owner i)
        match held (owner i), first, size with
        | [k], _, _ => exact ⟨k, rfl⟩
      rw [single, List.mem_singleton] at first second
      exact first.trans second.symm
    have inside : Set.range owner ⊆ {t | held t ≠ []} := by
      rintro _ ⟨i, rfl⟩
      exact List.ne_nil_of_mem (mem i)
    have size : (Set.range owner).ncard = Fintype.card ι := by
      rw [← Set.image_univ, Set.ncard_image_of_injective _ injective, Set.ncard_univ, Nat.card_eq_fintype_card]
    have le := Set.ncard_le_ncard inside (Set.toFinite _)
    omega
  · rintro ⟨t, two⟩
    obtain ⟨a, b, rest, stack⟩ : ∃ a b rest, held t = a :: b :: rest := by
      match held t, two with
      | a :: b :: rest, _ => exact ⟨a, b, rest, rfl⟩
    have top {u : τ} (some_ : held u ≠ []) : (held u).headD b ∈ held u := by
      obtain ⟨c, more, here⟩ := List.exists_cons_of_ne_nil some_
      rw [here]
      exact List.mem_cons_self
    -- the slot below the top of that stack is on the top of none
    have others : ∀ u ∈ {t | held t ≠ []}, (held u).headD b ∈ ({b}ᶜ : Set ι) := by
      intro u some_ same
      have below : b ∈ held t := by simp [stack]
      have mem := top some_
      rw [show (held u).headD b = b from same] at mem
      obtain rfl := owned.unique mem below
      rw [stack, List.headD_cons] at same
      have nodup := owned.nodup u
      rw [stack] at nodup
      exact (List.nodup_cons.mp nodup).1 (by rw [show a = b from same]; exact List.mem_cons_self)
    have injective : Set.InjOn (fun u => (held u).headD b) {t | held t ≠ []} := by
      intro u some_ v some' same
      have mem := top some_
      rw [show (held u).headD b = (held v).headD b from same] at mem
      exact owned.unique mem (top some')
    have le := Set.ncard_le_ncard_of_injOn _ others injective (Set.toFinite _)
    have size : ({b}ᶜ : Set ι).ncard < (Set.univ : Set ι).ncard :=
      Set.ncard_lt_ncard ((Set.ssubset_univ_iff).mpr fun all => (all ▸ Set.mem_univ b : b ∈ ({b}ᶜ : Set ι)) rfl)
    rw [Set.ncard_univ, Nat.card_eq_fintype_card] at size
    omega

end Owned

end Psplink.Lib
