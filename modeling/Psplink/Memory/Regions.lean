import Psplink.Address.Decode

/-!
# Memory regions

What `memValidate` lets through: the rest of the one region that an address lies in.
-/

namespace Psplink.Memory
open Psplink.Lib Psplink.Lib.Flat Psplink.Address

abbrev memAttribByte : Word := 8
abbrev memAttribHalf : Word := 16
abbrev memAttribWrite : Word := 2
abbrev memAttribExec : Word := 4

def Contains (entry : MemEntry) (a : Addr) : Prop := entry.addr ≤ a ∧ a < entry.addr + entry.size

instance (entry : MemEntry) (a : Addr) : Decidable (Contains entry a) := inferInstanceAs (Decidable (_ ∧ _))

/-- The first region in the table that an address lies in. -/
def region (a : Addr) : Option MemEntry := memareas.find? fun entry => Contains entry a

/-- The regions are intervals behind the null pointer that a signed number of bytes covers. -/
theorem areas_sound : ∀ entry ∈ memareas, 0 < entry.addr.toNat ∧ entry.addr.toNat + entry.size.toNat < 2 ^ 32 - 4 ∧
    entry.size.toNat < 2 ^ 31 := by
  simp only [memareas, List.forall_mem_cons]
  refine ⟨?_, ?_, ?_, ?_, ?_, ?_, ?_, ?_, ?_, ?_, ?_, ?_, ?_, fun _ mem => absurd mem List.not_mem_nil⟩
  all_goals decide

theorem contains_iff {entry : MemEntry} (mem : entry ∈ memareas) (a : Addr) :
    Contains entry a ↔ entry.addr.toNat ≤ a.toNat ∧ a.toNat < entry.addr.toNat + entry.size.toNat := by
  obtain ⟨-, fits, -⟩ := areas_sound entry mem
  rw [Contains, BitVec.le_def, BitVec.lt_def, BitVec.toNat_add, Nat.mod_eq_of_lt (by omega)]

def Separate (entry entry' : MemEntry) : Prop :=
  entry.addr.toNat + entry.size.toNat ≤ entry'.addr.toNat ∨ entry'.addr.toNat + entry'.size.toNat ≤ entry.addr.toNat

instance (entry entry' : MemEntry) : Decidable (Separate entry entry') := inferInstanceAs (Decidable (_ ∨ _))

instance : Std.Symm Separate := ⟨fun _ _ => Or.symm⟩

theorem areas_separate : memareas.Pairwise Separate := by decide

theorem areas_aligned : ∀ entry ∈ memareas, 4 ∣ entry.addr.toNat ∧ 4 ∣ entry.size.toNat := by
  simp only [memareas, List.forall_mem_cons]
  refine ⟨?_, ?_, ?_, ?_, ?_, ?_, ?_, ?_, ?_, ?_, ?_, ?_, ?_, fun _ mem => absurd mem List.not_mem_nil⟩
  all_goals decide

/-- An address lies in one region at most. -/
theorem region_unique {entry entry' : MemEntry} {a : Addr} (mem : entry ∈ memareas) (mem' : entry' ∈ memareas)
    (inside : Contains entry a) (inside' : Contains entry' a) : entry = entry' := by
  by_contra other
  have apart : _ ≤ _ ∨ _ ≤ _ := areas_separate.forall mem mem' other
  have here := (contains_iff mem a).mp inside
  have there := (contains_iff mem' a).mp inside'
  omega

section Validated

variable {env : Env} {a : Addr} {attrib : Word}

theorem region_some {entry : MemEntry} (found : region a = some entry) : entry ∈ memareas ∧ Contains entry a := by
  have holds := List.find?_some found
  exact ⟨List.mem_of_find?_eq_some found, of_decide_eq_true holds⟩

/-- What is left of a region, or nothing, or the four bytes that are let through without protection. -/
theorem memValidate_cases (env : Env) (a : Addr) (attrib : Word) :
    (∃ entry, region a = some entry ∧ (entry.v1only → env.isv1) ∧
      env.memValidate a attrib = entry.size.toNat - (a - entry.addr).toNat) ∨
    env.memValidate a attrib = 0 ∨ env.protoff ∧ env.memValidate a attrib = 4 := by
  have raised (left : Nat) : (if env.protoff ∧ left = 0 then 4 else left) = left ∨
      env.protoff ∧ (if env.protoff ∧ left = 0 then 4 else left) = 4 := by
    by_cases raw : env.protoff ∧ left = 0
    · exact .inr ⟨raw.1, if_pos raw⟩
    · exact .inl (if_neg raw)
  have same : (memareas.find? fun entry => entry.addr ≤ a ∧ a < entry.addr + entry.size) = region a := rfl
  unfold Env.memValidate
  dsimp only
  cases found : region a with
  | none =>
      simp only [same, found]
      exact .inr (by simpa only using raised 0)
  | some entry =>
      simp only [same, found]
      by_cases passes : entry.attrib &&& attrib = attrib ∧ (¬ entry.v1only ∨ env.isv1)
      · simp only [if_pos passes]
        rcases raised (entry.size.toNat - (a - entry.addr).toNat) with left | four
        · exact .inl ⟨entry, rfl, fun only => passes.2.resolve_left (not_not_intro only), left⟩
        · exact .inr (.inr four)
      · simp only [if_neg passes]
        exact .inr (by simpa only using raised 0)

theorem toNat_sub_region {entry : MemEntry} (found : region a = some entry) :
    (a - entry.addr).toNat = a.toNat - entry.addr.toNat ∧ entry.addr.toNat ≤ a.toNat := by
  obtain ⟨mem, inside⟩ := region_some found
  have bounds := (contains_iff mem a).mp inside
  rw [BitVec.toNat_sub]
  omega

theorem memValidate_small (env : Env) (a : Addr) (attrib : Word) : env.memValidate a attrib < 2 ^ 31 := by
  rcases memValidate_cases env a attrib with ⟨entry, found, -, left⟩ | left | ⟨-, left⟩
  · have small := (areas_sound entry (region_some found).1).2.2
    omega
  · omega
  · omega

theorem dvd_memValidate {width : Nat} (whole : width ∣ 4) (aligned : width ∣ a.toNat) (on : env.protoff = false) :
    width ∣ env.memValidate a attrib := by
  rcases memValidate_cases env a attrib with ⟨entry, found, -, left⟩ | none_ | ⟨off, -⟩
  · obtain ⟨base, size⟩ := areas_aligned entry (region_some found).1
    rw [left, (toNat_sub_region found).1]
    exact Nat.dvd_sub (Nat.dvd_trans whole size) (Nat.dvd_sub aligned (Nat.dvd_trans whole base))
  · rw [none_]
    exact Nat.dvd_zero width
  · rw [on] at off
    cases off

/-- A region that the firmware has. -/
def Covered (env : Env) (start x : Addr) : Prop :=
  ∃ entry ∈ memareas, (entry.v1only → env.isv1) ∧ Contains entry start ∧ Contains entry x

/-- With protection on every byte that is left is in the region of the first. -/
theorem covered_of_validated (on : env.protoff = false) {i : Nat} (left : i < env.memValidate a attrib) :
    Covered env a (offset a i) := by
  rcases memValidate_cases env a attrib with ⟨entry, found, only, size⟩ | none_ | ⟨off, -⟩
  · obtain ⟨mem, inside⟩ := region_some found
    obtain ⟨-, fits, -⟩ := areas_sound entry mem
    have bounds := (contains_iff mem a).mp inside
    have behind := (toNat_sub_region found).1
    refine ⟨entry, mem, only, inside, (contains_iff mem _).mpr ?_⟩
    rw [toNat_offset (by omega)]
    omega
  · omega
  · rw [on] at off
    cases off

/-- The bytes from an address in a region on do not come round to the null pointer. -/
theorem validated_fits {entry : MemEntry} (mem : entry ∈ memareas) (inside : Contains entry a) :
    0 < a.toNat ∧ a.toNat + env.memValidate a attrib ≤ 2 ^ 32 := by
  obtain ⟨positive, fits, -⟩ := areas_sound entry mem
  have bounds := (contains_iff mem a).mp inside
  refine ⟨by omega, ?_⟩
  rcases memValidate_cases env a attrib with ⟨entry', found, -, size⟩ | none_ | ⟨-, four⟩
  · obtain ⟨mem', inside'⟩ := region_some found
    obtain ⟨-, fits', -⟩ := areas_sound entry' mem'
    have bounds' := (contains_iff mem' a).mp inside'
    have behind := (toNat_sub_region found).1
    omega
  · omega
  · omega

end Validated

end Psplink.Memory
