import Mathlib.Data.List.Induction

/-!
# Masked patterns

Sets of words that are given by the values of some of their bits, and tables that are searched for the
last entry whose pattern a word matches.
-/

namespace Psplink.Lib

structure Pattern (w : Nat) where
  mask : BitVec w
  bits : BitVec w
  deriving DecidableEq

namespace Pattern

variable {w : Nat} {p q : Pattern w} {word : BitVec w}

def Matches (p : Pattern w) (word : BitVec w) : Prop := word &&& p.mask = p.bits

instance (p : Pattern w) (word : BitVec w) : Decidable (p.Matches word) :=
  inferInstanceAs (Decidable (word &&& p.mask = p.bits))

/-- A bit has one value here and the other one there. -/
def conflicts (p q : Pattern w) : Bool := p.bits &&& (p.mask &&& q.mask) != q.bits &&& (p.mask &&& q.mask)

/-- The bits that are given here are given there with the same values. -/
def refines (p q : Pattern w) : Bool := p.mask &&& q.mask == q.mask && p.bits &&& q.mask == q.bits

def both (p q : Pattern w) : Pattern w := ⟨p.mask ||| q.mask, p.bits ||| q.bits⟩

theorem Matches.bits_and (matched : p.Matches word) (m : BitVec w) : p.bits &&& m = word &&& (p.mask &&& m) := by
  rw [← matched, BitVec.and_assoc]

theorem Matches.not_conflicts (matched : p.Matches word) (also : q.Matches word) : p.conflicts q = false := by
  have here := matched.bits_and (p.mask &&& q.mask)
  have there := also.bits_and (p.mask &&& q.mask)
  have masks : p.mask &&& (p.mask &&& q.mask) = q.mask &&& (p.mask &&& q.mask) := by
    rw [← BitVec.and_assoc, BitVec.and_self, BitVec.and_comm q.mask, BitVec.and_assoc, BitVec.and_self]
  rw [conflicts, here, there, masks]
  exact bne_self_eq_false _

theorem Matches.of_refines (matched : p.Matches word) (refines : p.refines q = true) : q.Matches word := by
  rw [Pattern.refines, Bool.and_eq_true, beq_iff_eq, beq_iff_eq] at refines
  rw [Matches, ← refines.2, matched.bits_and, refines.1]

theorem Matches.both (matched : p.Matches word) (also : q.Matches word) : (p.both q).Matches word := by
  rw [Matches, Pattern.both, BitVec.and_or_distrib_left, matched, also]

/-- Whether two patterns conflict, on numbers: tables are compared much faster so. -/
theorem conflicts_eq_beq : p.conflicts q = !(p.bits.toNat &&& (p.mask.toNat &&& q.mask.toNat)).beq
    (q.bits.toNat &&& (p.mask.toNat &&& q.mask.toNat)) := by
  rw [Bool.eq_iff_iff, conflicts, bne_iff_ne, Bool.not_eq_true', ← Bool.not_eq_true, Nat.beq_eq, ne_eq, ← BitVec.toNat_inj]
  simp only [BitVec.toNat_and]

/-- The value of a field all of whose bits are given. -/
theorem Matches.field (matched : p.Matches word) (shift : Nat) (m : BitVec w) (given : p.mask >>> shift &&& m = m) :
    word >>> shift &&& m = p.bits >>> shift &&& m := by
  rw [← matched, BitVec.ushiftRight_and_distrib, BitVec.and_assoc, given]

/-- The words that have this value in a field. -/
theorem matches_field {shift : Nat} {m v : BitVec w} (value : word >>> shift &&& m = v) :
    (⟨m <<< shift, v <<< shift⟩ : Pattern w).Matches word := by
  rw [Matches, ← value]
  ext i inside
  by_cases low : i < shift
  · simp [low]
  · have back : shift + (i - shift) = i := by omega
    simp [low, back, inside]

end Pattern

/-! ## Tables -/

section
variable {w : Nat} {E : Type} (pattern : E → Pattern w)

def lastMatch (table : List E) (word : BitVec w) : Option E :=
  table.foldl (fun found e => if (pattern e).Matches word then some e else found) none

variable {pattern} {table : List E} {word : BitVec w}

theorem lastMatch_append_singleton (e : E) : lastMatch pattern (table ++ [e]) word =
    if (pattern e).Matches word then some e else lastMatch pattern table word := by
  rw [lastMatch, List.foldl_append]
  rfl

theorem lastMatch_eq_some {e : E} (found : lastMatch pattern table word = some e) :
    e ∈ table ∧ (pattern e).Matches word := by
  induction table using List.reverseRecOn with
  | nil => cases found
  | append_singleton table last ih =>
      rw [lastMatch_append_singleton] at found
      by_cases matched : (pattern last).Matches word
      · rw [if_pos matched, Option.some.injEq] at found
        subst found
        exact ⟨List.mem_append_right _ (List.mem_singleton_self _), matched⟩
      · rw [if_neg matched] at found
        exact ⟨List.mem_append_left _ (ih found).1, (ih found).2⟩

theorem lastMatch_isSome {e : E} (member : e ∈ table) (matched : (pattern e).Matches word) :
    ∃ e, lastMatch pattern table word = some e := by
  induction table using List.reverseRecOn with
  | nil => cases member
  | append_singleton table last ih =>
      rw [lastMatch_append_singleton]
      by_cases here : (pattern last).Matches word
      · exact ⟨last, if_pos here⟩
      · rw [if_neg here]
        rcases List.mem_append.mp member with earlier | now
        · exact ih earlier
        · rw [List.mem_singleton.mp now] at matched
          exact absurd matched here

end

end Psplink.Lib
