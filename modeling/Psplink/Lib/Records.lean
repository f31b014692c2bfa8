import Psplink.Lib.Packed

/-!
# Records in a stream

Values of one packed type, one behind the other without anything between them.
-/

namespace Psplink.Lib

variable {α : Type} [Packed α]

def records (rs : List α) : Bytes := rs.flatMap encode

@[simp] theorem records_nil : records ([] : List α) = [] := rfl

@[simp] theorem records_cons (r : α) (rs : List α) : records (r :: rs) = encode r ++ records rs := rfl

@[simp] theorem records_append (rs rs' : List α) : records (rs ++ rs') = records rs ++ records rs' :=
  List.flatMap_append

@[simp] theorem length_records (rs : List α) : (records rs).length = rs.length * sizeof α := by
  induction rs with
  | nil => rw [records_nil, List.length_nil, List.length_nil, Nat.zero_mul]
  | cons r rs ih =>
      rw [records_cons, List.length_append, Packed.length_encode, ih, List.length_cons, Nat.succ_mul, Nat.add_comm]

/-- A stream begins with a record as soon as enough of it is there. -/
theorem records_front {rs : List α} {front rest : Bytes} (stream : records rs = front ++ rest) (some_ : 0 < sizeof α)
    (whole : sizeof α ≤ front.length) :
    ∃ r rs', rs = r :: rs' ∧ front.take (sizeof α) = encode r ∧ records rs' = front.drop (sizeof α) ++ rest := by
  cases rs with
  | nil =>
      have lengths := congrArg List.length stream
      rw [records_nil, List.length_append, List.length_nil] at lengths
      omega
  | cons r rs =>
      rw [records_cons] at stream
      have first := congrArg (List.take (sizeof α)) stream
      have later := congrArg (List.drop (sizeof α)) stream
      rw [List.take_left' (Packed.length_encode r), List.take_append_of_le_length whole] at first
      rw [Packed.drop_encode, List.drop_append_of_le_length whole] at later
      exact ⟨r, rs, rfl, first.symm, later⟩

end Psplink.Lib
