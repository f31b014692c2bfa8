import Psplink.Lib.Packed

/-!
# Strings in C

A string is the bytes before its NUL. A block is strings one after the other, each with its NUL.
-/

namespace Psplink.Lib

@[ext]
structure CStr where
  text : Bytes
  nulFree : 0 ∉ text
deriving DecidableEq

namespace CStr

def empty : CStr := ⟨[], List.not_mem_nil⟩

theorem takeWhile_nulFree (memory : Bytes) : 0 ∉ memory.takeWhile (· ≠ 0) := by
  intro mem
  have := List.mem_takeWhile_imp mem
  simp at this

/-- The string that starts where these bytes do. -/
def ofBytes (memory : Bytes) : CStr := ⟨memory.takeWhile (· ≠ 0), takeWhile_nulFree memory⟩

def bytes (s : CStr) : Bytes := s.text ++ [0]

@[simp] theorem length_bytes (s : CStr) : s.bytes.length = s.text.length + 1 := by simp [bytes]

@[simp] theorem ofBytes_bytes_append (s : CStr) (rest : Bytes) : ofBytes (s.bytes ++ rest) = s := by
  ext1
  change (s.bytes ++ rest).takeWhile (· ≠ 0) = s.text
  rw [bytes, List.append_assoc]
  exact takeWhile_upto s.nulFree rest

/-- The string that starts where a NUL is to come stands there with that NUL. -/
theorem bytes_ofBytes_prefix {memory : Bytes} (ends : 0 ∈ memory) : (ofBytes memory).bytes <+: memory := by
  obtain ⟨front, back, split, first⟩ := List.eq_append_cons_of_mem ends
  have text : ofBytes memory = ⟨front, first⟩ := by
    have here := ofBytes_bytes_append ⟨front, first⟩ back
    rw [← here, split]
    simp [bytes]
  rw [text, split]
  exact ⟨back, by simp [bytes]⟩

end CStr

open CStr

def block (strings : List CStr) : Bytes := strings.flatMap bytes

/-- The strings of a block, of which it takes so many at most. -/
def unblock : Nat → Bytes → List CStr
  | 0, _ => []
  | _ + 1, [] => []
  | limit + 1, b :: block =>
      ofBytes (b :: block) :: unblock limit ((b :: block).drop ((ofBytes (b :: block)).text.length + 1))

@[simp] theorem block_cons (s : CStr) (strings : List CStr) : block (s :: strings) = s.bytes ++ block strings :=
  List.flatMap_cons

theorem block_append (front back : List CStr) : block (front ++ back) = block front ++ block back :=
  List.flatMap_append

theorem unblock_bytes_append (limit : Nat) (s : CStr) (rest : Bytes) :
    unblock (limit + 1) (s.bytes ++ rest) = s :: unblock limit rest := by
  have first := ofBytes_bytes_append s rest
  have after : (s.bytes ++ rest).drop (s.text.length + 1) = rest := by
    rw [← s.length_bytes, List.drop_left]
  cases text : s.bytes ++ rest with
  | nil =>
      have size := congrArg List.length text
      simp at size
  | cons b memory =>
      rw [text] at first after
      rw [unblock, first, after]

theorem unblock_block (limit : Nat) (strings : List CStr) : unblock limit (block strings) = strings.take limit := by
  induction strings generalizing limit with
  | nil => cases limit <;> rfl
  | cons s strings ih =>
      cases limit with
      | zero => rfl
      | succ limit => rw [block_cons, unblock_bytes_append, ih, List.take_succ_cons]

theorem length_block_take_le (limit : Nat) (strings : List CStr) :
    (block (strings.take limit)).length ≤ (block strings).length := by
  conv_rhs => rw [← List.take_append_drop limit strings, block_append, List.length_append]
  exact Nat.le_add_right _ _

end Psplink.Lib
