import Mathlib.Data.Int.ModEq
import Mathlib.Data.List.Basic
import Mathlib.Logic.Function.Basic

/-!
# Ring buffers

A buffer with a place to read, a place to write and a count, each kept by hand. `Fifo` says which
list it holds; a push appends to the list and a pop takes its head.
-/

namespace Psplink.Lib

structure RingBuffer (α : Type) where
  buffer : Int → α
  readPos : Int
  writePos : Int
  size : Int

namespace RingBuffer

variable {α : Type} {cap : Int} {r : RingBuffer α} {xs : List α}

def push (cap : Int) (r : RingBuffer α) (a : α) : RingBuffer α where
  buffer := Function.update r.buffer r.writePos a
  readPos := r.readPos
  writePos := (r.writePos + 1) % cap
  size := r.size + 1

def pop (cap : Int) (r : RingBuffer α) : RingBuffer α where
  buffer := r.buffer
  readPos := (r.readPos + 1) % cap
  writePos := r.writePos
  size := r.size - 1

def front (r : RingBuffer α) : α := r.buffer r.readPos

def pushAll (cap : Int) (r : RingBuffer α) (added : List α) : RingBuffer α := added.foldl (push cap) r

def popMany (cap : Int) : Nat → RingBuffer α → List α × RingBuffer α
  | 0, r => ([], r)
  | n + 1, r =>
      let (rest, r') := popMany cap n (r.pop cap)
      (r.front :: rest, r')

/-- So many elements are given up at once. -/
def release (cap : Int) (r : RingBuffer α) (n : Nat) : RingBuffer α :=
  { r with readPos := (r.readPos + n) % cap, size := r.size - n }

def clear (r : RingBuffer α) : RingBuffer α := { r with readPos := 0, writePos := 0, size := 0 }

/-- The ring holds `xs`, the oldest element first. -/
structure Fifo (cap : Int) (r : RingBuffer α) (xs : List α) : Prop where
  size : r.size = xs.length
  room : r.size ≤ cap
  start : 0 ≤ r.readPos ∧ r.readPos < cap
  stop : r.writePos = (r.readPos + r.size) % cap
  held : ∀ i (h : i < xs.length), r.buffer ((r.readPos + i) % cap) = xs[i]

theorem emod_ne {start i j : Int} (differ : i ≠ j) (low : 0 ≤ i ∧ 0 ≤ j) (high : i < cap ∧ j < cap) :
    (start + i) % cap ≠ (start + j) % cap := by
  intro same
  have congruent : i ≡ j [ZMOD cap] := Int.ModEq.add_left_cancel' start same
  apply differ
  rwa [Int.ModEq, Int.emod_eq_of_lt low.1 high.1, Int.emod_eq_of_lt low.2 high.2] at congruent

namespace Fifo

theorem clear (r : RingBuffer α) (positive : 0 < cap) : Fifo cap r.clear [] where
  size := rfl
  room := positive.le
  start := ⟨le_rfl, positive⟩
  stop := by simp [RingBuffer.clear]
  held i h := absurd h (Nat.not_lt_zero i)

theorem push (fifo : Fifo cap r xs) (space : r.size < cap) (a : α) :
    Fifo cap (r.push cap a) (xs ++ [a]) where
  size := by simp [RingBuffer.push, fifo.size]
  room := by
    show r.size + 1 ≤ cap
    omega
  start := fifo.start
  stop := by
    show (r.writePos + 1) % cap = (r.readPos + (r.size + 1)) % cap
    rw [fifo.stop, Int.emod_add_emod, Int.add_assoc]
  held i h := by
    show Function.update r.buffer r.writePos a ((r.readPos + i) % cap) = _
    have size := fifo.size
    rw [List.length_append, List.length_singleton] at h
    by_cases last : i = xs.length
    · subst last
      rw [← size, ← fifo.stop, Function.update_self]
      simp
    · have earlier : i < xs.length := by omega
      rw [fifo.stop, Function.update_of_ne (emod_ne (by omega) (by omega) (by omega)), fifo.held i earlier]
      simp [earlier]

/-- What is in the slots from some element on. -/
theorem contents (fifo : Fifo cap r xs) (k : Nat) :
    (List.range (r.size.toNat - k)).map (fun (i : Nat) => r.buffer ((r.readPos + ((k + i : Nat) : Int)) % cap)) = xs.drop k := by
  have size := fifo.size
  refine List.ext_getElem ?_ fun i here there => ?_
  · rw [List.length_map, List.length_range, List.length_drop]
    omega
  · rw [List.length_drop] at there
    rw [List.getElem_map, List.getElem_range, List.getElem_drop]
    exact fifo.held (k + i) (by omega)

theorem pop {a : α} (fifo : Fifo cap r (a :: xs)) : r.front = a ∧ Fifo cap (r.pop cap) xs := by
  have size := fifo.size
  have here := fifo.held 0 (Nat.zero_lt_succ _)
  rw [List.length_cons] at size
  constructor
  · rw [RingBuffer.front]
    rwa [Int.natCast_zero, Int.add_zero, Int.emod_eq_of_lt fifo.start.1 fifo.start.2] at here
  · have positive : 0 < cap := by
      have := fifo.start
      omega
    constructor
    · show r.size - 1 = xs.length
      omega
    · show r.size - 1 ≤ cap
      have := fifo.room
      omega
    · exact ⟨Int.emod_nonneg _ (by omega), Int.emod_lt_of_pos _ positive⟩
    · show r.writePos = ((r.readPos + 1) % cap + (r.size - 1)) % cap
      rw [fifo.stop, Int.emod_add_emod]
      congr 1
      omega
    · intro i h
      show r.buffer (((r.readPos + 1) % cap + i) % cap) = xs[i]
      have next := fifo.held (i + 1) (Nat.succ_lt_succ h)
      rw [Int.emod_add_emod, Int.add_assoc, Int.add_comm 1]
      simpa using next

theorem pushAll (fifo : Fifo cap r xs) {added : List α} (space : r.size + added.length ≤ cap) :
    Fifo cap (r.pushAll cap added) (xs ++ added) := by
  induction added generalizing r xs with
  | nil => simpa [RingBuffer.pushAll] using fifo
  | cons a added ih =>
      rw [List.length_cons] at space
      have next := fifo.push (by omega) a
      have rest := ih next (by
        show r.size + 1 + _ ≤ cap
        omega)
      simpa [RingBuffer.pushAll] using rest

theorem popMany (fifo : Fifo cap r xs) {n : Nat} (enough : n ≤ xs.length) :
    (popMany cap n r).1 = xs.take n ∧ Fifo cap (RingBuffer.popMany cap n r).2 (xs.drop n) := by
  induction n generalizing r xs with
  | zero => exact ⟨rfl, by simpa [RingBuffer.popMany] using fifo⟩
  | succ n ih =>
      cases xs with
      | nil => cases enough
      | cons a xs =>
          obtain ⟨front, rest⟩ := fifo.pop
          obtain ⟨taken, left⟩ := ih rest (Nat.le_of_succ_le_succ enough)
          constructor
          · show r.front :: _ = a :: _
            rw [front, taken]
          · exact left

theorem release (fifo : Fifo cap r xs) {n : Nat} (enough : n ≤ xs.length) : Fifo cap (r.release cap n) (xs.drop n) where
  size := by
    show r.size - n = _
    rw [fifo.size, List.length_drop]
    omega
  room := by
    show r.size - n ≤ cap
    have := fifo.room
    omega
  start := by
    have := fifo.start
    exact ⟨Int.emod_nonneg _ (by omega), Int.emod_lt_of_pos _ (by omega)⟩
  stop := by
    show r.writePos = ((r.readPos + n) % cap + (r.size - n)) % cap
    rw [fifo.stop, Int.emod_add_emod]
    congr 1
    omega
  held i h := by
    show r.buffer (((r.readPos + n) % cap + i) % cap) = _
    rw [List.length_drop] at h
    have there := fifo.held (n + i) (by omega)
    rw [Int.emod_add_emod, Int.add_assoc, List.getElem_drop, ← there, Int.natCast_add]

/-- A push leaves the elements that are held where they are. -/
theorem push_held (fifo : Fifo cap r xs) (space : r.size < cap) (a : α) {i : Nat} (h : i < xs.length) :
    (r.push cap a).buffer ((r.readPos + i) % cap) = r.buffer ((r.readPos + i) % cap) := by
  have size := fifo.size
  show Function.update r.buffer r.writePos a _ = _
  rw [fifo.stop, Function.update_of_ne (emod_ne (by omega) (by omega) (by omega))]

end Fifo

end RingBuffer

end Psplink.Lib
