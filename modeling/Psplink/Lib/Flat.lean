import Psplink.Lib.Packed

/-!
# A flat memory

Bytes at 32-bit addresses, with the values of packed types and the strings that stand in them. A region
is an address with a number of bytes; it may run over the end of the address space to its start.
-/

namespace Psplink.Lib

abbrev Addr := BitVec 32

abbrev Flat := Addr → UInt8

namespace Flat

/-! ## Regions -/

/-- How far an address lies behind another one. -/
def dist (a x : Addr) : Nat := (x - a).toNat

def In (a : Addr) (n : Nat) (x : Addr) : Prop := dist a x < n

instance (a : Addr) (n : Nat) (x : Addr) : Decidable (In a n x) := inferInstanceAs (Decidable (_ < _))

def Apart (a : Addr) (n : Nat) (b : Addr) (m : Nat) : Prop := ∀ x, In a n x → ¬ In b m x

theorem Apart.symm {a b : Addr} {n m : Nat} (apart : Apart a n b m) : Apart b m a n := fun x here there =>
  apart x there here

def offset (a : Addr) (i : Nat) : Addr := a + BitVec.ofNat 32 i

theorem dist_offset {a : Addr} {i : Nat} (small : i < 2 ^ 32) : dist a (offset a i) = i := by
  rw [dist, offset, BitVec.add_comm, BitVec.add_sub_cancel, BitVec.toNat_ofNat, Nat.mod_eq_of_lt small]

theorem offset_dist (a x : Addr) : offset a (dist a x) = x := by
  rw [offset, dist, BitVec.ofNat_toNat, BitVec.setWidth_eq, BitVec.add_comm, BitVec.sub_add_cancel]

theorem eq_offset_iff {a x : Addr} {i : Nat} (small : i < 2 ^ 32) : x = offset a i ↔ dist a x = i := by
  constructor
  · rintro rfl
    exact dist_offset small
  · intro there
    rw [← there, offset_dist]

theorem offset_offset (a : Addr) (i j : Nat) : offset (offset a i) j = offset a (i + j) := by
  rw [offset, offset, offset, BitVec.ofNat_add, BitVec.add_assoc]

theorem offset_succ (a : Addr) (i : Nat) : offset (a + 1) i = offset a (i + 1) := by
  rw [Nat.add_comm i, ← offset_offset]
  rfl

@[simp] theorem offset_zero (a : Addr) : offset a 0 = a := BitVec.add_zero a

theorem toNat_offset {a : Addr} {i : Nat} (fits : a.toNat + i < 2 ^ 32) : (offset a i).toNat = a.toNat + i := by
  rw [offset, BitVec.toNat_add, BitVec.toNat_ofNat]
  omega

theorem toNat_eq_dist (a x : Addr) : x.toNat = (a.toNat + dist a x) % 2 ^ 32 := by
  have small : dist a x < 2 ^ 32 := (x - a).isLt
  conv_lhs => rw [← offset_dist a x, offset, BitVec.toNat_add, BitVec.toNat_ofNat, Nat.mod_eq_of_lt small]

theorem in_self (x : Addr) : In x 1 x := by
  rw [In, dist, BitVec.sub_self]
  exact Nat.one_pos

theorem eq_of_in_one {a x : Addr} (inside : In a 1 x) : x = a := by
  have none : dist a x = 0 := Nat.lt_one_iff.mp inside
  rw [← offset_dist a x, none, offset_zero]

theorem apart_one {a x : Addr} {n : Nat} (outside : ¬ In a n x) : Apart a n x 1 := fun _ here there =>
  outside (eq_of_in_one there ▸ here)

theorem in_offset {a : Addr} {n i : Nat} (small : n ≤ 2 ^ 32) (inside : i < n) : In a n (offset a i) := by
  rw [In, dist_offset (Nat.lt_of_lt_of_le inside small)]
  exact inside

/-- A region that ends before the address space does is an interval. -/
theorem in_iff {a x : Addr} {n : Nat} (fits : a.toNat + n ≤ 2 ^ 32) :
    In a n x ↔ a.toNat ≤ x.toNat ∧ x.toNat < a.toNat + n := by
  have := x.isLt
  have := a.isLt
  rw [In, dist, BitVec.toNat_sub]
  omega

theorem apart_of_le {a b : Addr} {n m : Nat} (before : a.toNat + n ≤ b.toNat) (fits : b.toNat + m ≤ 2 ^ 32) :
    Apart a n b m := by
  intro x here there
  rw [in_iff (by omega)] at here
  rw [in_iff fits] at there
  omega

theorem in_of_offset {a x : Addr} {k m n : Nat} (fits : k + m ≤ n) (small : n ≤ 2 ^ 32) (inside : In (offset a k) m x) :
    In a n x := by
  have less : dist (offset a k) x < m := inside
  have there : x = offset a (k + dist (offset a k) x) := by rw [← offset_offset, offset_dist]
  rw [there]
  exact in_offset small (by omega)

/-- Regions behind one address. -/
theorem in_offset_iff {a x : Addr} {k m : Nat} (fits : k + m ≤ 2 ^ 32) :
    In (offset a k) m x ↔ k ≤ dist a x ∧ dist a x < k + m := by
  constructor
  · intro inside
    have less : dist (offset a k) x < m := inside
    have there : x = offset a (k + dist (offset a k) x) := by rw [← offset_offset, offset_dist]
    have far : dist a x = k + dist (offset a k) x := by
      conv_lhs => rw [there]
      exact dist_offset (by omega)
    omega
  · intro between
    have there : x = offset (offset a k) (dist a x - k) := by
      rw [offset_offset, Nat.add_sub_cancel' between.1, offset_dist]
    rw [there]
    exact in_offset (by omega) (by omega)

theorem Apart.shrink {a b : Addr} {n n' m m' : Nat} (apart : Apart a n b m) (left : n' ≤ n) (right : m' ≤ m) :
    Apart a n' b m' := fun x here there => apart x (Nat.lt_of_lt_of_le here left) (Nat.lt_of_lt_of_le there right)

theorem Apart.sub {a b : Addr} {k n n' j m m' : Nat} (apart : Apart a n b m) (left : k + n' ≤ n) (right : j + m' ≤ m)
    (small : n ≤ 2 ^ 32) (small' : m ≤ 2 ^ 32) : Apart (offset a k) n' (offset b j) m' := fun x here there =>
  apart x (in_of_offset left small here) (in_of_offset right small' there)

/-! ## Bytes -/

variable {mem mem' : Flat} {a b : Addr} {n m : Nat}

def bytesAt (mem : Flat) (a : Addr) (n : Nat) : Bytes := (List.range n).map fun i => mem (offset a i)

@[simp] theorem length_bytesAt (mem : Flat) (a : Addr) (n : Nat) : (bytesAt mem a n).length = n := by simp [bytesAt]

theorem bytesAt_succ (mem : Flat) (a : Addr) (n : Nat) : bytesAt mem a (n + 1) = mem a :: bytesAt mem (a + 1) n := by
  simp only [bytesAt, List.range_succ_eq_map, List.map_cons, List.map_map, offset_zero, Function.comp_def, offset_succ]

theorem getD_bytesAt {i : Nat} (inside : i < n) (fill : UInt8) : (bytesAt mem a n).getD i fill = mem (offset a i) := by
  rw [List.getD_eq_getElem?_getD, List.getElem?_eq_getElem (by rwa [length_bytesAt])]
  simp [bytesAt]

theorem take_bytesAt {k : Nat} (le : k ≤ n) : (bytesAt mem a n).take k = bytesAt mem a k := by
  rw [bytesAt, ← List.map_take, List.take_range, Nat.min_eq_left le]
  rfl

theorem drop_bytesAt (mem : Flat) (a : Addr) (n k : Nat) :
    (bytesAt mem a n).drop k = bytesAt mem (offset a k) (n - k) := by
  refine List.ext_getElem (by simp) fun i here there => ?_
  simp [bytesAt, offset_offset]

/-- The bytes are put there. -/
def store (mem : Flat) (a : Addr) (bs : Bytes) : Flat := fun x => bs.getD (dist a x) (mem x)

/-- `memset` with zero. -/
def clear (mem : Flat) (a : Addr) (n : Nat) : Flat := fun x => if In a n x then 0 else mem x

def Agree (mem mem' : Flat) (a : Addr) (n : Nat) : Prop := ∀ x, In a n x → mem x = mem' x

theorem Agree.symm (agree : Agree mem mem' a n) : Agree mem' mem a n := fun x inside => (agree x inside).symm

theorem Agree.trans {mem'' : Flat} (first : Agree mem mem' a n) (second : Agree mem' mem'' a n) :
    Agree mem mem'' a n := fun x inside => (first x inside).trans (second x inside)

theorem bytesAt_congr (small : n ≤ 2 ^ 32) (agree : Agree mem mem' a n) : bytesAt mem a n = bytesAt mem' a n :=
  List.map_congr_left fun _ inside => agree _ (in_offset small (List.mem_range.mp inside))

theorem store_outside {bs : Bytes} {x : Addr} (outside : ¬ In a bs.length x) : store mem a bs x = mem x := by
  rw [store, List.getD_eq_getElem?_getD, List.getElem?_eq_none (not_lt.mp outside)]
  rfl

theorem store_congr {bs : Bytes} {x : Addr} (inside : In a bs.length x) : store mem a bs x = store mem' a bs x := by
  unfold store
  rw [List.getD_eq_getElem?_getD, List.getD_eq_getElem?_getD, List.getElem?_eq_getElem inside]
  rfl

theorem store_one (mem : Flat) (a x : Addr) (v : UInt8) : store mem a [v] x = if x = a then v else mem x := by
  by_cases here : x = a
  · subst here
    rw [if_pos rfl, store, dist, BitVec.sub_self]
    rfl
  · rw [if_neg here, store_outside fun inside => here (eq_of_in_one inside)]

theorem store_append {bs cs : Bytes} (small : bs.length + cs.length ≤ 2 ^ 32) :
    store mem a (bs ++ cs) = store (store mem a bs) (offset a bs.length) cs := by
  funext x
  unfold store
  simp only [List.getD_eq_getElem?_getD]
  by_cases first : dist a x < bs.length
  · have outside : ¬ dist (offset a bs.length) x < cs.length := fun there =>
      absurd first (Nat.not_lt.mpr ((in_offset_iff small).mp there).1)
    rw [List.getElem?_append_left first, List.getElem?_eq_none (not_lt.mp outside)]
    rfl
  · have there : x = offset (offset a bs.length) (dist a x - bs.length) := by
      rw [offset_offset, Nat.add_sub_cancel' (not_lt.mp first), offset_dist]
    have far : dist (offset a bs.length) x = dist a x - bs.length := by
      conv_lhs => rw [there]
      exact dist_offset (Nat.lt_of_le_of_lt (Nat.sub_le _ _) (x - a).isLt)
    rw [List.getElem?_append_right (not_lt.mp first), far, List.getElem?_eq_none (not_lt.mp first)]
    rfl

theorem clear_outside {x : Addr} (outside : ¬ In a n x) : clear mem a n x = mem x := if_neg outside

theorem clear_inside {x : Addr} (inside : In a n x) : clear mem a n x = 0 := if_pos inside

theorem store_agree {bs : Bytes} (apart : Apart a bs.length b m) : Agree (store mem a bs) mem b m := fun _ inside =>
  store_outside fun here => apart _ here inside

theorem clear_agree (apart : Apart a n b m) : Agree (clear mem a n) mem b m := fun _ inside =>
  clear_outside fun here => apart _ here inside

theorem bytesAt_store (mem : Flat) (a : Addr) {bs : Bytes} (small : bs.length ≤ 2 ^ 32) :
    bytesAt (store mem a bs) a bs.length = bs := by
  refine List.ext_getElem (length_bytesAt _ _ _) fun i here there => ?_
  simp only [bytesAt, List.getElem_map, List.getElem_range, store]
  rw [dist_offset (Nat.lt_of_lt_of_le there small), List.getD_eq_getElem?_getD, List.getElem?_eq_getElem there]
  rfl

theorem bytesAt_clear (mem : Flat) (a : Addr) {k : Nat} (inside : k ≤ n) (small : n ≤ 2 ^ 32) :
    bytesAt (clear mem a n) a k = List.replicate k 0 := by
  refine List.ext_getElem (by simp) fun i here there => ?_
  rw [length_bytesAt] at here
  simp only [bytesAt, List.getElem_map, List.getElem_range, List.getElem_replicate]
  exact clear_inside (in_offset small (Nat.lt_of_lt_of_le here inside))

/-! ## Loops that fill a region

Each step fills the next `width` bytes; `K` is what it needs of the rest of the memory. -/

theorem dist_offset_sub {a x : Addr} {k : Nat} (le : k ≤ dist a x) : dist (offset a k) x = dist a x - k := by
  have there : x = offset (offset a k) (dist a x - k) := by rw [offset_offset, Nat.add_sub_cancel' le, offset_dist]
  conv_lhs => rw [there]
  exact dist_offset (Nat.lt_of_le_of_lt (Nat.sub_le _ _) (x - a).isLt)

theorem foldl_fill {width n : Nat} {K : Flat → Prop} {step : Flat → Nat → Flat} {v : Nat → Nat → UInt8}
    (fits : width * n ≤ 2 ^ 32) (start : K mem)
    (each : ∀ i < n, ∀ m, K m → K (step m i) ∧ ∀ x, step m i x =
      if In (offset a (width * i)) width x then v i (dist (offset a (width * i)) x) else m x) :
    K ((List.range n).foldl step mem) ∧ ∀ x, (List.range n).foldl step mem x =
      if In a (width * n) x then v (dist a x / width) (dist a x % width) else mem x := by
  induction n with
  | zero =>
      refine ⟨start, ?_⟩
      intro x
      exact (if_neg (Nat.not_lt_zero _)).symm
  | succ n ih =>
      rw [Nat.mul_succ] at fits
      obtain ⟨keeps, before⟩ := ih (by omega) fun i bound => each i (Nat.lt_succ_of_lt bound)
      rw [List.range_succ, List.foldl_append, List.foldl_cons, List.foldl_nil]
      obtain ⟨keeps, here⟩ := each n (Nat.lt_succ_self n) _ keeps
      refine ⟨keeps, ?_⟩
      intro x
      rw [here, before]
      have last := in_offset_iff (a := a) (x := x) fits
      by_cases inside : In (offset a (width * n)) width x
      · obtain ⟨le, lt⟩ := last.mp inside
        have far : dist (offset a (width * n)) x < width := inside
        rw [dist_offset_sub le] at far
        have whole : dist a x = width * n + (dist a x - width * n) := by omega
        have quotient : dist a x / width = n := by
          rw [whole, Nat.mul_add_div (by omega), Nat.div_eq_of_lt far, Nat.add_zero]
        have remainder : dist a x % width = dist a x - width * n := by
          conv_lhs => rw [whole, Nat.mul_add_mod, Nat.mod_eq_of_lt far]
        rw [if_pos inside, if_pos (show In a (width * (n + 1)) x from by rw [In, Nat.mul_succ]; omega), quotient, remainder,
          dist_offset_sub le]
      · rw [if_neg inside]
        have same : In a (width * (n + 1)) x ↔ In a (width * n) x := by
          rw [In, In, Nat.mul_succ]
          rw [last] at inside
          omega
        exact if_congr same.symm rfl rfl

/-! ## Values -/

variable {α : Type} [Packed α]

def load (α : Type) [Packed α] (mem : Flat) (a : Addr) : α := decode (bytesAt mem a (sizeof α))

def save (mem : Flat) (a : Addr) (value : α) : Flat := store mem a (encode value)

theorem load_congr (small : sizeof α ≤ 2 ^ 32) (agree : Agree mem mem' a (sizeof α)) :
    load α mem a = load α mem' a := by
  rw [load, load, bytesAt_congr small agree]

theorem bytesAt_save (small : sizeof α ≤ 2 ^ 32) (mem : Flat) (a : Addr) (value : α) :
    bytesAt (save mem a value) a (sizeof α) = encode value := by
  have same := @bytesAt_store mem a (encode value) (by rw [Packed.length_encode]; exact small)
  rwa [Packed.length_encode] at same

theorem load_save (small : sizeof α ≤ 2 ^ 32) (mem : Flat) (a : Addr) (value : α) :
    load α (save mem a value) a = value := by
  rw [load, bytesAt_save small, Packed.decode_encode_self]

theorem save_outside {value : α} {x : Addr} (outside : ¬ In a (sizeof α) x) : save mem a value x = mem x :=
  store_outside (by rwa [Packed.length_encode])

theorem save_load (mem : Flat) (a : Addr) : save mem a (load (BitVec 32) mem a) = mem := by
  funext x
  have same : encode (load (BitVec 32) mem a) = bytesAt mem a 4 := Packed.encode_decode_word (length_bytesAt mem a 4)
  rw [save, same]
  by_cases inside : In a 4 x
  · have here := @getD_bytesAt mem a 4 (dist a x) inside (mem x)
    rwa [offset_dist] at here
  · exact store_outside (by rwa [length_bytesAt])

theorem save_agree {value : α} (apart : Apart a (sizeof α) b m) : Agree (save mem a value) mem b m := fun _ inside =>
  save_outside fun here => apart _ here inside

/-! ## Strings -/

/-- The bytes up to a NUL, so many at most. -/
def cstrFrom (mem : Flat) : Nat → Addr → Bytes
  | 0, _ => []
  | room + 1, a => if mem a = 0 then [] else mem a :: cstrFrom mem room (a + 1)

/-- The string that starts there. -/
def cstrAt (mem : Flat) (a : Addr) : Bytes := cstrFrom mem (2 ^ 32) a

theorem cstrFrom_congr {k : Nat} (ends : mem (offset a k) = 0) (agree : ∀ i ≤ k, mem (offset a i) = mem' (offset a i))
    (room : Nat) : cstrFrom mem room a = cstrFrom mem' room a := by
  induction room generalizing a k with
  | zero => rfl
  | succ room ih =>
      have here := agree 0 (Nat.zero_le k)
      rw [offset_zero] at here
      rw [cstrFrom, cstrFrom, ← here]
      by_cases nul : mem a = 0
      · rw [if_pos nul, if_pos nul]
      · rw [if_neg nul, if_neg nul]
        cases k with
        | zero => exact absurd (offset_zero a ▸ ends) nul
        | succ k =>
            have ends' : mem (offset (a + 1) k) = 0 := by rwa [offset_succ]
            exact congrArg (mem a :: ·) (ih ends' fun i le => by
              rw [offset_succ]
              exact agree _ (Nat.succ_le_succ le))

/-- A string depends on its bytes up to a NUL. -/
theorem cstrAt_congr {k : Nat} (ends : mem (offset a k) = 0)
    (agree : ∀ i ≤ k, mem (offset a i) = mem' (offset a i)) : cstrAt mem a = cstrAt mem' a :=
  cstrFrom_congr ends agree _

end Flat

end Psplink.Lib
