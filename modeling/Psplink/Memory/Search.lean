import Psplink.Address.Evaluation
import Psplink.Memory.Regions
import Psplink.Shell.Delivery

/-!
# Searching memory

`findstr_cmd`, `findw_cmd`, `findh_cmd` and `findhex_cmd` of psplink/shell.c, and the comparison under a mask of
psplink/util.c.
-/

namespace Psplink.Memory
open Psplink.Lib Psplink.Lib.Flat Psplink.Util Psplink.Address

/-! ## The code -/

/-- `memcmp_mask`, whether it finds no difference, from one byte on under a mask. -/
def maskedFrom (mem : Flat) : Addr → Bytes → Bytes → Bool × List Addr
  | _, _, [] => (true, [])
  | data1, mask, d2 :: data2 =>
      if mem data1 &&& mask.headD 0 ≠ d2 then (false, [data1])
      else
        let (same, reads) := maskedFrom mem (data1 + 1) mask.tail data2
        (same, data1 :: reads)

/-- `memcmp_mask`, and the addresses that it reads; `memcmp` may read all of them. -/
def memcmpMask (mem : Flat) (data1 : Addr) (data2 : Bytes) (mask : Option Bytes) : Bool × List Addr :=
  match mask with
  | none => (bytesAt mem data1 data2.length = data2, (List.range data2.length).map (offset data1))
  | some mask => maskedFrom mem data1 mask data2

section Loops

variable (mem : Flat) (mask : Option Bytes) (search : Bytes)

def memmemFrom : Nat → Addr → Option Addr × List Addr
  | 0, _ => (none, [])
  | turns + 1, data =>
      let (same, reads) := memcmpMask mem data search mask
      if same then (some data, reads)
      else
        let (found, more) := memmemFrom turns (data + 1)
        (found, reads ++ more)

def memmemMask (data : Addr) (len : Int) : Option Addr × List Addr :=
  if data = 0 ∨ len < 0 then (none, []) else memmemFrom mem mask search (len - search.length + 1).toNat data

/-- The loop of the commands: what they report and what they read. -/
def findAll : Nat → Addr → Word → Option (List Addr × List Addr)
  | 0, _, _ => none
  | fuel + 1, curr, size =>
      match memmemMask mem mask search curr size.toInt with
      | (none, reads) => some ([], reads)
      | (some found, reads) =>
          let next := found + 1
          let size := size - (next - curr)
          if next ≠ 0 ∧ size ≠ 0 then
            (findAll fuel next size).map fun (more, reads') => (found :: more, reads ++ reads')
          else some ([found], reads)

end Loops

def strtoint (str : Bytes) : Option Word :=
  if (Strtoul.strtoul 0 str).2 = [] then some (Strtoul.strtoul 0 str).1 else none

def hexPairs : Bytes → Option Bytes
  | a :: b :: str =>
      if isHex a ∧ isHex b then
        (hexPairs str).map fun data => ((hexToInt a).getD 0 <<< 4 ||| (hexToInt b).getD 0) :: data
      else none
  | _ => some []

/-- `decode_hexstr`; empty where it fails. -/
def decodeHexstr (str : Bytes) (max : Nat) : Bytes :=
  if str.length % 2 ≠ 0 then []
  else if max < str.length / 2 then []
  else (hexPairs str).getD []

structure Found where
  ret : Int
  reported : List Addr
  reads : List Addr

def arg (argv : List CStr) (i : Nat) : CStr := argv.getD i .empty

abbrev Pattern := Option Bytes × Bytes

/-- What the four commands do with the pattern of theirs; without a result where the loop does not end. -/
def findCmd (pattern : List CStr → Option Pattern) (env : Env) (argv : List CStr) : Option Found :=
  match memDecode env (arg argv 0), memDecode env (arg argv 1) with
  | some addr, some size =>
      match pattern argv with
      | none => some ⟨Shell.cmdError, [], []⟩
      | some (mask, search) =>
          let sizeLeft := BitVec.ofNat 32 (env.memValidate addr (memAttribRead ||| memAttribByte))
          let size := if sizeLeft > size then size else sizeLeft
          (findAll env.mem mask search (size.toNat + 1) addr size).map fun (reported, reads) =>
            ⟨Shell.cmdOk, reported, reads⟩
  | _, _ => some ⟨Shell.cmdOk, [], []⟩

def strPattern (argv : List CStr) : Option Pattern := some (none, (arg argv 2).text)

/-- So many bytes of each value, the least significant first. -/
def valuePattern (width : Nat) (argv : List CStr) : Option Pattern :=
  ((argv.drop 2).mapM fun arg => strtoint arg.text).map fun values =>
    (none, values.flatMap fun val => (Packed.encode val).take width)

def hexPattern (argv : List CStr) : Option Pattern :=
  let hex := decodeHexstr (arg argv 2).text 128
  if hex = [] then none
  else if 3 < argv.length then
    let mask := decodeHexstr (arg argv 3).text 128
    if mask = [] then none
    else if mask.length ≠ hex.length then none
    else some (some mask, hex)
  else some (none, hex)

def findstrCmd : Env → List CStr → Option Found := findCmd strPattern
def findwCmd : Env → List CStr → Option Found := findCmd (valuePattern 4)
def findhCmd : Env → List CStr → Option Found := findCmd (valuePattern 2)
def findhexCmd : Env → List CStr → Option Found := findCmd hexPattern

/-! ## Occurrences -/

/-- What stands there, under the mask. -/
def maskedAt (mem : Flat) (mask : Option Bytes) (a : Addr) (n : Nat) : Bytes :=
  match mask with
  | none => bytesAt mem a n
  | some mask => (bytesAt mem a n).zipWith (· &&& ·) mask

def Matches (mem : Flat) (mask : Option Bytes) (search : Bytes) (a : Addr) : Prop :=
  maskedAt mem mask a search.length = search

instance (mem : Flat) (mask : Option Bytes) (search : Bytes) (a : Addr) : Decidable (Matches mem mask search a) :=
  inferInstanceAs (Decidable (_ = _))

/-- Wholly within so many bytes the masked memory is the pattern there. -/
def Occurs (mem : Flat) (mask : Option Bytes) (search : Bytes) (addr : Addr) (n : Nat) (x : Addr) : Prop :=
  ∃ i, i + search.length ≤ n ∧ x = offset addr i ∧ Matches mem mask search x

/-! ## One comparison -/

section Compare

variable {mem : Flat} {mask : Option Bytes} {search : Bytes} {a : Addr}

theorem in_next {n : Nat} {x : Addr} (small : n < 2 ^ 32) (inside : In (a + 1) n x) : In a (n + 1) x :=
  in_of_offset (k := 1) (by omega) (by omega) inside

theorem maskedFrom_spec {mask : Bytes} (equal : mask.length = search.length) (small : search.length < 2 ^ 32) :
    ((maskedFrom mem a mask search).1 = true ↔ (bytesAt mem a search.length).zipWith (· &&& ·) mask = search) ∧
      ∀ x ∈ (maskedFrom mem a mask search).2, In a search.length x := by
  induction search generalizing a mask with
  | nil =>
      obtain rfl := List.length_eq_zero_iff.mp equal
      exact ⟨iff_of_true rfl rfl, fun x mem => absurd mem List.not_mem_nil⟩
  | cons d2 search ih =>
      cases mask with
      | nil => cases equal
      | cons m mask =>
          rw [List.length_cons] at small
          obtain ⟨same, reads⟩ := ih (Nat.succ.inj equal) (by omega)
          have here : In a (search.length + 1) a := by
            have first := in_offset (a := a) small.le (Nat.succ_pos search.length)
            rwa [offset_zero] at first
          unfold maskedFrom
          rw [List.length_cons, bytesAt_succ, List.zipWith_cons_cons, List.cons.injEq, List.headD_cons, List.tail_cons]
          by_cases differ : mem a &&& m = d2
          · rw [if_neg (not_not.mpr differ)]
            refine ⟨same.trans (and_iff_right differ).symm, fun x read => ?_⟩
            rcases List.mem_cons.mp read with rfl | read
            · exact here
            · exact in_next (by omega) (reads x read)
          · rw [if_pos differ]
            refine ⟨iff_of_false Bool.false_ne_true fun both => differ both.1, fun x read => ?_⟩
            rw [List.mem_singleton.mp read]
            exact here

theorem memcmpMask_spec (equal : ∀ m, mask = some m → m.length = search.length) (small : search.length < 2 ^ 32) :
    ((memcmpMask mem a search mask).1 = true ↔ Matches mem mask search a) ∧
      ∀ x ∈ (memcmpMask mem a search mask).2, In a search.length x := by
  cases mask with
  | none =>
      refine ⟨decide_eq_true_iff, fun x read => ?_⟩
      obtain ⟨i, less, rfl⟩ := List.mem_map.mp read
      exact in_offset small.le (List.mem_range.mp less)
  | some mask => exact maskedFrom_spec (equal mask rfl) small

theorem memmemFrom_spec (equal : ∀ m, mask = some m → m.length = search.length) (some_ : 0 < search.length)
    {turns : Nat} (small : turns + search.length < 2 ^ 32) :
    (memmemFrom mem mask search turns a).1 =
        ((List.range turns).find? fun i => Matches mem mask search (offset a i)).map (offset a) ∧
      ∀ x ∈ (memmemFrom mem mask search turns a).2, In a (turns + search.length - 1) x := by
  induction turns generalizing a with
  | zero => exact ⟨rfl, fun x read => absurd read List.not_mem_nil⟩
  | succ turns ih =>
      obtain ⟨same, reads⟩ := @memcmpMask_spec mem mask search a equal (by omega)
      obtain ⟨found, more⟩ := ih (a := a + 1) (by omega)
      have first (x : Addr) (read : x ∈ (memcmpMask mem a search mask).2) :
          In a (turns + 1 + search.length - 1) x := Nat.lt_of_lt_of_le (reads x read) (by omega)
      rw [List.range_succ_eq_map, List.find?_cons, List.find?_map, offset_zero]
      unfold memmemFrom
      dsimp only
      by_cases here : Matches mem mask search a
      · rw [if_pos (same.mpr here), decide_eq_true here]
        exact ⟨congrArg some (offset_zero a).symm, first⟩
      · rw [if_neg fun holds => here (same.mp holds), decide_eq_false here]
        refine ⟨?_, fun x read => ?_⟩
        · have shift : offset (a + 1) = fun i => offset a (i + 1) := funext (offset_succ a)
          rw [found, Option.map_map, shift]
          rfl
        · rcases List.mem_append.mp read with read | read
          · exact first x read
          · exact Nat.lt_of_lt_of_le (in_next (by omega) (more x read)) (by omega)

end Compare

/-! ## The loop -/

/-- The matches at the first addresses from one on. -/
def matchesIn (mem : Flat) (mask : Option Bytes) (search : Bytes) (a : Addr) (turns : Nat) : List Addr :=
  ((List.range turns).filter fun i => Matches mem mask search (offset a i)).map (offset a)

section Loop

variable {mem : Flat} {mask : Option Bytes} {search : Bytes}

theorem matchesIn_none {a : Addr} {turns : Nat}
    (none_ : ((List.range turns).find? fun i => Matches mem mask search (offset a i)) = none) :
    matchesIn mem mask search a turns = [] := by
  rw [matchesIn, List.filter_eq_nil_iff.mpr (List.find?_eq_none.mp none_)]
  rfl

/-- The first match, and the matches behind it. -/
theorem matchesIn_some {a : Addr} {turns j : Nat}
    (first : ((List.range turns).find? fun i => Matches mem mask search (offset a i)) = some j) :
    matchesIn mem mask search a turns = offset a j :: matchesIn mem mask search (offset a (j + 1)) (turns - (j + 1)) := by
  obtain ⟨here, less, before⟩ := List.find?_range_eq_some.mp first
  have within : j < turns := List.mem_range.mp less
  have split : List.range turns = List.range j ++ j :: (List.range (turns - (j + 1))).map (j + 1 + ·) := by
    have sum : turns = j + 1 + (turns - (j + 1)) := by omega
    conv_lhs => rw [sum, List.range_add, List.range_succ, List.append_assoc, List.singleton_append]
  have skipped : (List.range j).filter (fun i => Matches mem mask search (offset a i)) = [] :=
    List.filter_eq_nil_iff.mpr fun i below => by simpa using before i (List.mem_range.mp below)
  rw [matchesIn, matchesIn, split, List.filter_append, skipped, List.nil_append, List.filter_cons, if_pos here,
    List.map_cons, List.filter_map, List.map_map]
  have shift : offset (offset a (j + 1)) = fun i => offset a (j + 1 + i) := funext (offset_offset a (j + 1))
  rw [shift]
  rfl

theorem memmemMask_spec (equal : ∀ m, mask = some m → m.length = search.length) (some_ : 0 < search.length)
    {a : Addr} {size : Nat} (small : size < 2 ^ 31) (short : search.length < 2 ^ 31) (noNull : 0 < size → a ≠ 0) :
    (memmemMask mem mask search a size).1 =
        ((List.range (size + 1 - search.length)).find? fun i => Matches mem mask search (offset a i)).map (offset a) ∧
      ∀ x ∈ (memmemMask mem mask search a size).2, In a size x := by
  have turns : ((size : Int) - search.length + 1).toNat = size + 1 - search.length := by omega
  by_cases fits : search.length ≤ size
  · have looks : ¬ (a = 0 ∨ (size : Int) < 0) := not_or.mpr ⟨noNull (by omega), by omega⟩
    obtain ⟨found, reads⟩ := @memmemFrom_spec mem mask search a equal some_
      (size + 1 - search.length) (by omega)
    rw [memmemMask, if_neg looks, turns]
    exact ⟨found, fun x read => Nat.lt_of_lt_of_le (reads x read) (by omega)⟩
  · have none_ : size + 1 - search.length = 0 := by omega
    rw [memmemMask, turns, none_]
    by_cases stops : a = 0 ∨ (size : Int) < 0
    · rw [if_pos stops]
      exact ⟨rfl, fun x read => absurd read List.not_mem_nil⟩
    · rw [if_neg stops]
      exact ⟨rfl, fun x read => absurd read List.not_mem_nil⟩

/-- How far behind `a` the loop goes on, and how much is left there. -/
theorem behind_eq {a : Addr} {size : Word} {k : Nat} (inside : k ≤ size.toNat) :
    offset a k - a = BitVec.ofNat 32 k ∧ (size - BitVec.ofNat 32 k).toNat = size.toNat - k := by
  have less : k < 2 ^ 32 := Nat.lt_of_le_of_lt inside size.isLt
  constructor
  · refine BitVec.eq_of_toNat_eq ?_
    have far : (offset a k - a).toNat = k := dist_offset less
    rw [far, BitVec.toNat_ofNat, Nat.mod_eq_of_lt less]
  · rw [BitVec.toNat_sub, BitVec.toNat_ofNat]
    omega

theorem again_iff {a : Addr} {size : Word} {k : Nat} (inside : k ≤ size.toNat)
    (noNull : ∀ i < size.toNat, offset a i ≠ 0) :
    offset a k ≠ 0 ∧ size - BitVec.ofNat 32 k ≠ 0 ↔ k < size.toNat := by
  obtain ⟨-, left⟩ := @behind_eq a size k inside
  constructor
  · rintro ⟨-, some_⟩
    have positive : (size - BitVec.ofNat 32 k).toNat ≠ 0 := fun zero => some_ (BitVec.eq_of_toNat_eq zero)
    omega
  · refine fun less => ⟨noNull k less, fun zero => ?_⟩
    rw [zero] at left
    change 0 = size.toNat - k at left
    omega

/-- The loop reports each match once, in ascending order, and reads nothing else. -/
theorem findAll_spec (equal : ∀ m, mask = some m → m.length = search.length) (some_ : 0 < search.length)
    (short : search.length < 2 ^ 31) {fuel : Nat} {a : Addr} {size : Word} (fuelled : size.toNat < fuel)
    (small : size.toNat < 2 ^ 31) (noNull : ∀ i < size.toNat, offset a i ≠ 0) :
    ∃ reads, findAll mem mask search fuel a size =
        some (matchesIn mem mask search a (size.toNat + 1 - search.length), reads) ∧
      ∀ x ∈ reads, In a size.toNat x := by
  induction fuel generalizing a size with
  | zero => omega
  | succ fuel ih =>
      have signed : size.toInt = size.toNat := BitVec.toInt_eq_toNat_of_lt (by omega)
      obtain ⟨found, within⟩ := @memmemMask_spec mem mask search equal some_ a size.toNat small short fun positive => by
        simpa only [offset_zero] using noNull 0 positive
      unfold findAll
      rw [signed]
      generalize memmemMask mem mask search a size.toNat = looked at found within
      obtain ⟨at_, reads⟩ := looked
      cases first : (List.range (size.toNat + 1 - search.length)).find? fun i => Matches mem mask search (offset a i) with
      | none =>
          rw [first] at found
          obtain rfl : at_ = none := found
          exact ⟨reads, by rw [matchesIn_none first], within⟩
      | some j =>
          rw [first] at found
          obtain rfl : at_ = some (offset a j) := found
          have less : j < size.toNat + 1 - search.length :=
            List.mem_range.mp (List.find?_range_eq_some.mp first).2.1
          have next : offset a j + 1 = offset a (j + 1) := (offset_offset a j 1).symm ▸ rfl
          obtain ⟨moved, left⟩ := @behind_eq a size (j + 1) (by omega)
          dsimp only
          rw [next, moved, matchesIn_some first]
          by_cases again : j + 1 < size.toNat
          · rw [if_pos ((again_iff (by omega) noNull).mpr again)]
            obtain ⟨reads', rest, within'⟩ := @ih (offset a (j + 1)) (size - BitVec.ofNat 32 (j + 1)) (by omega) (by omega)
              fun i below => by
                rw [offset_offset]
                exact noNull _ (by omega)
            refine ⟨reads ++ reads', ?_, fun x read => ?_⟩
            · rw [rest, left]
              have turns : size.toNat - (j + 1) + 1 - search.length = size.toNat + 1 - search.length - (j + 1) := by omega
              rw [turns]
              rfl
            · rcases List.mem_append.mp read with read | read
              · exact within x read
              · exact in_of_offset (by omega) (by omega) (left ▸ within' x read)
          · -- a match on the last byte: the loop is over, and so is the range
            rw [if_neg (mt (again_iff (by omega) noNull).mp again)]
            have over_ : size.toNat + 1 - search.length - (j + 1) = 0 := by omega
            exact ⟨reads, by rw [over_]; rfl, within⟩

theorem mem_matchesIn {a x : Addr} {n : Nat} :
    x ∈ matchesIn mem mask search a (n + 1 - search.length) ↔ Occurs mem mask search a n x := by
  rw [matchesIn, List.mem_map]
  constructor
  · rintro ⟨i, found, rfl⟩
    obtain ⟨less, here⟩ := List.mem_filter.mp found
    have below := List.mem_range.mp less
    exact ⟨i, by omega, rfl, of_decide_eq_true here⟩
  · rintro ⟨i, fits, rfl, here⟩
    exact ⟨i, List.mem_filter.mpr ⟨List.mem_range.mpr (by omega), decide_eq_true here⟩, rfl⟩

theorem ascending_matchesIn {a : Addr} {turns : Nat} (fits : a.toNat + turns ≤ 2 ^ 32) :
    (matchesIn mem mask search a turns).Pairwise (· < ·) := by
  refine List.pairwise_map.mpr (List.Pairwise.imp_of_mem ?_ (List.Pairwise.filter _ List.pairwise_lt_range))
  intro i j memI memJ less
  have here := List.mem_range.mp (List.mem_filter.mp memI).1
  have there := List.mem_range.mp (List.mem_filter.mp memJ).1
  rw [BitVec.lt_def, toNat_offset (by omega), toNat_offset (by omega)]
  omega

end Loop

/-! ## The commands -/

inductive Finder where
  | findstr | findw | findh | findhex

namespace Finder

def cmd : Finder → Env → List CStr → Option Found
  | findstr => findstrCmd
  | findw => findwCmd
  | findh => findhCmd
  | findhex => findhexCmd

def pattern : Finder → List CStr → Option Pattern
  | findstr => strPattern
  | findw => valuePattern 4
  | findh => valuePattern 2
  | findhex => hexPattern

theorem cmd_eq (finder : Finder) : finder.cmd = findCmd finder.pattern := by
  cases finder
  all_goals rfl

theorem length_mask {finder : Finder} {argv : List CStr} {mask : Option Bytes} {search : Bytes}
    (given : finder.pattern argv = some (mask, search)) : ∀ m, mask = some m → m.length = search.length := by
  have values {width : Nat} (given : valuePattern width argv = some (mask, search)) : mask = none := by
    obtain ⟨values, -, same⟩ := Option.map_eq_some_iff.mp given
    exact (congrArg Prod.fst same).symm
  intro m masked
  cases finder with
  | findstr =>
      obtain rfl : none = mask := congrArg Prod.fst (Option.some.inj given)
      cases masked
  | findw => exact absurd (masked.symm.trans (values given)) (Option.some_ne_none m)
  | findh => exact absurd (masked.symm.trans (values given)) (Option.some_ne_none m)
  | findhex =>
      unfold pattern hexPattern at given
      dsimp only at given
      split_ifs at given with missing more maskMissing differ
      · obtain ⟨rfl, rfl⟩ := Prod.mk.inj (Option.some.inj given)
        obtain rfl := Option.some.inj masked
        exact not_not.mp differ
      · obtain ⟨rfl, -⟩ := Prod.mk.inj (Option.some.inj given)
        cases masked

end Finder

/-- The range is the memory that is left from the address on, so many bytes at most. -/
def searched (env : Env) (addr size : Word) : Nat :=
  min size.toNat (env.memValidate addr (memAttribRead ||| memAttribByte))

theorem searched_fits {env : Env} {addr size : Word}
    (validated : env.protoff = false ∨ ∃ entry ∈ memareas, Contains entry addr) :
    addr.toNat + searched env addr size ≤ 2 ^ 32 ∧ ∀ i < searched env addr size, offset addr i ≠ 0 := by
  by_cases covered : ∃ entry ∈ memareas, Contains entry addr
  · obtain ⟨entry, mem, inside⟩ := covered
    obtain ⟨positive, fits⟩ := @validated_fits env addr (memAttribRead ||| memAttribByte) entry mem inside
    have clipped := Nat.min_le_right size.toNat (env.memValidate addr (memAttribRead ||| memAttribByte))
    refine ⟨by rw [searched]; omega, fun i below null => ?_⟩
    rw [searched] at below
    have there := congrArg BitVec.toNat null
    rw [toNat_offset (by omega)] at there
    change addr.toNat + i = 0 at there
    omega
  · have outside : env.memValidate addr (memAttribRead ||| memAttribByte) = 0 := by
      by_contra some_
      obtain ⟨entry, mem, -, inside, -⟩ := covered_of_validated (validated.resolve_right covered) (Nat.pos_of_ne_zero some_)
      exact covered ⟨entry, mem, inside⟩
    rw [searched, outside, Nat.min_zero]
    exact ⟨addr.isLt.le, fun i below => absurd below (Nat.not_lt_zero i)⟩

theorem find_reports (finder : Finder) {env : Env} {argv : List CStr} {addr size : Word} {mask : Option Bytes}
    {search : Bytes} (start : memDecode env (arg argv 0) = some addr) (count : memDecode env (arg argv 1) = some size)
    (given : finder.pattern argv = some (mask, search)) (some_ : search ≠ []) (short : search.length ≤ 128)
    (validated : env.protoff = false ∨ ∃ entry ∈ memareas, Contains entry addr) :
    ∃ found, finder.cmd env argv = some found ∧ found.ret = Shell.cmdOk ∧
      (∀ x, x ∈ found.reported ↔ Occurs env.mem mask search addr (searched env addr size) x) ∧
      found.reported.Pairwise (· < ·) ∧ ∀ x ∈ found.reads, In addr (searched env addr size) x := by
  have small := memValidate_small env addr (memAttribRead ||| memAttribByte)
  have positive : 0 < search.length := List.length_pos_iff.mpr some_
  obtain ⟨fits, noNull⟩ := @searched_fits env addr size validated
  have left : (BitVec.ofNat 32 (env.memValidate addr (memAttribRead ||| memAttribByte))).toNat =
      env.memValidate addr (memAttribRead ||| memAttribByte) := by
    rw [BitVec.toNat_ofNat, Nat.mod_eq_of_lt (by omega)]
  generalize clipped : (if BitVec.ofNat 32 (env.memValidate addr (memAttribRead ||| memAttribByte)) > size then size
    else BitVec.ofNat 32 (env.memValidate addr (memAttribRead ||| memAttribByte))) = size'
  have range : size'.toNat = searched env addr size := by
    rw [← clipped, searched]
    by_cases more : BitVec.ofNat 32 (env.memValidate addr (memAttribRead ||| memAttribByte)) > size
    · rw [if_pos more]
      have less := BitVec.lt_def.mp more
      omega
    · rw [if_neg more, left]
      have le := mt BitVec.lt_def.mpr more
      omega
  have short' : size'.toNat < 2 ^ 31 := by
    rw [range]
    exact Nat.lt_of_le_of_lt (Nat.min_le_right _ _) small
  rw [← range] at fits noNull
  obtain ⟨reads, reported, within⟩ := @findAll_spec env.mem mask search (Finder.length_mask given) positive
    (by omega) (size'.toNat + 1) addr size' (Nat.lt_succ_self size'.toNat) short' noNull
  refine ⟨⟨Shell.cmdOk, matchesIn env.mem mask search addr (size'.toNat + 1 - search.length), reads⟩, ?_, rfl,
    fun x => ?_, ?_, ?_⟩
  · rw [Finder.cmd_eq, findCmd, start, count]
    dsimp only
    rw [given]
    dsimp only
    rw [clipped, reported]
    rfl
  · rw [← range]
    exact mem_matchesIn
  · exact ascending_matchesIn (by omega)
  · rwa [← range]

def findstrArgs : List CStr := ["0x8800000", "4", "a"].map fun text => CStr.ofBytes (ascii text)

theorem findstr_reports : ∃ found, findstrCmd bareEnv findstrArgs = some found ∧ found.ret = Shell.cmdOk ∧
    (∀ x, x ∈ found.reported ↔ Occurs bareEnv.mem none (ascii "a") 0x8800000 (searched bareEnv 0x8800000 4) x) ∧
    found.reported.Pairwise (· < ·) ∧ ∀ x ∈ found.reads, In 0x8800000 (searched bareEnv 0x8800000 4) x :=
  find_reports .findstr rfl rfl rfl (by decide) (by decide) (.inl rfl)

end Psplink.Memory
