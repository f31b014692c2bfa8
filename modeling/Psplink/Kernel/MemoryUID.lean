import Mathlib.Data.List.Find
import Psplink.Lib.Flat

/-!
# The UID table

psplink/memoryUID.c: the search through the kernel's table of objects, a ring of types each with a ring of the objects
of the type. The rings are described apart from the memory in `UidTable`.
-/

namespace Psplink.Kernel
open Psplink.Lib Flat

/-! ## The code -/

structure UidList where
  parent : Addr
  nextChild : Addr
  realParent : Addr
  uid : BitVec 32
  name : Addr
  nextEntry : Addr

def word (mem : Flat) (a : Addr) : BitVec 32 := load (BitVec 32) mem a

def uidList (mem : Flat) (a : Addr) : UidList where
  parent := word mem a
  nextChild := word mem (offset a 0x4)
  realParent := word mem (offset a 0x8)
  uid := word mem (offset a 0xC)
  name := word mem (offset a 0x10)
  nextEntry := word mem (offset a 0x18)

def uidListStart (devkitVersion : BitVec 32) : Addr :=
  if devkitVersion = 0x01050001 then 0x8800fc98 else 0x8800d030

inductive Children
  | found (entry : Addr)
  | back (entry : Addr)

section
variable (mem : Flat) (uid : BitVec 32) (name parent : Option Bytes)

def nameOf (entry : Addr) : Bytes := cstrAt mem (uidList mem entry).name

def wanted (entry : Addr) : Bool :=
  match name with
  | some name => nameOf mem entry = name
  | none => (uidList mem entry).uid = uid

def inParent (ret : Addr) : Bool :=
  match parent with
  | some parent => if (uidList mem ret).realParent ≠ 0 then nameOf mem (uidList mem ret).realParent = parent else true
  | none => true

def childLoop : (turns : Nat) → Addr → Option Children
  | 0, _ => none
  | turns + 1, entry =>
      let entry := (uidList mem entry).nextChild
      if wanted mem uid name entry ∧ inParent mem parent entry then some (.found entry)
      else if (uidList mem entry).nextChild ≠ (uidList mem entry).realParent then childLoop turns entry
      else some (.back (uidList mem entry).nextChild)

/-- The children are looked through when there are any. -/
def ofEntry (turns : Nat) (entry : Addr) : Option Children :=
  if (uidList mem entry).uid = uid then some (.found entry)
  else if (uidList mem entry).nextChild ≠ entry then childLoop mem uid name parent turns entry
  else some (.back entry)

/-- Without a result where a loop does not end. -/
def entryLoop (end_ : Addr) : (turns : Nat) → Addr → Option (Option Addr)
  | 0, _ => none
  | turns + 1, entry =>
      match ofEntry mem uid name parent (turns + 1) entry with
      | none => none
      | some (.found entry) => some (some entry)
      | some (.back entry) =>
          let entry := (uidList mem entry).nextEntry
          if (uidList mem entry).nextEntry ≠ end_ then entryLoop end_ turns entry else some none

def findUIDObject (devkitVersion : BitVec 32) (turns : Nat) : Option (Option Addr) :=
  let entry := (uidList mem (uidListStart devkitVersion)).parent
  entryLoop mem uid name parent entry turns (uidList mem entry).nextEntry

end

def findUIDByName (mem : Flat) (name : Bytes) (devkitVersion : BitVec 32) (turns : Nat) : Option (BitVec 32) :=
  (findUIDObject mem 0 (some name) none devkitVersion turns).map fun entry =>
    entry.elim (-1) fun entry => (uidList mem entry).uid

/-! ## Rings -/

/-- From `a` through the elements of a list to `z`. -/
def Linked (next : Addr → Addr) : Addr → List Addr → Addr → Prop
  | a, [], z => next a = z
  | a, x :: xs, z => next a = x ∧ Linked next x xs z

/-- A type and the objects of it. -/
abbrev UidType := Addr × List Addr

structure UidTable (mem : Flat) (root : Addr) (types : List UidType) : Prop where
  ring : Linked (fun a => (uidList mem a).nextEntry) root (types.map Prod.fst) root
  apart : ∀ t ∈ types, t.1 ≠ root
  children : ∀ t ∈ types, Linked (fun a => (uidList mem a).nextChild) t.1 t.2 t.1
  owned : ∀ t ∈ types, ∀ c ∈ t.2, (uidList mem c).realParent = t.1 ∧ c ≠ t.1

section
variable {mem : Flat} {uid : BitVec 32} {name parent : Option Bytes}

def hit (mem : Flat) (uid : BitVec 32) (name parent : Option Bytes) (c : Addr) : Bool :=
  wanted mem uid name c && inParent mem parent c

theorem childLoop_eq {turns : Nat} {entry t : Addr} {children : List Addr} (some : children ≠ [])
    (linked : Linked (fun a => (uidList mem a).nextChild) entry children t)
    (owned : ∀ c ∈ children, (uidList mem c).realParent = t ∧ c ≠ t) (enough : children.length ≤ turns) :
    childLoop mem uid name parent turns entry =
      .some ((children.find? (hit mem uid name parent)).elim (.back t) .found) := by
  induction children generalizing turns entry with
  | nil => contradiction
  | cons c cs ih =>
      obtain ⟨first, linked⟩ := linked
      obtain ⟨parented, _⟩ := owned c List.mem_cons_self
      cases turns with
      | zero => exact absurd enough (Nat.not_succ_le_zero _)
      | succ turns =>
          have next : (uidList mem entry).nextChild = c := first
          rw [childLoop, next]
          by_cases here : hit mem uid name parent c
          · rw [if_pos (by simpa [hit] using here), List.find?_cons_of_pos here]
            rfl
          · rw [if_neg (by simpa [hit] using here), List.find?_cons_of_neg here, parented]
            cases cs with
            | nil =>
                have last : (uidList mem c).nextChild = t := linked
                rw [if_neg (not_not_intro last), last]
                rfl
            | cons c' cs =>
                have further : (uidList mem c).nextChild = c' := linked.1
                have other : c' ≠ t := (owned c' (List.mem_cons_of_mem _ List.mem_cons_self)).2
                rw [further, if_pos other]
                exact ih (List.cons_ne_nil _ _) linked (fun c mem => owned c (List.mem_cons_of_mem _ mem))
                  (Nat.le_of_succ_le_succ enough)

/-- The object of a type that the search is after; the type itself goes by its number only. -/
def ofType (mem : Flat) (uid : BitVec 32) (name parent : Option Bytes) (t : UidType) : Option Addr :=
  if (uidList mem t.1).uid = uid then some t.1 else t.2.find? (hit mem uid name parent)

def ofTypes (mem : Flat) (uid : BitVec 32) (name parent : Option Bytes) (types : List UidType) : Option Addr :=
  types.findSome? (ofType mem uid name parent)

theorem ofTypes_cons (t : UidType) (types : List UidType) : ofTypes mem uid name parent (t :: types) =
    (ofType mem uid name parent t).elim (ofTypes mem uid name parent types) some := by
  rw [ofTypes, List.findSome?_cons]
  cases ofType mem uid name parent t <;> rfl

theorem ofEntry_eq {turns : Nat} {t : UidType} (linked : Linked (fun a => (uidList mem a).nextChild) t.1 t.2 t.1)
    (owned : ∀ c ∈ t.2, (uidList mem c).realParent = t.1 ∧ c ≠ t.1) (enough : t.2.length ≤ turns) :
    ofEntry mem uid name parent turns t.1 = some ((ofType mem uid name parent t).elim (.back t.1) .found) := by
  rw [ofEntry, ofType]
  by_cases here : (uidList mem t.1).uid = uid
  · rw [if_pos here, if_pos here]
    rfl
  · rw [if_neg here, if_neg here]
    obtain ⟨entry, children⟩ := t
    cases children with
    | nil =>
        have none : (uidList mem entry).nextChild = entry := linked
        rw [if_neg (not_not_intro none)]
        rfl
    | cons c cs =>
        have first : (uidList mem entry).nextChild = c := linked.1
        have other : c ≠ entry := (owned c List.mem_cons_self).2
        rw [first, if_pos other]
        exact childLoop_eq (List.cons_ne_nil _ _) linked owned enough

theorem entryLoop_turn {root : Addr} {turns : Nat} {t t' : UidType}
    (linked : Linked (fun a => (uidList mem a).nextChild) t.1 t.2 t.1)
    (owned : ∀ c ∈ t.2, (uidList mem c).realParent = t.1 ∧ c ≠ t.1) (room : t.2.length ≤ turns)
    (next : (uidList mem t.1).nextEntry = t'.1) :
    entryLoop mem uid name parent root (turns + 1) t.1 =
      (ofType mem uid name parent t).elim
        (if (uidList mem t'.1).nextEntry ≠ root then entryLoop mem uid name parent root turns t'.1 else some none)
        fun entry => some (some entry) := by
  have object : ofEntry mem uid name parent (turns + 1) t.1 = _ := ofEntry_eq linked owned (Nat.le_succ_of_le room)
  rw [entryLoop, object, ← next]
  cases ofType mem uid name parent t <;> rfl

/-- The loop stops before the last type of the ring. -/
theorem entryLoop_eq {root : Addr} {turns : Nat} {t t' : UidType} {types : List UidType}
    (ring : Linked (fun a => (uidList mem a).nextEntry) t.1 (t'.1 :: types.map Prod.fst) root)
    (apart : ∀ s ∈ types, s.1 ≠ root)
    (children : ∀ s ∈ t :: t' :: types, Linked (fun a => (uidList mem a).nextChild) s.1 s.2 s.1)
    (owned : ∀ s ∈ t :: t' :: types, ∀ c ∈ s.2, (uidList mem c).realParent = s.1 ∧ c ≠ s.1)
    (enough : types.length < turns) (room : ∀ s ∈ t :: t' :: types, s.2.length + types.length < turns) :
    entryLoop mem uid name parent root turns t.1 =
      some (ofTypes mem uid name parent (t :: t' :: types).dropLast) := by
  induction types generalizing t t' turns with
  | nil =>
      cases turns with
      | zero => cases enough
      | succ turns =>
          have here := room t List.mem_cons_self
          have last : (uidList mem t'.1).nextEntry = root := ring.2
          rw [entryLoop_turn (children t List.mem_cons_self) (owned t List.mem_cons_self) (Nat.le_of_lt_succ here) ring.1,
            if_neg (not_not_intro last), List.dropLast_cons_cons, List.dropLast_singleton, ofTypes, List.findSome?_singleton]
          cases ofType mem uid name parent t <;> rfl
  | cons t'' types ih =>
      cases turns with
      | zero => cases enough
      | succ turns =>
          have here := room t List.mem_cons_self
          have more : (uidList mem t'.1).nextEntry = t''.1 := ring.2.1
          have rest : entryLoop mem uid name parent root turns t'.1 =
              some (ofTypes mem uid name parent (t' :: t'' :: types).dropLast) := by
            apply ih ring.2
            · exact fun s mem => apart s (List.mem_cons_of_mem _ mem)
            · exact fun s mem => children s (List.mem_cons_of_mem _ mem)
            · exact fun s mem => owned s (List.mem_cons_of_mem _ mem)
            · exact Nat.lt_of_succ_lt_succ enough
            · intro s mem
              have bound := room s (List.mem_cons_of_mem _ mem)
              rw [List.length_cons] at bound
              omega
          have other : (uidList mem t'.1).nextEntry ≠ root := by
            rw [more]
            exact apart t'' List.mem_cons_self
          rw [List.length_cons] at here
          have front : (t :: t' :: t'' :: types).dropLast = t :: (t' :: t'' :: types).dropLast := List.dropLast_cons_cons
          rw [entryLoop_turn (children t List.mem_cons_self) (owned t List.mem_cons_self) (by omega) ring.1, if_pos other,
            rest, front, ofTypes_cons]
          cases ofType mem uid name parent t <;> rfl

/-- What the search comes to: the types in their order, each before its objects, but for the last type. -/
theorem findUIDObject_eq {root : Addr} {types : List UidType} (table : UidTable mem root types) (two : 2 ≤ types.length)
    {version : BitVec 32} (start : (uidList mem (uidListStart version)).parent = root) {turns : Nat}
    (enough : ∀ t ∈ types, t.2.length + types.length ≤ turns) :
    findUIDObject mem uid name parent version turns = some (ofTypes mem uid name parent types.dropLast) := by
  obtain ⟨ring, apart, children, owned⟩ := table
  cases types with
  | nil => cases two
  | cons t types =>
      cases types with
      | nil => exact absurd two (by simp)
      | cons t' types =>
          have here := enough t List.mem_cons_self
          have first : (uidList mem root).nextEntry = t.1 := ring.1
          rw [List.length_cons, List.length_cons] at here
          rw [findUIDObject, start, first]
          apply entryLoop_eq ring.2 _ children owned (by omega)
          · intro s mem
            have bound := enough s mem
            rw [List.length_cons, List.length_cons] at bound
            omega
          · exact fun s mem => apart s (List.mem_cons_of_mem _ (List.mem_cons_of_mem _ mem))

/-! ## Lookups -/

/-- The objects that a search below a parent of some name may come upon. -/
def candidates (mem : Flat) (parent : Option Bytes) (t : UidType) : List Addr :=
  if parent.all (nameOf mem t.1 = ·) then t.2 else []

theorem find_hit {t : UidType} (owned : ∀ c ∈ t.2, (uidList mem c).realParent = t.1) (placed : t.1 ≠ 0) :
    t.2.find? (hit mem uid name parent) = (candidates mem parent t).find? (wanted mem uid name) := by
  have here : ∀ c ∈ t.2, inParent mem parent c = parent.all (nameOf mem t.1 = ·) := by
    intro c inside
    cases parent with
    | none => rfl
    | some parent =>
        rw [inParent, owned c inside, if_pos placed]
        rfl
  unfold candidates
  split
  · next named =>
    apply List.find?_congr
    intro c inside
    rw [hit, here c inside, named, Bool.and_true]
  · next unnamed =>
    rw [List.find?_nil, List.find?_eq_none]
    intro c inside found
    rw [hit, here c inside, Bool.and_eq_true] at found
    exact unnamed found.2

theorem findSome_congr {α β : Type} {f g : α → Option β} {l : List α} (same : ∀ x ∈ l, f x = g x) :
    l.findSome? f = l.findSome? g := by
  induction l with
  | nil => rfl
  | cons x l ih =>
      rw [List.findSome?_cons, List.findSome?_cons, same x List.mem_cons_self, ih fun y mem => same y (List.mem_cons_of_mem _ mem)]

theorem findUIDObject_uid {root : Addr} {types : List UidType} (table : UidTable mem root types)
    (placed : ∀ t ∈ types, t.1 ≠ 0) (two : 2 ≤ types.length) {version : BitVec 32}
    (start : (uidList mem (uidListStart version)).parent = root) {turns : Nat}
    (enough : ∀ t ∈ types, t.2.length + types.length ≤ turns) :
    findUIDObject mem uid none parent version turns =
      some ((types.dropLast.flatMap fun t => t.1 :: candidates mem parent t).find? fun a => (uidList mem a).uid = uid) := by
  rw [findUIDObject_eq table two start enough, ofTypes, List.find?_flatMap]
  apply congrArg some
  apply findSome_congr
  intro t inside
  have mem' := List.dropLast_subset types inside
  rw [ofType, find_hit (fun c child => (table.owned t mem' c child).1) (placed t mem')]
  by_cases here : (uidList mem t.1).uid = uid
  · simp [here]
  · rw [if_neg here, List.find?_cons_of_neg (by simpa using here)]
    rfl

/-- A search by name asks for the number zero, which no type has. -/
theorem findUIDObject_name {root : Addr} {types : List UidType} (table : UidTable mem root types)
    (placed : ∀ t ∈ types, t.1 ≠ 0) (numbered : ∀ t ∈ types, (uidList mem t.1).uid ≠ 0) (two : 2 ≤ types.length)
    {version : BitVec 32} (start : (uidList mem (uidListStart version)).parent = root) {turns : Nat}
    (enough : ∀ t ∈ types, t.2.length + types.length ≤ turns) (name : Bytes) :
    findUIDObject mem 0 (some name) parent version turns =
      some ((types.dropLast.flatMap (candidates mem parent)).find? fun a => nameOf mem a = name) := by
  rw [findUIDObject_eq table two start enough, ofTypes, List.find?_flatMap]
  apply congrArg some
  apply findSome_congr
  intro t inside
  have mem' := List.dropLast_subset types inside
  rw [ofType, if_neg (numbered t mem'), find_hit (fun c child => (table.owned t mem' c child).1) (placed t mem')]
  rfl

/-- Every search of the table ends, with the first object that fits in any type but the last. -/
theorem uid_lookups {root : Addr} {types : List UidType} (table : UidTable mem root types)
    (placed : ∀ t ∈ types, t.1 ≠ 0) (numbered : ∀ t ∈ types, (uidList mem t.1).uid ≠ 0) (two : 2 ≤ types.length)
    {version : BitVec 32} (start : (uidList mem (uidListStart version)).parent = root) {turns : Nat}
    (enough : ∀ t ∈ types, t.2.length + types.length ≤ turns) :
    (∀ uid parent, findUIDObject mem uid none parent version turns =
      some ((types.dropLast.flatMap fun t => t.1 :: candidates mem parent t).find? fun a => (uidList mem a).uid = uid)) ∧
    (∀ name parent, findUIDObject mem 0 (some name) parent version turns =
      some ((types.dropLast.flatMap (candidates mem parent)).find? fun a => nameOf mem a = name)) ∧
    ∀ name, findUIDByName mem name version turns =
      some (((types.dropLast.flatMap Prod.snd).find? fun a => nameOf mem a = name).elim (-1) fun a => (uidList mem a).uid) := by
  refine ⟨fun uid parent => findUIDObject_uid table placed two start enough,
    fun name parent => findUIDObject_name table placed numbered two start enough name, ?_⟩
  intro name
  rw [findUIDByName, findUIDObject_name table placed numbered two start enough name]
  rfl

end

/-! ## A table -/

/-- Two types, the first with one object. -/
def smallMem : Flat :=
  [(0x8800d030, 0x100), (0x118, 0x200), (0x204, 0x300), (0x20C, 1), (0x218, 0x400), (0x304, 0x200), (0x308, 0x200),
    (0x30C, 2), (0x310, 0x500), (0x404, 0x400), (0x40C, 3), (0x418, 0x100), (0x500, 65)].foldl
    (fun mem (field : Addr × BitVec 32) => save mem field.1 field.2) fun _ => 0

theorem smallEntries :
    (uidList smallMem 0x100).nextEntry = 0x200 ∧ (uidList smallMem 0x200).nextEntry = 0x400 ∧
    (uidList smallMem 0x400).nextEntry = 0x100 ∧ (uidList smallMem 0x200).nextChild = 0x300 ∧
    (uidList smallMem 0x300).nextChild = 0x200 ∧ (uidList smallMem 0x300).realParent = 0x200 ∧
    (uidList smallMem 0x400).nextChild = 0x400 ∧ (uidList smallMem 0x200).uid = 1 ∧ (uidList smallMem 0x300).uid = 2 ∧
    (uidList smallMem 0x400).uid = 3 ∧ (uidList smallMem (uidListStart 0)).parent = 0x100 := by decide +kernel

def smallTypes : List UidType := [(0x200, [0x300]), (0x400, [])]

theorem smallTable : UidTable smallMem 0x100 smallTypes := by
  obtain ⟨entry₁, entry₂, entry₃, child₁, child₂, parent, child₃, _⟩ := smallEntries
  constructor
  · exact ⟨entry₁, entry₂, entry₃⟩
  · decide
  · exact List.forall_mem_cons.mpr ⟨⟨child₁, child₂⟩, List.forall_mem_singleton.mpr child₃⟩
  · refine List.forall_mem_cons.mpr ⟨List.forall_mem_singleton.mpr ⟨parent, by decide⟩, ?_⟩
    exact List.forall_mem_singleton.mpr fun c mem => absurd mem List.not_mem_nil

theorem uid_lookups_small : findUIDObject smallMem 2 none none 0 4 = some (some 0x300) := by
  obtain ⟨_, _, _, _, _, _, _, one, two, three, start⟩ := smallEntries
  have numbered : ∀ t ∈ smallTypes, (uidList smallMem t.1).uid ≠ 0 := by
    refine List.forall_mem_cons.mpr ⟨?_, List.forall_mem_singleton.mpr ?_⟩
    · rw [one]
      decide
    · rw [three]
      decide
  have found := (@uid_lookups smallMem 0x100 smallTypes smallTable (by decide) numbered (by decide) 0 start 4
    (by decide)).1 2 none
  exact found.trans (by decide +kernel)

end Psplink.Kernel
