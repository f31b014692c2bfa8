import Psplink.Kernel.Libs
import Psplink.Lib.Patch
import Psplink.Lib.System

/-!
# API hooks

psplink/apihook.c: the hooks of system calls and the syscall table, which they are found in and put
into.
-/

namespace Psplink.Kernel
open Psplink.Lib

abbrev maxIds : Nat := 16

/-- The strings with what their arrays hold behind the NUL. `syscall`: which entry of the table. -/
structure ApiHookGeneric where
  name : Text
  param : Text
  ret : BitVec 8
  func : Word
  syscall : Option Nat
  hookfunc : Word
  sleep : Word

/-- `size` is that of the table's header, if there is a table. -/
structure ApiHooks where
  hooks : Fin maxIds → ApiHookGeneric
  size : Option Word
  syscalls : Nat → Word

def strncpy (s : Text) (n : Nat) : Text := s.take n ++ List.replicate (n - s.length) 0

/-- `sprintf` into an array. -/
def sprintf (old text : Text) : Text := text ++ 0 :: old.drop (text.length + 1)

def text (s : List Char) : Text := s.map fun c => BitVec.ofNat 8 c.toNat

def printHex (w : Word) : Text :=
  (List.range 8).map fun i =>
    let digit := (w >>> (28 - 4 * i) &&& 0xf).setWidth 8
    if digit < 10 then 0x30 + digit else 0x41 + (digit - 10)

namespace ApiHooks

def count (s : ApiHooks) : Nat :=
  match s.size with
  | some size => ((size - 0x10) / 4).toNat
  | none => 0

def findSyscallAddr (s : ApiHooks) (addr : Word) : Option Nat :=
  (List.range s.count).find? fun i => s.syscalls i == addr

def findFreeHook (s : ApiHooks) : Option (Fin maxIds) :=
  (List.finRange maxIds).find? fun i => (s.hooks i).func == 0

def setHook (s : ApiHooks) (id : Fin maxIds) (hook : ApiHookGeneric) : ApiHooks :=
  { s with hooks := Function.update s.hooks id hook }

def setSyscall (s : ApiHooks) (syscall : Option Nat) (value : Word) : ApiHooks :=
  match syscall with
  | some i => { s with syscalls := Function.update s.syscalls i value }
  | none => s

def apiHookAddr (s : ApiHooks) (addr : Option Nat) (func : Word) : ApiHooks := s.setSyscall addr func

/-- What the two functions share: `addr` is the export, `name` the new content of the hook's name. -/
def hook (addr : Word) (name : Text → Text) (ret : BitVec 8) (format : Text) (sleep : Word) (s : ApiHooks) :
    Bool × ApiHooks :=
  match s.findFreeHook with
  | none => (false, s)
  | some id =>
      if addr ≠ 0 then
        match s.findSyscallAddr addr with
        | some syscall =>
            let hook := s.hooks id
            let s := s.setHook id
              { hook with
                syscall := some syscall
                func := addr
                ret := ret
                sleep := sleep
                param := strncpy format 6
                name := name hook.name }
            (true, s.apiHookAddr (some syscall) (s.hooks id).hookfunc)
        | none => (false, s)
      else (false, s)

def apiHookGenericByName (m : Modules) (uid : Word) (library name : Text) (ret : BitVec 8) (format : Text)
    (sleep : Word) : ApiHooks → Bool × ApiHooks :=
  hook (m.libsFindExportByName uid library name) (fun _ => (strncpy name 32).take 31 ++ [0]) ret format sleep

def apiHookGenericByNid (m : Modules) (uid : Word) (library : Text) (nid : Word) (ret : BitVec 8)
    (format : Text) (sleep : Word) : ApiHooks → Bool × ApiHooks :=
  hook (m.libsFindExportByNid uid library nid)
    (fun old => sprintf old (text ['N', 'i', 'd', ':', '0', 'x'] ++ printHex nid)) ret format sleep

def apiHookGenericDelete (id : Int) (s : ApiHooks) : ApiHooks :=
  if bound : 0 ≤ id ∧ id < maxIds then
    let id : Fin maxIds := ⟨id.toNat, by omega⟩
    if (s.hooks id).func ≠ 0 then
      (s.setSyscall (s.hooks id).syscall (s.hooks id).func).setHook id { s.hooks id with func := 0 }
    else s
  else s

end ApiHooks

/-! ## Runs -/

inductive ApiHookCall
  | byName (uid : Word) (library name : Text) (ret : BitVec 8) (format : Text) (sleep : Word)
  | byNid (uid : Word) (library : Text) (nid : Word) (ret : BitVec 8) (format : Text) (sleep : Word)
  | delete (id : Int)

def ApiHooks.after (m : Modules) (s : ApiHooks) : ApiHookCall → ApiHooks
  | .byName uid library name ret format sleep => (s.apiHookGenericByName m uid library name ret format sleep).2
  | .byNid uid library nid ret format sleep => (s.apiHookGenericByNid m uid library nid ret format sleep).2
  | .delete id => s.apiHookGenericDelete id

/-- `stub` are the functions `_apiHook0` to `_apiHook15`. -/
def ApiHooks.start (stub : Fin maxIds → Word) (size : Option Word) (orig : Nat → Word) : ApiHooks where
  hooks id := ⟨List.replicate 32 0, List.replicate 6 0, 0x76, 0, none, stub id, 0⟩
  size := size
  syscalls := orig

/-- Modules are loaded and unloaded between the calls, and none exports a stub. -/
def apiHooks (stub : Fin maxIds → Word) (size : Option Word) (orig : Nat → Word) :
    System ApiHooks (Modules × ApiHookCall) where
  init s := s = .start stub size orig
  step s e s' := (∀ id, ¬e.1.Exports (stub id)) ∧ s' = s.after e.1 e.2

/-! ## The invariant -/

def ApiHookGeneric.patch (h : ApiHookGeneric) : Option (Patch Nat Word) :=
  if h.func = 0 then none else h.syscall.map fun k => ⟨k, h.func⟩

theorem ApiHookGeneric.patch_eq_some {h : ApiHookGeneric} {p : Patch Nat Word} :
    h.patch = some p ↔ h.func ≠ 0 ∧ h.syscall = some p.line ∧ h.func = p.old := by
  unfold patch
  obtain ⟨line, old⟩ := p
  by_cases inactive : h.func = 0
  · simp [inactive]
  · rw [if_neg inactive, and_iff_right inactive]
    cases h.syscall <;> simp

namespace ApiHooks

variable {stub : Fin maxIds → Word} {orig : Nat → Word} {s : ApiHooks}

def slots (s : ApiHooks) (id : Fin maxIds) : Option (Patch Nat Word) := (s.hooks id).patch

structure Inv (stub : Fin maxIds → Word) (orig : Nat → Word) (s : ApiHooks) : Prop where
  patched : PatchedBy Set.univ stub orig s.syscalls s.slots
  hookfunc : ∀ id, (s.hooks id).hookfunc = stub id
  inside : ∀ id, (s.hooks id).func ≠ 0 → ∃ k < s.count, (s.hooks id).syscall = some k

theorem slots_setHook (s : ApiHooks) (id : Fin maxIds) (hook : ApiHookGeneric) :
    (s.setHook id hook).slots = Function.update s.slots id hook.patch := by
  funext j
  by_cases same : j = id
  · subst same
    simp [slots, setHook]
  · simp [slots, setHook, same]

@[simp] theorem hooks_setSyscall (s : ApiHooks) (syscall : Option Nat) (value : Word) :
    (s.setSyscall syscall value).hooks = s.hooks := by
  cases syscall <;> rfl

theorem inv_update (inv : Inv stub orig s) {id : Fin maxIds} {h : ApiHookGeneric} {syscalls : Nat → Word}
    (hookfunc : h.hookfunc = (s.hooks id).hookfunc) (inside : h.func ≠ 0 → ∃ k < s.count, h.syscall = some k)
    (patched : PatchedBy Set.univ stub orig syscalls (Function.update s.slots id h.patch)) :
    Inv stub orig ⟨Function.update s.hooks id h, s.size, syscalls⟩ where
  patched := by rwa [← slots_setHook] at patched
  hookfunc j := by
    dsimp only
    by_cases same : j = id
    · subst same
      rw [Function.update_self, hookfunc, inv.hookfunc]
    · rw [Function.update_of_ne same, inv.hookfunc]
  inside j active := by
    show ∃ k < s.count, (Function.update s.hooks id h j).syscall = some k
    dsimp only at active
    by_cases same : j = id
    · subst same
      rw [Function.update_self] at active ⊢
      exact inside active
    · rw [Function.update_of_ne same] at active ⊢
      exact inv.inside j active

theorem free_of_find (inv : Inv stub orig s) {addr : Word} {k : Nat} (other : ∀ id, addr ≠ stub id)
    (found : s.findSyscallAddr addr = some k) : Free s.slots k := by
  have here : s.syscalls k = addr := by simpa using List.find?_some found
  intro j p at_j same
  have stubbed := inv.patched.trapped j p at_j trivial
  rw [same, here] at stubbed
  exact other j stubbed

theorem inv_hook (inv : Inv stub orig s) {addr : Word} (other : addr ≠ 0 → ∀ id, addr ≠ stub id)
    (name : Text → Text) (ret : BitVec 8) (format : Text) (sleep : Word) :
    Inv stub orig (s.hook addr name ret format sleep).2 := by
  unfold hook
  cases unused : s.findFreeHook with
  | none => exact inv
  | some id =>
      dsimp only
      split
      · rename_i some_addr
        cases found : s.findSyscallAddr addr with
        | none => exact inv
        | some k =>
            have inactive : (s.hooks id).func = 0 := by simpa using List.find?_some unused
            have here : s.syscalls k = addr := by simpa using List.find?_some found
            have less : k < s.count := List.mem_range.mp (List.mem_of_find?_eq_some found)
            have free := free_of_find inv (other some_addr) found
            have empty : s.slots id = none := if_pos inactive
            have planted := inv.patched.plant empty fun _ => free
            rw [here, ← inv.hookfunc] at planted
            have own := Function.update_self id
              { s.hooks id with
                syscall := some k
                func := addr
                ret := ret
                sleep := sleep
                param := strncpy format 6
                name := name (s.hooks id).name } s.hooks
            dsimp only [setHook, apiHookAddr, setSyscall]
            rw [own]
            refine inv_update inv ?_ (fun _ => ⟨k, less, ?_⟩) ?_
            · rfl
            · rfl
            · rw [ApiHookGeneric.patch, if_neg some_addr]
              exact planted
      · exact inv

theorem inv_delete (inv : Inv stub orig s) (id : Int) : Inv stub orig (s.apiHookGenericDelete id) := by
  unfold apiHookGenericDelete
  split
  · dsimp only
    split
    · rename_i bound active
      obtain ⟨k, _, at_k⟩ := inv.inside _ active
      have restored := inv.patched.restore (p := ⟨k, _⟩) (ApiHookGeneric.patch_eq_some.mpr ⟨active, at_k, rfl⟩)
      dsimp only [setHook]
      rw [at_k]
      refine inv_update inv ?_ (fun active => absurd rfl active) ?_
      · rfl
      · exact restored
    · exact inv
  · exact inv

theorem inv_after (inv : Inv stub orig s) {m : Modules} (clean : ∀ id, ¬m.Exports (stub id)) (e : ApiHookCall) :
    Inv stub orig (s.after m e) := by
  have other {addr : Word} (exported : addr ≠ 0 → m.Exports addr) : addr ≠ 0 → ∀ id, addr ≠ stub id := by
    rintro some_addr id rfl
    exact clean id (exported some_addr)
  cases e with
  | byName => exact inv_hook inv (other Modules.exports_of_find) _ _ _ _
  | byNid => exact inv_hook inv (other Modules.exports_of_find) _ _ _ _
  | delete id => exact inv_delete inv id

theorem inv_reachable {size : Option Word} (reachable : (apiHooks stub size orig).Reachable s) :
    Inv stub orig s := by
  apply reachable.invariant
  · rintro s rfl
    exact ⟨.empty (fun _ => rfl) fun _ _ => rfl, fun _ => rfl, fun _ active => absurd rfl active⟩
  · rintro s e s' inv ⟨clean, rfl⟩
    exact inv_after inv clean e.2

/-! ## Deleting -/

def deleteAll (ids : List Int) (s : ApiHooks) : ApiHooks := ids.foldl (fun s id => s.apiHookGenericDelete id) s

theorem func_delete (s : ApiHooks) (id : Int) (j : Fin maxIds) :
    ((s.apiHookGenericDelete id).hooks j).func = if (j : Int) = id then 0 else (s.hooks j).func := by
  unfold apiHookGenericDelete
  split
  · rename_i bound
    have index : j = ⟨id.toNat, by omega⟩ ↔ (j : Int) = id := by
      rw [Fin.ext_iff]
      dsimp only
      omega
    dsimp only
    split
    · simp only [setHook, hooks_setSyscall]
      by_cases same : (j : Int) = id
      · rw [if_pos same, index.mpr same, Function.update_self]
      · rw [if_neg same, Function.update_of_ne (index.not.mpr same)]
    · rename_i inactive
      split
      · rename_i same
        rw [index.mpr same]
        simpa using inactive
      · rfl
  · rename_i outside
    have differ : (j : Int) ≠ id := by
      have less := j.isLt
      change j.val < 16 at less
      omega
    rw [if_neg differ]

theorem inv_deleteAll (inv : Inv stub orig s) (ids : List Int) : Inv stub orig (deleteAll ids s) := by
  induction ids generalizing s with
  | nil => exact inv
  | cons id ids ih => exact ih (inv_delete inv id)

theorem func_deleteAll {ids : List Int} {j : Fin maxIds} (covered : (s.hooks j).func = 0 ∨ (j : Int) ∈ ids) :
    ((deleteAll ids s).hooks j).func = 0 := by
  induction ids generalizing s with
  | nil => exact covered.resolve_right List.not_mem_nil
  | cons id ids ih =>
      apply ih
      rw [func_delete]
      by_cases same : (j : Int) = id
      · exact .inl (if_pos same)
      · rw [if_neg same]
        exact covered.imp_right fun member => (List.mem_cons.mp member).resolve_left same

theorem restored (inv : Inv stub orig s) {ids : List Int}
    (covered : ∀ id : Fin maxIds, (s.hooks id).func ≠ 0 → (id : Int) ∈ ids) :
    (deleteAll ids s).syscalls = orig := by
  funext k
  apply (inv_deleteAll inv ids).patched.clean _ (Set.mem_univ k)
  intro id
  have gone : ((deleteAll ids s).hooks id).func = 0 :=
    func_deleteAll (or_iff_not_imp_left.mpr (covered id))
  exact if_pos gone

theorem hook_failed {addr : Word} {name : Text → Text} {ret : BitVec 8} {format : Text} {sleep : Word}
    (failed : (s.hook addr name ret format sleep).1 = false) : (s.hook addr name ret format sleep).2 = s := by
  unfold hook at failed ⊢
  cases unused : s.findFreeHook with
  | none => rfl
  | some id =>
      simp only [unused] at failed ⊢
      by_cases some_addr : addr ≠ 0
      · simp only [if_pos some_addr] at failed ⊢
        cases found : s.findSyscallAddr addr with
        | none => rfl
        | some k => simp [found] at failed
      · rw [if_neg some_addr]

theorem delete_inactive {id : Int} (inactive : ∀ j : Fin maxIds, (j : Int) = id → (s.hooks j).func = 0) :
    s.apiHookGenericDelete id = s := by
  unfold apiHookGenericDelete
  split
  · rename_i bound
    have none := inactive ⟨id.toNat, by omega⟩ (Int.toNat_of_nonneg bound.1)
    dsimp only
    rw [if_neg (not_not.mpr none)]
  · rfl

end ApiHooks

/-- In the table are the original entries and the active hooks, each with its original entry. -/
theorem syscalls_hooked {stub : Fin maxIds → Word} {size : Option Word} {orig : Nat → Word} {s : ApiHooks}
    (reachable : (apiHooks stub size orig).Reachable s) :
    (∀ k, (∀ id, (s.hooks id).func ≠ 0 → (s.hooks id).syscall ≠ some k) → s.syscalls k = orig k) ∧
    (∀ id, (s.hooks id).func ≠ 0 → ∃ k < s.count, (s.hooks id).syscall = some k ∧
      s.syscalls k = (s.hooks id).hookfunc ∧ (s.hooks id).func = orig k) ∧
    (∀ id id', (s.hooks id).func ≠ 0 → (s.hooks id').func ≠ 0 → (s.hooks id).syscall = (s.hooks id').syscall →
      id = id') ∧
    (∀ m uid library name ret format sleep,
      (s.apiHookGenericByName m uid library name ret format sleep).1 = false →
        (s.apiHookGenericByName m uid library name ret format sleep).2 = s) ∧
    (∀ m uid library nid ret format sleep,
      (s.apiHookGenericByNid m uid library nid ret format sleep).1 = false →
        (s.apiHookGenericByNid m uid library nid ret format sleep).2 = s) ∧
    (∀ id : Int, (∀ j : Fin maxIds, (j : Int) = id → (s.hooks j).func = 0) → s.apiHookGenericDelete id = s) ∧
    ∀ ids : List Int, (∀ id : Fin maxIds, (s.hooks id).func ≠ 0 → (id : Int) ∈ ids) →
      (s.deleteAll ids).syscalls = orig := by
  have inv := ApiHooks.inv_reachable reachable
  have patch {id : Fin maxIds} {k : Nat} (active : (s.hooks id).func ≠ 0) (at_k : (s.hooks id).syscall = some k) :
      s.slots id = some ⟨k, (s.hooks id).func⟩ := ApiHookGeneric.patch_eq_some.mpr ⟨active, at_k, rfl⟩
  refine ⟨?_, ?_, ?_, fun _ _ _ _ _ _ _ => ApiHooks.hook_failed, fun _ _ _ _ _ _ _ => ApiHooks.hook_failed,
    fun _ => ApiHooks.delete_inactive, fun _ => ApiHooks.restored inv⟩
  · intro k unhooked
    apply inv.patched.rest k trivial
    rintro id p at_id rfl
    obtain ⟨active, at_k, _⟩ := ApiHookGeneric.patch_eq_some.mp at_id
    exact unhooked id active at_k
  · intro id active
    obtain ⟨k, less, at_k⟩ := inv.inside id active
    have at_id := patch active at_k
    refine ⟨k, less, at_k, ?_, inv.patched.old id _ at_id trivial⟩
    rw [inv.hookfunc]
    exact inv.patched.trapped id _ at_id trivial
  · intro id id' active active' same
    obtain ⟨k, _, at_k⟩ := inv.inside id active
    exact inv.patched.separate id id' _ _ (patch active at_k) (patch active' (same ▸ at_k)) trivial rfl

/-- A module with one function of the table, under NID 1. -/
def exampleModules : Modules where
  findModuleByUID _ := some [⟨some (text ['s', 'c', 'e']), 1, 0, fun i => if i = 0 then 1 else 0x88100008⟩]
  utilsSha1Digest _ := none

def exampleStub (id : Fin maxIds) : Word := 0x88200000 + 8 * BitVec.ofNat 32 id

theorem exampleModules_clean (id : Fin maxIds) : ¬exampleModules.Exports (exampleStub id) := by
  rintro ⟨uid, entries, entry, found, member, count, less, here⟩
  cases found
  rw [List.mem_singleton.mp member] at less here
  have first : count = 0 := Nat.lt_one_iff.mp less
  subst first
  revert id
  decide

def exampleTable (k : Nat) : Word := 0x88100000 + 4 * BitVec.ofNat 32 k

def exampleHooked : ApiHooks :=
  (ApiHooks.start exampleStub (some 0x30) exampleTable).after exampleModules
    (.byNid 0 (text ['s', 'c', 'e']) 1 0x76 [] 0)

theorem syscalls_hooked_once : ∃ k < exampleHooked.count, (exampleHooked.hooks 0).syscall = some k ∧
    exampleHooked.syscalls k = (exampleHooked.hooks 0).hookfunc ∧
    (exampleHooked.hooks 0).func = exampleTable k := by
  have start : (apiHooks exampleStub (some 0x30) exampleTable).Reachable (.start _ _ _) := .init rfl
  have hooked := start.step (a := (exampleModules, .byNid 0 (text ['s', 'c', 'e']) 1 0x76 [] 0))
    ⟨exampleModules_clean, rfl⟩
  exact (syscalls_hooked hooked).2.1 0 (by decide)

end Psplink.Kernel
