import Mathlib.Computability.StateTransition
import Mathlib.Logic.Function.Basic

/-!
# MIPS code

Instructions with delay slots over memory of words, and the runs of code that is loaded somewhere. The
vector unit and the control registers of coprocessor 0 are the Allegrex's.
-/

namespace Psplink.Lib.Mips

abbrev Word := BitVec 32
abbrev Reg := Fin 32

abbrev zero : Reg := 0
abbrev v0 : Reg := 2
abbrev v1 : Reg := 3
abbrev a0 : Reg := 4
abbrev a1 : Reg := 5
abbrev a2 : Reg := 6
abbrev a3 : Reg := 7
abbrev t0 : Reg := 8
abbrev t1 : Reg := 9
abbrev sp : Reg := 29
abbrev ra : Reg := 31

/-- What instructions compute on. -/
structure Data where
  gpr : Reg → Word
  hi : Word
  lo : Word
  /-- The word at an address that is a multiple of four. -/
  mem : Word → Word
  cop0 : Reg → Word
  ctrl0 : Reg → Word
  fpr : Reg → Word
  ctrl1 : Reg → Word
  /-- The columns of the matrices. -/
  vfpu : Fin 8 × Fin 4 → Fin 4 → Word

/-! ## Updates -/

section

variable {ι α : Type} [DecidableEq ι]

def updates : List (ι × α) → (ι → α) → ι → α
  | [], f => f
  | s :: slots, f => updates slots (Function.update f s.1 s.2)

theorem updates_append (slots slots' : List (ι × α)) (f : ι → α) :
    updates (slots ++ slots') f = updates slots' (updates slots f) := by
  induction slots generalizing f with
  | nil => rfl
  | cons slot slots ih => exact ih _

theorem updates_of_not_mem {slots : List (ι × α)} {i : ι} (absent : i ∉ slots.map Prod.fst) (f : ι → α) :
    updates slots f i = f i := by
  induction slots generalizing f with
  | nil => rfl
  | cons slot slots ih =>
      obtain ⟨differ, absent'⟩ := not_or.mp (mt List.mem_cons.mpr absent)
      rw [updates, ih absent', Function.update_of_ne differ]

theorem updates_of_mem {slots : List (ι × α)} (nodup : (slots.map Prod.fst).Nodup) {i : ι} {x : α}
    (slot : (i, x) ∈ slots) (f : ι → α) : updates slots f i = x := by
  induction slots generalizing f with
  | nil => exact absurd slot List.not_mem_nil
  | cons first slots ih =>
      obtain ⟨fresh, nodup'⟩ := List.nodup_cons.mp nodup
      obtain same | later := List.mem_cons.mp slot
      · subst same
        rw [updates, updates_of_not_mem fresh, Function.update_self]
      · exact ih nodup' later _

end

/-- The words of `slots` at their offsets from `b`. -/
def write (b : Word) (slots : List (Nat × Word)) : (Word → Word) → Word → Word :=
  updates (slots.map fun s => (b + BitVec.ofNat 32 s.1, s.2))

theorem write_append (b : Word) (slots slots' : List (Nat × Word)) (mem : Word → Word) :
    write b (slots ++ slots') mem = write b slots' (write b slots mem) := by
  rw [write, List.map_append, updates_append]
  rfl

theorem slot_inj {b : Word} {k k' : Nat} (small : k < 2 ^ 32) (small' : k' < 2 ^ 32)
    (same : b + BitVec.ofNat 32 k = b + BitVec.ofNat 32 k') : k = k' := by
  have offsets := congrArg BitVec.toNat ((BitVec.add_right_inj b).mp same)
  rwa [BitVec.toNat_ofNat, BitVec.toNat_ofNat, Nat.mod_eq_of_lt small, Nat.mod_eq_of_lt small'] at offsets

/-- Slots that can be told apart. -/
structure Slots (offsets : List Nat) : Prop where
  small : ∀ k ∈ offsets, k < 2 ^ 32
  nodup : offsets.Nodup

theorem Slots.sublist {offsets offsets' : List Nat} (slots : Slots offsets') (sub : offsets.Sublist offsets') :
    Slots offsets :=
  ⟨fun k member => slots.small k (sub.subset member), slots.nodup.sublist sub⟩

theorem write_of_mem {b : Word} {slots : List (Nat × Word)} (apart : Slots (slots.map Prod.fst)) {k : Nat} {w : Word}
    (slot : (k, w) ∈ slots) (mem : Word → Word) : write b slots mem (b + BitVec.ofNat 32 k) = w := by
  have placed : (b + BitVec.ofNat 32 k, w) ∈ slots.map fun s => (b + BitVec.ofNat 32 s.1, s.2) :=
    List.mem_map.mpr ⟨(k, w), slot, rfl⟩
  refine updates_of_mem ?_ placed mem
  rw [List.map_map]
  have keys : slots.map (Prod.fst ∘ fun s => (b + BitVec.ofNat 32 s.1, s.2)) =
      (slots.map Prod.fst).map fun k => b + BitVec.ofNat 32 k := by
    rw [List.map_map]
    rfl
  rw [keys]
  exact apart.nodup.map_on fun k member k' member' => slot_inj (apart.small k member) (apart.small k' member')

theorem write_of_not_mem {b : Word} {slots : List (Nat × Word)} (apart : Slots (slots.map Prod.fst)) {k : Nat}
    (short : k < 2 ^ 32) (absent : k ∉ slots.map Prod.fst) (mem : Word → Word) :
    write b slots mem (b + BitVec.ofNat 32 k) = mem (b + BitVec.ofNat 32 k) := by
  refine updates_of_not_mem (fun member => ?_) mem
  rw [List.map_map] at member
  obtain ⟨slot, inside, same⟩ := List.mem_map.mp member
  have there := List.mem_map_of_mem (f := Prod.fst) inside
  exact absent (slot_inj (apart.small _ there) short same ▸ there)

/-! ## Registers and memory -/

namespace Data

def get (d : Data) (r : Reg) : Word := if r = zero then 0 else d.gpr r

def set (d : Data) (r : Reg) (w : Word) : Data := { d with gpr := Function.update d.gpr r w }

def setMem (d : Data) (mem : Word → Word) : Data := { d with mem := mem }

@[simp] theorem get_zero (d : Data) : d.get zero = 0 := rfl

theorem get_set_self (d : Data) {r : Reg} (w : Word) (some : r ≠ zero) : (d.set r w).get r = w := by
  rw [get, if_neg some]
  exact Function.update_self ..

theorem get_set_of_ne (d : Data) {r r' : Reg} (w : Word) (differ : r' ≠ r) : (d.set r w).get r' = d.get r' := by
  have same : (d.set r w).gpr r' = d.gpr r' := Function.update_of_ne differ ..
  rw [get, get, same]

theorem get_updates_of_mem (d : Data) {slots : List (Reg × Word)} (nodup : (slots.map Prod.fst).Nodup) {s : Reg × Word}
    (some : s.1 ≠ zero) (slot : s ∈ slots) : ({ d with gpr := updates slots d.gpr } : Data).get s.1 = s.2 := by
  rw [get, if_neg some]
  exact updates_of_mem nodup slot _

theorem get_updates_of_not_mem (d : Data) {slots : List (Reg × Word)} {r : Reg} (absent : r ∉ slots.map Prod.fst) :
    ({ d with gpr := updates slots d.gpr } : Data).get r = d.get r :=
  congrArg (fun w => if r = zero then 0 else w) (updates_of_not_mem absent _)

@[simp] theorem set_mem (d : Data) (r : Reg) (w : Word) : (d.set r w).mem = d.mem := rfl

@[simp] theorem setMem_get (d : Data) (mem : Word → Word) (r : Reg) : (d.setMem mem).get r = d.get r := rfl

@[simp] theorem setMem_mem (d : Data) (mem : Word → Word) : (d.setMem mem).mem = mem := rfl

end Data

def Aligned (a : Word) : Prop := a.toNat % 4 = 0

instance (a : Word) : Decidable (Aligned a) := inferInstanceAs (Decidable (a.toNat % 4 = 0))

theorem Aligned.add {a b : Word} (left : Aligned a) (right : Aligned b) : Aligned (a + b) := by
  unfold Aligned at *
  rw [BitVec.toNat_add]
  omega

/-! ## Instructions -/

/-- Instructions that go on with the next one. `li` is the assembler's macro, also for `la`. -/
inductive Op
  | nop
  | li (rt : Reg) (w : Word)
  | lui (rt : Reg) (imm : BitVec 16)
  | addiu (rt rs : Reg) (imm : Int)
  | and (rd rs rt : Reg)
  | move (rd rs : Reg)
  | lw (rt : Reg) (ofs : Int) (base : Reg)
  | sw (rt : Reg) (ofs : Int) (base : Reg)
  | mflo (rd : Reg)
  | mfhi (rd : Reg)
  | mfc0 (rt rd : Reg)
  | mtc0 (rt rd : Reg)
  | cfc0 (rt rd : Reg)
  | cfc1 (rt rd : Reg)
  | ctc1 (rt rd : Reg)
  | lwc1 (ft : Reg) (ofs : Int) (base : Reg)
  | swc1 (ft : Reg) (ofs : Int) (base : Reg)
  | ulvq (m : Fin 8) (c : Fin 4) (ofs : Int) (base : Reg)
  | usvq (m : Fin 8) (c : Fin 4) (ofs : Int) (base : Reg)
  deriving DecidableEq

/-- What can be moved to a register. -/
inductive Special
  | lo
  | hi
  | cop0 (r : Reg)
  | ctrl0 (r : Reg)
  | ctrl1 (r : Reg)

def Op.ofSpecial (rt : Reg) : Special → Op
  | .lo => .mflo rt
  | .hi => .mfhi rt
  | .cop0 r => .mfc0 rt r
  | .ctrl0 r => .cfc0 rt r
  | .ctrl1 r => .cfc1 rt r

def Data.special (d : Data) : Special → Word
  | .lo => d.lo
  | .hi => d.hi
  | .cop0 r => d.cop0 r
  | .ctrl0 r => d.ctrl0 r
  | .ctrl1 r => d.ctrl1 r

inductive Instr
  | op (o : Op)
  | j (target : Word)
  | jal (target : Word)
  | jr (rs : Reg)
  | jalr (rs : Reg)
  | beq (rs rt : Reg) (target : Word)
  /-- A likely branch: its delay slot is skipped where it is not taken. -/
  | bnel (rs rt : Reg) (target : Word)
  | eret
  deriving DecidableEq

namespace Data

def addr (d : Data) (base : Reg) (ofs : Int) : Word := d.get base + BitVec.ofInt 32 ofs

/-- What happens at an aligned address; an address error otherwise. -/
def access (a : Word) (d : Data) : Option Data := if Aligned a then some d else none

end Data

/-- Where an exception is left from (`EPC`). -/
abbrev epc : Reg := 14

def column (w : Fin 4 → Word) : List (Nat × Word) := [(0, w 0), (4, w 1), (8, w 2), (12, w 3)]

def Op.effect (d : Data) : Op → Option Data
  | .nop => some d
  | .li rt w => some (d.set rt w)
  | .lui rt imm => some (d.set rt (imm ++ (0 : BitVec 16)))
  | .addiu rt rs imm => some (d.set rt (d.get rs + BitVec.ofInt 32 imm))
  | .and rd rs rt => some (d.set rd (d.get rs &&& d.get rt))
  | .move rd rs => some (d.set rd (d.get rs))
  | .lw rt ofs base => Data.access (d.addr base ofs) (d.set rt (d.mem (d.addr base ofs)))
  | .sw rt ofs base =>
      Data.access (d.addr base ofs) (d.setMem (write (d.addr base ofs) [(0, d.get rt)] d.mem))
  | .mflo rd => some (d.set rd d.lo)
  | .mfhi rd => some (d.set rd d.hi)
  | .mfc0 rt rd => some (d.set rt (d.cop0 rd))
  | .mtc0 rt rd => some { d with cop0 := Function.update d.cop0 rd (d.get rt) }
  | .cfc0 rt rd => some (d.set rt (d.ctrl0 rd))
  | .cfc1 rt rd => some (d.set rt (d.ctrl1 rd))
  | .ctc1 rt rd => some { d with ctrl1 := Function.update d.ctrl1 rd (d.get rt) }
  | .lwc1 ft ofs base =>
      Data.access (d.addr base ofs) { d with fpr := Function.update d.fpr ft (d.mem (d.addr base ofs)) }
  | .swc1 ft ofs base =>
      Data.access (d.addr base ofs) (d.setMem (write (d.addr base ofs) [(0, d.fpr ft)] d.mem))
  | .ulvq m c ofs base =>
      Data.access (d.addr base ofs)
        { d with vfpu := Function.update d.vfpu (m, c) fun i =>
            d.mem (d.addr base ofs + BitVec.ofNat 32 (4 * i)) }
  | .usvq m c ofs base =>
      Data.access (d.addr base ofs) (d.setMem (write (d.addr base ofs) (column (d.vfpu (m, c))) d.mem))

theorem effect_ofSpecial (rt : Reg) (s : Special) (d : Data) : (Op.ofSpecial rt s).effect d = some (d.set rt (d.special s)) := by
  cases s <;> rfl

def effects : List Op → Data → Option Data
  | [], d => some d
  | o :: ops, d => (o.effect d).bind (effects ops)

theorem effects_append (ops ops' : List Op) (d : Data) :
    effects (ops ++ ops') d = (effects ops d).bind (effects ops') := by
  induction ops generalizing d with
  | nil => rfl
  | cons o ops ih =>
      rw [List.cons_append, effects, effects, Option.bind_assoc]
      exact congrArg _ (funext ih)

@[simp] theorem effects_one (o : Op) (d : Data) : effects [o] d = o.effect d := Option.bind_fun_some _

/-! ## Machines -/

/-- A function of other code: where it was entered, with what and what it left. -/
structure Called where
  entry : Word
  before : Data
  after : Data

structure State where
  pc : Word
  npc : Word
  data : Data
  calls : List Called

/-- About to execute what is at `a`, and what follows it. -/
abbrev State.at (a : Word) (d : Data) (calls : List Called) : State := ⟨a, a + 4, d, calls⟩

structure Machine where
  code : Word → Option Instr
  /-- Functions that return to `ra` whatever they do. -/
  external : Word → Option (Data → Data)

/-- The instructions are in the code from `a` on. -/
def Loaded (code : Word → Option Instr) : Word → List Instr → Prop
  | _, [] => True
  | a, i :: is => code a = some i ∧ Loaded code (a + 4) is

instance decidableLoaded (code : Word → Option Instr) : (a : Word) → (is : List Instr) → Decidable (Loaded code a is)
  | _, [] => .isTrue trivial
  | a, i :: is =>
      have := decidableLoaded code (a + 4) is
      inferInstanceAs (Decidable (code a = some i ∧ Loaded code (a + 4) is))

/-- Pieces of code, each from its own address on. -/
def placed (pieces : List (Word × List Instr)) (a : Word) : Option Instr :=
  pieces.findSome? fun p => if (a - p.1).toNat % 4 = 0 then p.2[(a - p.1).toNat / 4]? else none

theorem loaded_append {code : Word → Option Instr} {a : Word} {is is' : List Instr} :
    Loaded code a (is ++ is') ↔ Loaded code a is ∧ Loaded code (a + BitVec.ofNat 32 (4 * is.length)) is' := by
  induction is generalizing a with
  | nil => simp [Loaded]
  | cons i is ih =>
      have next : a + 4 + BitVec.ofNat 32 (4 * is.length) = a + BitVec.ofNat 32 (4 * (i :: is).length) := by
        rw [List.length_cons, Nat.mul_add, BitVec.add_assoc, Nat.add_comm, BitVec.ofNat_add]
        rfl
      rw [List.cons_append, Loaded, Loaded, ih, next, and_assoc]

def Instr.exec (s : State) : Instr → Option State
  | .op o => (o.effect s.data).map fun d => ⟨s.npc, s.npc + 4, d, s.calls⟩
  | .j target => some ⟨s.npc, target, s.data, s.calls⟩
  | .jal target => some ⟨s.npc, target, s.data.set ra (s.pc + 8), s.calls⟩
  | .jr rs => some ⟨s.npc, s.data.get rs, s.data, s.calls⟩
  | .jalr rs => some ⟨s.npc, s.data.get rs, s.data.set ra (s.pc + 8), s.calls⟩
  | .beq rs rt target =>
      some ⟨s.npc, if s.data.get rs = s.data.get rt then target else s.npc + 4, s.data, s.calls⟩
  | .bnel rs rt target =>
      if s.data.get rs ≠ s.data.get rt then some ⟨s.npc, target, s.data, s.calls⟩
      else some ⟨s.npc + 4, s.npc + 8, s.data, s.calls⟩
  | .eret => some (.at (s.data.cop0 epc) s.data s.calls)

namespace Machine

def step (m : Machine) (s : State) : Option State :=
  match m.code s.pc with
  | some i => i.exec s
  | none => (m.external s.pc).map fun f =>
      .at (s.data.get ra) (f s.data) (s.calls ++ [⟨s.pc, s.data, f s.data⟩])

def Reaches (m : Machine) : State → State → Prop := StateTransition.Reaches m.step

variable {m : Machine} {a b target : Word} {d d' : Data} {calls : List Called}

theorem Reaches.trans {s s' s'' : State} (first : m.Reaches s s') (rest : m.Reaches s' s'') : m.Reaches s s'' :=
  Relation.ReflTransGen.trans first rest

theorem reaches_of_step {s s' : State} (step : m.step s = some s') : m.Reaches s s' := Relation.ReflTransGen.single step

theorem step_code {s : State} {i : Instr} (here : m.code s.pc = some i) : m.step s = i.exec s := by
  rw [step, here]

theorem reaches_ops {ops : List Op} (loaded : Loaded m.code a (ops.map .op)) (ran : effects ops d = some d')
    (next : a + BitVec.ofNat 32 (4 * ops.length) = b) : m.Reaches (.at a d calls) (.at b d' calls) := by
  subst next
  induction ops generalizing a d with
  | nil =>
      cases ran
      rw [List.length_nil, Nat.mul_zero, BitVec.add_zero]
      exact .refl
  | cons o ops ih =>
      obtain ⟨here, there⟩ := loaded
      obtain ⟨d₁, first, rest⟩ := Option.bind_eq_some_iff.mp ran
      have next : a + 4 + BitVec.ofNat 32 (4 * ops.length) = a + BitVec.ofNat 32 (4 * (o :: ops).length) := by
        rw [List.length_cons, Nat.mul_add, BitVec.add_assoc, Nat.add_comm, BitVec.ofNat_add]
        rfl
      have step : m.step (.at a d calls) = some (.at (a + 4) d₁ calls) := by
        rw [step_code here, Instr.exec, first]
        rfl
      rw [← next]
      exact (reaches_of_step step).trans (ih there rest)

/-- A jump or a branch, to the next but one where it is not taken, after its delay slot. -/
theorem reaches_delayed {i : Instr} {o : Op} {d₁ : Data} (loaded : Loaded m.code a [i, .op o])
    (jump : i.exec (.at a d calls) = some ⟨a + 4, target, d₁, calls⟩) (slot : o.effect d₁ = some d') :
    m.Reaches (.at a d calls) (.at target d' calls) := by
  obtain ⟨here, there, -⟩ := loaded
  have second : m.step ⟨a + 4, target, d₁, calls⟩ = some (.at target d' calls) := by
    rw [step_code there, Instr.exec, slot]
    rfl
  exact (reaches_of_step ((step_code here).trans jump)).trans (reaches_of_step second)

theorem reaches_beq {rs rt : Reg} {o : Op} (loaded : Loaded m.code a [.beq rs rt target, .op o])
    (same : d.get rs = d.get rt) (slot : o.effect d = some d') : m.Reaches (.at a d calls) (.at target d' calls) :=
  reaches_delayed loaded (by rw [Instr.exec, if_pos same]) slot

theorem reaches_beq_not {rs rt : Reg} {o : Op} (loaded : Loaded m.code a [.beq rs rt target, .op o])
    (differ : d.get rs ≠ d.get rt) (slot : o.effect d = some d') (next : a + 8#32 = b) :
    m.Reaches (.at a d calls) (.at b d' calls) := by
  subst next
  refine reaches_delayed loaded ?_ slot
  rw [Instr.exec, if_neg differ, BitVec.add_assoc]
  rfl

theorem reaches_bnel {rs rt : Reg} {o : Op} (loaded : Loaded m.code a [.bnel rs rt target, .op o])
    (differ : d.get rs ≠ d.get rt) (slot : o.effect d = some d') : m.Reaches (.at a d calls) (.at target d' calls) :=
  reaches_delayed loaded (by rw [Instr.exec, if_pos differ]) slot

theorem reaches_bnel_not {rs rt : Reg} {i : Instr} (loaded : Loaded m.code a [.bnel rs rt target, i])
    (same : d.get rs = d.get rt) (next : a + 8#32 = b) : m.Reaches (.at a d calls) (.at b d calls) := by
  subst next
  have first : a + 4 + 4 = a + 8#32 := BitVec.add_assoc ..
  have second : a + 4 + 8 = a + 8#32 + 4 := by
    rw [BitVec.add_assoc, BitVec.add_assoc]
    rfl
  apply reaches_of_step
  rw [step_code loaded.1, Instr.exec, if_neg (not_not.mpr same), first, second]

theorem reaches_eret (loaded : m.code a = some .eret) : m.Reaches (.at a d calls) (.at (d.cop0 epc) d calls) :=
  reaches_of_step ((step_code loaded).trans rfl)

theorem reaches_external {f : Data → Data} (outside : m.code a = none) (function : m.external a = some f) :
    m.Reaches (.at a d calls) (.at (d.get ra) (f d) (calls ++ [⟨a, d, f d⟩])) := by
  apply reaches_of_step
  rw [step, outside, function]
  rfl

/-- Code ends where there is neither code nor a function. -/
theorem eval_eq {s s' : State} (run : m.Reaches s s') (code : m.code s'.pc = none) (external : m.external s'.pc = none) :
    StateTransition.eval m.step s = Part.some s' := by
  have ends : m.step s' = none := by
    rw [step, code, external]
    rfl
  exact Part.eq_some_iff.mpr (StateTransition.mem_eval.mpr ⟨run, ends⟩)

end Machine

end Psplink.Lib.Mips
