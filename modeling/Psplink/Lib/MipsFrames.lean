import Psplink.Lib.Mips

/-!
# Frames

Runs of loads and of stores at offsets from a base register.
-/

namespace Psplink.Lib.Mips

/-- Slots at multiples of four from an aligned base. -/
structure InFrame (b : Word) (offsets : List Nat) : Prop where
  aligned : Aligned b
  offsets : ∀ k ∈ offsets, k % 4 = 0

theorem InFrame.slot {b : Word} {offsets : List Nat} (frame : InFrame b offsets) {k : Nat} (member : k ∈ offsets) :
    Aligned (b + BitVec.ofNat 32 k) := by
  refine frame.aligned.add ?_
  have multiple := frame.offsets k member
  unfold Aligned
  rw [BitVec.toNat_ofNat]
  omega

section

variable {ι : Type} {d : Data} {b : Word}

theorem addr_natCast (d : Data) (base : Reg) (k : Nat) : d.addr base k = d.get base + BitVec.ofNat 32 k := by
  rw [Data.addr, BitVec.ofInt_natCast]

/-- Instructions that each update the same part of the data. -/
theorem effects_updates {κ β : Type} [DecidableEq κ] (put : (κ → β) → Data) (same : (κ → β) → Prop) {op : ι → Op}
    {slots : ι → List (κ × β)} {is : List ι}
    (each : ∀ i ∈ is, ∀ f, same f →
      (op i).effect (put f) = some (put (updates (slots i) f)) ∧ same (updates (slots i) f))
    {f : κ → β} (start : same f) : effects (is.map op) (put f) = some (put (updates (is.flatMap slots) f)) := by
  induction is generalizing f with
  | nil => rfl
  | cons i is ih =>
      obtain ⟨first, others⟩ := List.forall_mem_cons.mp each
      obtain ⟨effect, start'⟩ := first f start
      rw [List.map_cons, effects, effect, List.flatMap_cons, updates_append]
      exact ih others start'

theorem effects_stores {op : ι → Op} {slots : ι → List (Nat × Word)} {is : List ι}
    (stores : ∀ i ∈ is, ∀ mem, (op i).effect (d.setMem mem) = some (d.setMem (write b (slots i) mem)))
    (mem : Word → Word) :
    effects (is.map op) (d.setMem mem) = some (d.setMem (write b (is.flatMap slots) mem)) := by
  rw [write, List.map_flatMap]
  exact effects_updates d.setMem (fun _ => True) (fun i member mem _ => ⟨stores i member mem, trivial⟩) trivial

theorem effects_loads {κ β : Type} [DecidableEq κ] (put : (κ → β) → Data) (same : (κ → β) → Prop) {op : ι → Op}
    {slot : ι → κ × β} {is : List ι}
    (loads : ∀ i ∈ is, ∀ f, same f →
      (op i).effect (put f) = some (put (Function.update f (slot i).1 (slot i).2)) ∧
        same (Function.update f (slot i).1 (slot i).2))
    {f : κ → β} (start : same f) : effects (is.map op) (put f) = some (put (updates (is.map slot) f)) := by
  rw [List.map_eq_flatMap (f := slot)]
  exact effects_updates put same loads start

end

theorem effect_sw {d : Data} {base : Reg} {b : Word} {k : Nat} (rt : Reg) (here : d.get base = b)
    (aligned : Aligned (b + BitVec.ofNat 32 k)) :
    (Op.sw rt k base).effect d = some (d.setMem (write b [(k, d.get rt)] d.mem)) := by
  subst here
  rw [Op.effect, addr_natCast, Data.access, if_pos aligned]
  simp only [write, List.map_cons, List.map_nil, BitVec.add_zero]

theorem effect_lw {d : Data} {base : Reg} {b : Word} {k : Nat} (rt : Reg) (here : d.get base = b)
    (aligned : Aligned (b + BitVec.ofNat 32 k)) :
    (Op.lw rt k base).effect d = some (d.set rt (d.mem (b + BitVec.ofNat 32 k))) := by
  subst here
  rw [Op.effect, addr_natCast, Data.access, if_pos aligned]

/-- The memory has the words of `slots` at their offsets from `b`. -/
def Holds (b : Word) (slots : List (Nat × Word)) (mem : Word → Word) : Prop :=
  ∀ s ∈ slots, mem (b + BitVec.ofNat 32 s.1) = s.2

theorem holds_write (b : Word) {slots : List (Nat × Word)} (apart : Slots (slots.map Prod.fst)) (mem : Word → Word) :
    Holds b slots (write b slots mem) := fun _ member => write_of_mem apart member mem

def sws (base : Reg) (slots : List (Nat × Reg)) : List Op := slots.map fun s => .sw s.2 s.1 base

def lws (base : Reg) (slots : List (Nat × Reg)) : List Op := slots.map fun s => .lw s.2 s.1 base

theorem effects_sws {d : Data} {base : Reg} {b : Word} (slots : List (Nat × Reg)) (here : d.get base = b)
    (frame : InFrame b (slots.map Prod.fst)) :
    effects (sws base slots) d = some (d.setMem (write b (slots.map fun s => (s.1, d.get s.2)) d.mem)) := by
  have each : ∀ s ∈ slots, ∀ mem, (Op.sw s.2 s.1 base).effect (d.setMem mem) =
      some (d.setMem (write b [(s.1, d.get s.2)] mem)) :=
    fun s member mem => effect_sw s.2 here (frame.slot (List.mem_map_of_mem member))
  rw [List.map_eq_flatMap]
  exact effects_stores each d.mem

theorem effects_lws {d : Data} {base : Reg} {b : Word} (slots : List (Nat × Reg)) (here : d.get base = b)
    (frame : InFrame b (slots.map Prod.fst)) (kept : base ∉ slots.map Prod.snd) :
    effects (lws base slots) d =
      some { d with gpr := updates (slots.map fun s => (s.2, d.mem (b + BitVec.ofNat 32 s.1))) d.gpr } := by
  subst here
  refine effects_loads (fun gpr => { d with gpr := gpr }) (fun gpr => gpr base = d.gpr base) ?_ rfl
  intro s member gpr same
  have here : ({ d with gpr := gpr } : Data).get base = d.get base :=
    congrArg (fun w => if base = zero then 0 else w) same
  have differ : base ≠ s.2 := fun equal => kept (equal ▸ List.mem_map_of_mem member)
  refine ⟨?_, ?_⟩
  · rw [Op.effect, addr_natCast, Data.access, here, if_pos (frame.slot (List.mem_map_of_mem member))]
    rfl
  · rw [Function.update_of_ne differ, same]

theorem lws_spec {d : Data} {base : Reg} {b : Word} (slots : List (Nat × Reg)) (here : d.get base = b)
    (frame : InFrame b (slots.map Prod.fst)) (kept : base ∉ slots.map Prod.snd) (nodup : (slots.map Prod.snd).Nodup) (some : zero ∉ slots.map Prod.snd) :
    ∃ d', effects (lws base slots) d = Option.some d' ∧
      (∀ s ∈ slots, d'.get s.2 = d.mem (b + BitVec.ofNat 32 s.1)) ∧
      (∀ r ∉ slots.map Prod.snd, d'.get r = d.get r) ∧ d' = { d with gpr := d'.gpr } := by
  have keys : (slots.map fun s => (s.2, d.mem (b + BitVec.ofNat 32 s.1))).map Prod.fst = slots.map Prod.snd := by
    rw [List.map_map]
    rfl
  refine ⟨_, effects_lws slots here frame kept, fun s member => ?_, fun r absent => ?_, rfl⟩
  · have differ : s.2 ≠ zero := fun none => some (none ▸ List.mem_map_of_mem member)
    exact d.get_updates_of_mem (by rw [keys]; exact nodup) differ (List.mem_map.mpr ⟨s, member, rfl⟩)
  · exact d.get_updates_of_not_mem (by rwa [keys])

/-! ## Scratch registers -/

/-- All but memory and some general registers is the same. -/
structure Scratch (rs : List Reg) (d d' : Data) : Prop where
  get : ∀ r ∉ rs, d'.get r = d.get r
  special : ∀ s, d'.special s = d.special s
  fpr : d'.fpr = d.fpr
  vfpu : d'.vfpu = d.vfpu

namespace Scratch

variable {rs : List Reg} {d d' d'' : Data}

theorem refl (rs : List Reg) (d : Data) : Scratch rs d d := ⟨fun _ _ => rfl, fun _ => rfl, rfl, rfl⟩

theorem trans (first : Scratch rs d d') (rest : Scratch rs d' d'') : Scratch rs d d'' :=
  ⟨fun r other => (rest.get r other).trans (first.get r other), fun s => (rest.special s).trans (first.special s),
    rest.fpr.trans first.fpr, rest.vfpu.trans first.vfpu⟩

theorem mono {rs' : List Reg} (inside : rs ⊆ rs') (same : Scratch rs d d') : Scratch rs' d d' :=
  ⟨fun r other => same.get r fun member => other (inside member), same.special, same.fpr, same.vfpu⟩

theorem set (first : Scratch rs d d') {r : Reg} (member : r ∈ rs) (w : Word) : Scratch rs d (d'.set r w) := by
  refine first.trans ⟨fun r' other => d'.get_set_of_ne _ fun same => other (same ▸ member), fun s => ?_, rfl, rfl⟩
  cases s <;> rfl

theorem setMem (first : Scratch rs d d') (mem : Word → Word) : Scratch rs d (d'.setMem mem) := by
  refine first.trans ⟨fun _ _ => rfl, fun s => ?_, rfl, rfl⟩
  cases s <;> rfl

theorem ctrl0 (same : Scratch rs d d') (r : Reg) : d'.ctrl0 r = d.ctrl0 r := same.special (.ctrl0 r)

theorem ctrl1 (same : Scratch rs d d') (r : Reg) : d'.ctrl1 r = d.ctrl1 r := same.special (.ctrl1 r)

theorem cop0 (same : Scratch rs d d') (r : Reg) : d'.cop0 r = d.cop0 r := same.special (.cop0 r)

end Scratch

/-! ## Special registers -/

/-- Special registers that are stored by way of `rt`. -/
def saveVia (rt base : Reg) (slots : List (Nat × Special)) : List Op :=
  slots.flatMap fun s => [.ofSpecial rt s.2, .sw rt s.1 base]

theorem effects_saveVia_from {d : Data} {rt base : Reg} {b : Word} (differ : base ≠ rt) (some : rt ≠ zero)
    (here : d.get base = b) {slots : List (Nat × Special)} (frame : InFrame b (slots.map Prod.fst)) (w : Word)
    (mem : Word → Word) :
    effects (saveVia rt base slots) ((d.set rt w).setMem mem) =
      Option.some ((d.set rt (slots.foldl (fun _ s => d.special s.2) w)).setMem
        (write b (slots.map fun s => (s.1, d.special s.2)) mem)) := by
  induction slots generalizing w mem with
  | nil => rfl
  | cons s slots ih =>
      have moved : (Op.ofSpecial rt s.2).effect ((d.set rt w).setMem mem) =
          Option.some ((d.set rt (d.special s.2)).setMem mem) := by
        have same : ((d.set rt w).setMem mem).special s.2 = d.special s.2 := by cases s.2 <;> rfl
        have again : ((d.set rt w).setMem mem).set rt (d.special s.2) = (d.set rt (d.special s.2)).setMem mem := by
          simp only [Data.set, Data.setMem, Function.update_idem]
        rw [effect_ofSpecial, same, again]
      have here' : ((d.set rt (d.special s.2)).setMem mem).get base = b := (d.get_set_of_ne _ differ).trans here
      have stored : (Op.sw rt s.1 base).effect ((d.set rt (d.special s.2)).setMem mem) =
          Option.some ((d.set rt (d.special s.2)).setMem (write b [(s.1, d.special s.2)] mem)) := by
        rw [effect_sw rt here' (frame.slot List.mem_cons_self), Data.setMem_get, Data.get_set_self _ _ some]
        rfl
      have rest := ih ⟨frame.aligned, fun k member => frame.offsets k (List.mem_cons_of_mem _ member)⟩ (d.special s.2)
        (write b [(s.1, d.special s.2)] mem)
      rw [saveVia, List.flatMap_cons, List.cons_append, List.cons_append, List.nil_append, effects, moved,
        Option.bind_some, effects, stored, Option.bind_some]
      exact rest

theorem effects_saveVia {d : Data} {rt base : Reg} {b : Word} (slots : List (Nat × Special)) (last : Nat × Special)
    (differ : base ≠ rt) (some : rt ≠ zero) (here : d.get base = b)
    (frame : InFrame b ((slots ++ [last]).map Prod.fst)) :
    effects (saveVia rt base (slots ++ [last])) d =
      Option.some ((d.set rt (d.special last.2)).setMem
        (write b ((slots ++ [last]).map fun s => (s.1, d.special s.2)) d.mem)) := by
  have same : (d.set rt (d.gpr rt)).setMem d.mem = d := by
    simp only [Data.set, Data.setMem, Function.update_eq_self]
  have all := effects_saveVia_from differ some here frame (d.gpr rt) d.mem
  rwa [same, List.foldl_append] at all

/-! ## Coprocessor registers -/

section

variable {d : Data} {base : Reg} {b : Word}

theorem effects_swc1s {slots : List (Nat × Reg)} (here : d.get base = b)
    (frame : InFrame b (slots.map Prod.fst)) :
    effects (slots.map fun s => .swc1 s.2 s.1 base) d =
      some (d.setMem (write b (slots.map fun s => (s.1, d.fpr s.2)) d.mem)) := by
  have each : ∀ s ∈ slots, ∀ mem, (Op.swc1 s.2 s.1 base).effect (d.setMem mem) =
      some (d.setMem (write b [(s.1, d.fpr s.2)] mem)) := by
    intro s member mem
    rw [Op.effect, addr_natCast, Data.access, Data.setMem_get, here, if_pos (frame.slot (List.mem_map_of_mem member))]
    simp only [write, List.map_cons, List.map_nil, BitVec.add_zero, Data.setMem_mem]
    rfl
  have all := effects_stores each d.mem
  rwa [← List.map_eq_flatMap] at all

theorem effects_lwc1s {slots : List (Nat × Reg)} (here : d.get base = b)
    (frame : InFrame b (slots.map Prod.fst)) :
    effects (slots.map fun s => .lwc1 s.2 s.1 base) d =
      some { d with fpr := updates (slots.map fun s => (s.2, d.mem (b + BitVec.ofNat 32 s.1))) d.fpr } := by
  refine effects_loads (fun fpr => { d with fpr := fpr }) (fun _ => True) (fun s member fpr _ => ⟨?_, trivial⟩) trivial
  subst here
  rw [Op.effect, addr_natCast, Data.access]
  exact if_pos (frame.slot (List.mem_map_of_mem member))

theorem mem_column (w : Fin 4 → Word) (j : Fin 4) : (4 * j.val, w j) ∈ column w := by
  have words : column w = (List.finRange 4).map fun j => (4 * j.val, w j) := rfl
  rw [words]
  exact List.mem_map.mpr ⟨j, List.mem_finRange j, rfl⟩

/-- The slots of the columns of matrices. -/
def columnSlots (vfpu : Fin 8 × Fin 4 → Fin 4 → Word) (columns : List (Nat × Fin 8 × Fin 4)) : List (Nat × Word) :=
  columns.flatMap fun s => (column (vfpu s.2)).map fun e => (s.1 + e.1, e.2)

theorem write_offset (b : Word) (k : Nat) (slots : List (Nat × Word)) (mem : Word → Word) :
    write (b + BitVec.ofNat 32 k) slots mem = write b (slots.map fun e => (k + e.1, e.2)) mem := by
  rw [write, write, List.map_map]
  congr 1
  exact List.map_congr_left fun e _ => by
    rw [BitVec.add_assoc, ← BitVec.ofNat_add]
    rfl

theorem effects_usvqs {columns : List (Nat × Fin 8 × Fin 4)} (here : d.get base = b)
    (frame : InFrame b (columns.map Prod.fst)) :
    effects (columns.map fun s => .usvq s.2.1 s.2.2 s.1 base) d =
      some (d.setMem (write b (columnSlots d.vfpu columns) d.mem)) := by
  have each : ∀ s ∈ columns, ∀ mem, (Op.usvq s.2.1 s.2.2 s.1 base).effect (d.setMem mem) =
      some (d.setMem (write b ((column (d.vfpu s.2)).map fun e => (s.1 + e.1, e.2)) mem)) := by
    intro s member mem
    rw [Op.effect, addr_natCast, Data.access, Data.setMem_get, here, if_pos (frame.slot (List.mem_map_of_mem member)),
      write_offset]
    rfl
  exact effects_stores each d.mem

theorem effects_ulvqs {columns : List (Nat × Fin 8 × Fin 4)} (here : d.get base = b)
    (frame : InFrame b (columns.map Prod.fst)) :
    effects (columns.map fun s => .ulvq s.2.1 s.2.2 s.1 base) d =
      some { d with
        vfpu := updates (columns.map fun s => (s.2, fun i =>
          d.mem (b + BitVec.ofNat 32 s.1 + BitVec.ofNat 32 (4 * i)))) d.vfpu } := by
  refine effects_loads (fun vfpu => { d with vfpu := vfpu }) (fun _ => True) (fun s member vfpu _ => ⟨?_, trivial⟩) trivial
  subst here
  rw [Op.effect, addr_natCast, Data.access]
  exact if_pos (frame.slot (List.mem_map_of_mem member))

end

end Psplink.Lib.Mips
