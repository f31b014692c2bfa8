import Psplink.Memory.Search
import Psplink.Util.Handlepath

/-!
# Memory commands

The commands of psplink/shell.c that write to memory, copy it, save it and disassemble it, with each access to the
target's memory.
-/

namespace Psplink.Memory
open Psplink.Lib Psplink.Lib.Flat Psplink.Util Psplink.Address

/-! ## The target -/

structure Access where
  stores : Bool
  addr : Addr
  count : Nat

/-- The memory of the target, and the accesses to it so far. -/
structure Target where
  mem : Flat
  log : List Access

namespace Target

def get (t : Target) (addr : Addr) (count : Nat) : Target := { t with log := t.log ++ [⟨false, addr, count⟩] }

/-- So many bytes may be written, and these are. -/
def put (t : Target) (addr : Addr) (count : Nat) (data : Bytes) : Target :=
  ⟨store t.mem addr (data.take count), t.log ++ [⟨true, addr, count⟩]⟩

end Target

def target (env : Env) : Target := ⟨env.mem, []⟩

/-! ## The code -/

def align (width : Nat) (addr : Addr) : Addr := addr &&& ~~~BitVec.ofNat 32 (width - 1)

def pokeLoop (width : Nat) : List CStr → Addr → Int → Target → Target
  | [], _, _, t => t
  | arg :: args, addr, sizeLeft, t =>
      let (data, endp) := Strtoul.strtoul 0 arg.text
      let t := if endp = [] then t.put addr width (Packed.encode data) else t
      if sizeLeft - width ≤ 0 then t
      else pokeLoop width args (offset addr width) (sizeLeft - width) t

def poke (width : Nat) (attrib : Word) (env : Env) (argv : List CStr) : Int × Target :=
  match memDecode env (arg argv 0) with
  | none => (Shell.cmdOk, target env)
  | some addr =>
      let addr := align width addr
      let sizeLeft := env.memValidate addr attrib
      if width ≤ sizeLeft then (Shell.cmdOk, pokeLoop width (argv.drop 1) addr sizeLeft (target env))
      else (Shell.cmdError, target env)

def pokewCmd : Env → List CStr → Int × Target := poke 4 (memAttribWrite ||| memAttribWord)
def pokehCmd : Env → List CStr → Int × Target := poke 2 (memAttribWrite ||| memAttribHalf)
def pokebCmd : Env → List CStr → Int × Target := poke 1 (memAttribWrite ||| memAttribByte)

def fillLoop (width : Nat) (val : Word) : Nat → Addr → Target → Target
  | 0, _, t => t
  | turns + 1, addr, t => fillLoop width val turns (offset addr width) (t.put addr width (Packed.encode val))

def clip (size : Word) (sizeLeft : Nat) : Word :=
  if size > BitVec.ofNat 32 sizeLeft then BitVec.ofNat 32 sizeLeft else size

def fill (width : Nat) (attrib : Word) (env : Env) (argv : List CStr) : Int × Target :=
  match memDecode env (arg argv 0), memDecode env (arg argv 1) with
  | some addr, some size =>
      let addr := align width addr
      let size := clip size (env.memValidate addr attrib)
      match strtoint (arg argv 2).text with
      | none => (Shell.cmdError, target env)
      | some val => (Shell.cmdOk, fillLoop width val (size.toNat / width) addr (target env))
  | _, _ => (Shell.cmdOk, target env)

def fillwCmd : Env → List CStr → Int × Target := fill 4 (memAttribWrite ||| memAttribWord)
def fillhCmd : Env → List CStr → Int × Target := fill 2 (memAttribWrite ||| memAttribHalf)
def fillbCmd : Env → List CStr → Int × Target := fill 1 (memAttribWrite ||| memAttribByte)

def copymemCmd (env : Env) (argv : List CStr) : Int × Target :=
  match memDecode env (arg argv 0), memDecode env (arg argv 1), memDecode env (arg argv 2) with
  | some src, some dest, some size =>
      let srcsize := env.memValidate src (memAttribWrite ||| memAttribByte)
      let destsize := env.memValidate dest (memAttribWrite ||| memAttribByte)
      let size := clip size (if srcsize > destsize then destsize else srcsize)
      (Shell.cmdOk, ((target env).get src size.toNat).put dest size.toNat (bytesAt env.mem src size.toNat))
  | _, _, _ => (Shell.cmdOk, target env)

/-- The files of the target: what its calls give one after the other. -/
structure Files where
  drives : Drives
  currdir : Bytes
  opens : Bytes → Bool
  writes : List Int
  /-- An error is `none`, and nothing the end. -/
  reads : List (Option Bytes)

/-- Where there are no more results the last call fails. -/
def saveLoop (addr : Addr) (size : Int) : List Int → Int → Target → Target
  | [], written, t => if written < size then t.get (offset addr written.toNat) (size - written).toNat else t
  | ret :: writes, written, t =>
      if written < size then
        let t := t.get (offset addr written.toNat) (size - written).toNat
        if ret ≤ 0 then t else saveLoop addr size writes (written + ret) t
      else t

def savememCmd (files : Files) (env : Env) (argv : List CStr) : Int × Target :=
  match handlepath files.drives files.currdir (arg argv 2).text .file false with
  | none => (Shell.cmdError, target env)
  | some path =>
      let (size, endp) := Strtoul.strtoul 0 (arg argv 1).text
      if endp ≠ [] then (Shell.cmdError, target env)
      else
        match memDecode env (arg argv 0) with
        | none => (Shell.cmdError, target env)
        | some addr =>
            let sizeLeft : Int := env.memValidate addr (memAttribRead ||| memAttribByte)
            let size := if size.toInt > sizeLeft then sizeLeft else size.toInt
            if files.opens path then (Shell.cmdOk, saveLoop addr size files.writes 0 (target env))
            else (Shell.cmdOk, target env)

def loadLoop (addr : Addr) (size : Int) : List (Option Bytes) → Int → Target → Target
  | [], readbytes, t =>
      if readbytes < size then t.put (offset addr readbytes.toNat) (size - readbytes).toNat [] else t
  | ret :: reads, readbytes, t =>
      if readbytes < size then
        let count := (size - readbytes).toNat
        let data := (ret.getD []).take count
        let t := t.put (offset addr readbytes.toNat) count data
        if data = [] then t else loadLoop addr size reads (readbytes + data.length) t
      else t

def loadmemCmd (files : Files) (env : Env) (argv : List CStr) : Int × Target :=
  match handlepath files.drives files.currdir (arg argv 1).text .file true with
  | none => (Shell.cmdError, target env)
  | some path =>
      let (maxsize, endp) :=
        if 2 < argv.length then
          let (maxsize, endp) := Strtoul.strtoul 0 (arg argv 2).text
          (maxsize.toInt, endp)
        else (-1, [])
      if endp ≠ [] then (Shell.cmdError, target env)
      else
        match memDecode env (arg argv 0) with
        | none => (Shell.cmdError, target env)
        | some addr =>
            let sizeLeft : Int := env.memValidate addr (memAttribRead ||| memAttribByte)
            if files.opens path then
              let size := if maxsize ≥ 0 then if maxsize > sizeLeft then sizeLeft else maxsize else sizeLeft
              (Shell.cmdOk, loadLoop addr size files.reads 0 (target env))
            else (Shell.cmdOk, target env)

def disasmLoop : Nat → Addr → Target → Target
  | 0, _, t => t
  | count + 1, addr, t => disasmLoop count (offset addr 4) (t.get addr 4)

def disasmCmd (env : Env) (argv : List CStr) : Int × Target :=
  let count := if 1 < argv.length then (memDecode env (arg argv 1)).getD 0 else 1
  if count = 0 then (Shell.cmdError, target env)
  else
    match memDecode env (arg argv 0) with
    | none => (Shell.cmdOk, target env)
    | some addr =>
        let addr := align 4 addr
        let sizeLeft := env.memValidate addr (memAttribRead ||| memAttribWord ||| memAttribExec)
        let count := if sizeLeft / 4 < count.toNat then sizeLeft / 4 else count.toNat
        (Shell.cmdOk, disasmLoop count addr (target env))

/-! ## Accesses within a cover -/

/-- Every byte that is accessed is covered, and nothing else has changed. -/
structure Target.Within (cover : Bool → Addr → Prop) (mem : Flat) (t : Target) : Prop where
  log : ∀ access ∈ t.log, ∀ x, In access.addr access.count x → cover access.stores x
  changed : ∀ x, t.mem x ≠ mem x → cover true x

section Loops

variable {cover : Bool → Addr → Prop} {mem : Flat} {t : Target} {addr : Addr} {n : Nat}

theorem target_within (env : Env) : (target env).Within cover env.mem :=
  ⟨fun _ access => absurd access List.not_mem_nil, fun _ changed => absurd rfl changed⟩

theorem log_concat {stores : Bool} {count : Nat} (within : t.Within cover mem)
    (inside : ∀ x, In addr count x → cover stores x) :
    ∀ access ∈ t.log ++ [⟨stores, addr, count⟩], ∀ x, In access.addr access.count x → cover access.stores x := by
  intro access mem
  rcases List.mem_append.mp mem with before | last
  · exact within.log access before
  · rw [List.mem_singleton.mp last]
    exact inside

theorem get_within {count : Nat} (within : t.Within cover mem) (inside : ∀ x, In addr count x → cover false x) :
    (t.get addr count).Within cover mem := ⟨log_concat within inside, within.changed⟩

theorem put_within {count : Nat} {data : Bytes} (within : t.Within cover mem)
    (inside : ∀ x, In addr count x → cover true x) : (t.put addr count data).Within cover mem := by
  refine ⟨log_concat within inside, fun x changed => ?_⟩
  by_cases here : In addr count x
  · exact inside x here
  · refine within.changed x fun same => changed (Eq.trans (store_outside fun there => here ?_) same)
    exact Nat.lt_of_lt_of_le there (List.length_take_le count data)

theorem inside_of_offset {stores : Bool} {k m : Nat} (small : n ≤ 2 ^ 32) (inside : ∀ x, In addr n x → cover stores x)
    (fits : k + m ≤ n) : ∀ x, In (offset addr k) m x → cover stores x := fun x here =>
  inside x (in_of_offset fits small here)

/-- The size left stays a multiple of the width, so that there is room for another value while it is positive. -/
theorem pokeLoop_within {width : Nat} {args : List CStr} {k : Nat} (small : n ≤ 2 ^ 32)
    (inside : ∀ x, In addr n x → cover true x) (room : k + width ≤ n) (whole : width ∣ n - k)
    (within : t.Within cover mem) :
    (pokeLoop width args (offset addr k) ((n - k : Nat) : Int) t).Within cover mem := by
  induction args generalizing k t with
  | nil => exact within
  | cons arg args ih =>
      unfold pokeLoop
      dsimp only
      have written : (if (Strtoul.strtoul 0 arg.text).2 = [] then
          t.put (offset addr k) width (Packed.encode (Strtoul.strtoul 0 arg.text).1) else t).Within cover mem := by
        split
        · exact put_within within (inside_of_offset small inside room)
        · exact within
      by_cases last : ((n - k : Nat) : Int) - width ≤ 0
      · rwa [if_pos last]
      · rw [if_neg last, offset_offset]
        have rest : width ∣ n - (k + width) := by
          rw [← Nat.sub_sub]
          exact Nat.dvd_sub whole (Nat.dvd_refl width)
        have more := Nat.le_of_dvd (by omega) rest
        have left : ((n - k : Nat) : Int) - width = ((n - (k + width) : Nat) : Int) := by omega
        rw [left]
        exact ih (by omega) rest written

theorem fillLoop_within {width turns k : Nat} {val : Word} (small : n ≤ 2 ^ 32)
    (inside : ∀ x, In addr n x → cover true x) (room : k + turns * width ≤ n) (within : t.Within cover mem) :
    (fillLoop width val turns (offset addr k) t).Within cover mem := by
  induction turns generalizing k t with
  | zero => exact within
  | succ turns ih =>
      rw [Nat.succ_mul] at room
      rw [fillLoop, offset_offset]
      exact ih (by omega) (put_within within (inside_of_offset small inside (by omega)))

theorem disasmLoop_within {turns k : Nat} (small : n ≤ 2 ^ 32) (inside : ∀ x, In addr n x → cover false x)
    (room : k + turns * 4 ≤ n) (within : t.Within cover mem) :
    (disasmLoop turns (offset addr k) t).Within cover mem := by
  induction turns generalizing k t with
  | zero => exact within
  | succ turns ih =>
      rw [disasmLoop, offset_offset]
      exact ih (by omega) (get_within within (inside_of_offset small inside (by omega)))

theorem saveLoop_within {size written : Int} {writes : List Int} (small : n ≤ 2 ^ 32)
    (inside : ∀ x, In addr n x → cover false x) (room : size ≤ n) (started : 0 ≤ written) (within : t.Within cover mem) :
    (saveLoop addr size writes written t).Within cover mem := by
  induction writes generalizing written t with
  | nil =>
      unfold saveLoop
      split
      · exact get_within within (inside_of_offset small inside (by omega))
      · exact within
  | cons ret writes ih =>
      unfold saveLoop
      dsimp only
      by_cases more : written < size
      · rw [if_pos more]
        have wrote : (t.get (offset addr written.toNat) (size - written).toNat).Within cover mem :=
          get_within within (inside_of_offset small inside (by omega))
        split
        · exact wrote
        · exact ih (by omega) wrote
      · rwa [if_neg more]

theorem loadLoop_within {size readbytes : Int} {reads : List (Option Bytes)} (small : n ≤ 2 ^ 32)
    (inside : ∀ x, In addr n x → cover true x) (room : size ≤ n) (started : 0 ≤ readbytes)
    (within : t.Within cover mem) : (loadLoop addr size reads readbytes t).Within cover mem := by
  induction reads generalizing readbytes t with
  | nil =>
      unfold loadLoop
      split
      · exact put_within within (inside_of_offset small inside (by omega))
      · exact within
  | cons ret reads ih =>
      unfold loadLoop
      dsimp only
      by_cases more : readbytes < size
      · rw [if_pos more]
        have read : (t.put (offset addr readbytes.toNat) (size - readbytes).toNat
            ((ret.getD []).take (size - readbytes).toNat)).Within cover mem :=
          put_within within (inside_of_offset small inside (by omega))
        split
        · exact read
        · exact ih (by omega) read
      · rwa [if_neg more]

end Loops

/-! ## The commands -/

inductive Command where
  | pokew | pokeh | pokeb | fillw | fillh | fillb | copymem | loadmem | savemem | disasm

namespace Command

def run (files : Files) (env : Env) (argv : List CStr) : Command → Int × Target
  | pokew => pokewCmd env argv
  | pokeh => pokehCmd env argv
  | pokeb => pokebCmd env argv
  | fillw => fillwCmd env argv
  | fillh => fillhCmd env argv
  | fillb => fillbCmd env argv
  | copymem => copymemCmd env argv
  | loadmem => loadmemCmd files env argv
  | savemem => savememCmd files env argv
  | disasm => disasmCmd env argv

/-- Where a command starts to write, or to read: an address of its arguments, aligned. -/
def start (env : Env) (argv : List CStr) (stores : Bool) : Command → Option Addr
  | pokew | fillw | disasm => (memDecode env (arg argv 0)).map (align 4)
  | pokeh | fillh => (memDecode env (arg argv 0)).map (align 2)
  | pokeb | fillb | loadmem | savemem => memDecode env (arg argv 0)
  | copymem => memDecode env (arg argv (if stores then 1 else 0))

end Command

theorem dvd_align {width : Nat} (known : width = 1 ∨ width = 2 ∨ width = 4) (a : Addr) : width ∣ (align width a).toNat := by
  have cut (n : Nat) : a >>> n <<< n = a &&& BitVec.allOnes 32 <<< n := BitVec.shiftLeft_ushiftRight
  have shifted (n : Nat) : (a >>> n <<< n).toNat = a.toNat / 2 ^ n * 2 ^ n % 2 ^ 32 := by
    rw [BitVec.toNat_shiftLeft, BitVec.toNat_ushiftRight, Nat.shiftRight_eq_div_pow, Nat.shiftLeft_eq]
  rcases known with rfl | rfl | rfl
  · exact Nat.one_dvd _
  · change 2 ∣ (a &&& BitVec.allOnes 32 <<< 1).toNat
    rw [← cut, shifted]
    omega
  · change 4 ∣ (a &&& BitVec.allOnes 32 <<< 2).toNat
    rw [← cut, shifted]
    omega

theorem align_one (a : Addr) : align 1 a = a := by
  rw [align]
  exact BitVec.and_allOnes

theorem clip_le (size : Word) {sizeLeft : Nat} (small : sizeLeft < 2 ^ 32) : (clip size sizeLeft).toNat ≤ sizeLeft := by
  unfold clip
  split
  · exact (BitVec.toNat_ofNat _ _).trans_le (Nat.mod_le _ _)
  · next less =>
      have le := mt BitVec.lt_def.mpr less
      rw [BitVec.toNat_ofNat, Nat.mod_eq_of_lt small] at le
      omega

section Protected

variable {env : Env} {argv : List CStr}

/-- What the command starts to access there is covered. -/
def CoveredFrom (env : Env) (start : Bool → Option Addr) (stores : Bool) (x : Addr) : Prop :=
  ∃ a, start stores = some a ∧ Covered env a x

theorem covered_inside (on : env.protoff = false) (a : Addr) (attrib : Word) {start : Bool → Option Addr} {stores : Bool}
    (started : start stores = some a) : ∀ x, In a (env.memValidate a attrib) x → CoveredFrom env start stores x := by
  intro x inside
  refine ⟨a, started, ?_⟩
  rw [← offset_dist a x]
  exact covered_of_validated on inside

theorem poke_within (on : env.protoff = false) {width : Nat} (known : width = 1 ∨ width = 2 ∨ width = 4) (attrib : Word)
    (start : Bool → Option Addr) (started : start true = (memDecode env (arg argv 0)).map (align width)) :
    (poke width attrib env argv).2.Within (CoveredFrom env start) env.mem := by
  unfold poke
  cases decoded : memDecode env (arg argv 0) with
  | none => exact target_within env
  | some addr =>
      rw [decoded] at started
      dsimp only
      by_cases room : width ≤ env.memValidate (align width addr) attrib
      · rw [if_pos room]
        have whole : width ∣ env.memValidate (align width addr) attrib := by
          refine dvd_memValidate ?_ (dvd_align known addr) on
          rcases known with rfl | rfl | rfl
          all_goals decide
        have small := memValidate_small env (align width addr) attrib
        have looped := @pokeLoop_within _ env.mem (target env) (align width addr)
          (env.memValidate (align width addr) attrib) width (argv.drop 1) 0 (by omega)
          (covered_inside on (align width addr) attrib started) (by omega) whole (target_within env)
        rwa [offset_zero] at looped
      · rw [if_neg room]
        exact target_within env

theorem fill_within (on : env.protoff = false) (width : Nat) (attrib : Word) (start : Bool → Option Addr)
    (started : start true = (memDecode env (arg argv 0)).map (align width)) :
    (fill width attrib env argv).2.Within (CoveredFrom env start) env.mem := by
  unfold fill
  cases decoded : memDecode env (arg argv 0) with
  | none => exact target_within env
  | some addr =>
      rw [decoded] at started
      cases count : memDecode env (arg argv 1) with
      | none => exact target_within env
      | some size =>
          dsimp only
          cases value : strtoint (arg argv 2).text with
          | none => exact target_within env
          | some val =>
              have small := memValidate_small env (align width addr) attrib
              have clipped := @clip_le size (env.memValidate (align width addr) attrib) (by omega)
              have whole := Nat.div_mul_le_self (clip size (env.memValidate (align width addr) attrib)).toNat width
              have looped := @fillLoop_within _ env.mem (target env) (align width addr)
                (env.memValidate (align width addr) attrib) width
                ((clip size (env.memValidate (align width addr) attrib)).toNat / width) 0 val (by omega)
                (covered_inside on (align width addr) attrib started) (by omega) (target_within env)
              rw [offset_zero] at looped
              exact looped

theorem copymem_within (on : env.protoff = false) (start : Bool → Option Addr)
    (started : ∀ stores, start stores = memDecode env (arg argv (if stores then 1 else 0))) :
    (copymemCmd env argv).2.Within (CoveredFrom env start) env.mem := by
  unfold copymemCmd
  cases source : memDecode env (arg argv 0) with
  | none => exact target_within env
  | some src =>
      cases destination : memDecode env (arg argv 1) with
      | none => exact target_within env
      | some dest =>
          cases count : memDecode env (arg argv 2) with
          | none => exact target_within env
          | some size =>
              dsimp only
              have small := memValidate_small env src (memAttribWrite ||| memAttribByte)
              have small' := memValidate_small env dest (memAttribWrite ||| memAttribByte)
              generalize less : (if env.memValidate src (memAttribWrite ||| memAttribByte) >
                env.memValidate dest (memAttribWrite ||| memAttribByte) then
                  env.memValidate dest (memAttribWrite ||| memAttribByte)
                else env.memValidate src (memAttribWrite ||| memAttribByte)) = sizeLeft
              have both : sizeLeft ≤ env.memValidate src (memAttribWrite ||| memAttribByte) ∧
                  sizeLeft ≤ env.memValidate dest (memAttribWrite ||| memAttribByte) := by
                rw [← less]
                split
                all_goals omega
              have clipped := @clip_le size sizeLeft (by omega)
              have fromSrc := clipped.trans both.1
              have toDest := clipped.trans both.2
              refine put_within (get_within (target_within env) fun x inside => ?_) fun x inside => ?_
              · exact covered_inside on src _ ((started false).trans source) x (Nat.lt_of_lt_of_le inside fromSrc)
              · exact covered_inside on dest _ ((started true).trans destination) x (Nat.lt_of_lt_of_le inside toDest)

theorem savemem_within (on : env.protoff = false) (files : Files) (start : Bool → Option Addr)
    (started : start false = memDecode env (arg argv 0)) :
    (savememCmd files env argv).2.Within (CoveredFrom env start) env.mem := by
  unfold savememCmd
  cases path : handlepath files.drives files.currdir (arg argv 2).text .file false with
  | none => exact target_within env
  | some path =>
      dsimp only
      split
      · exact target_within env
      · cases decoded : memDecode env (arg argv 0) with
        | none => exact target_within env
        | some addr =>
            dsimp only
            split
            · have small := memValidate_small env addr (memAttribRead ||| memAttribByte)
              have fits : env.memValidate addr (memAttribRead ||| memAttribByte) ≤ 2 ^ 32 := by omega
              refine saveLoop_within fits (covered_inside on addr _ (started.trans decoded)) ?_ (Int.le_refl 0)
                (target_within env)
              split
              all_goals omega
            · exact target_within env

theorem loadmem_within (on : env.protoff = false) (files : Files) (start : Bool → Option Addr)
    (started : start true = memDecode env (arg argv 0)) :
    (loadmemCmd files env argv).2.Within (CoveredFrom env start) env.mem := by
  unfold loadmemCmd
  cases path : handlepath files.drives files.currdir (arg argv 1).text .file true with
  | none => exact target_within env
  | some path =>
      dsimp only
      generalize (if 2 < argv.length then
        ((Strtoul.strtoul 0 (arg argv 2).text).1.toInt, (Strtoul.strtoul 0 (arg argv 2).text).2) else (-1, [])) = limit
      split
      · exact target_within env
      · cases decoded : memDecode env (arg argv 0) with
        | none => exact target_within env
        | some addr =>
            dsimp only
            split
            · have small := memValidate_small env addr (memAttribRead ||| memAttribByte)
              have fits : env.memValidate addr (memAttribRead ||| memAttribByte) ≤ 2 ^ 32 := by omega
              refine loadLoop_within fits (covered_inside on addr _ (started.trans decoded)) ?_ (Int.le_refl 0)
                (target_within env)
              split_ifs
              all_goals omega
            · exact target_within env

theorem disasm_within (on : env.protoff = false) (start : Bool → Option Addr)
    (started : start false = (memDecode env (arg argv 0)).map (align 4)) :
    (disasmCmd env argv).2.Within (CoveredFrom env start) env.mem := by
  unfold disasmCmd
  dsimp only
  generalize (if 1 < argv.length then (memDecode env (arg argv 1)).getD 0 else 1) = count
  split
  · exact target_within env
  · cases decoded : memDecode env (arg argv 0) with
    | none => exact target_within env
    | some addr =>
        rw [decoded] at started
        dsimp only
        generalize attribs : memAttribRead ||| memAttribWord ||| memAttribExec = attrib
        have small := memValidate_small env (align 4 addr) attrib
        have whole := Nat.div_mul_le_self (env.memValidate (align 4 addr) attrib) 4
        have looped := @disasmLoop_within _ env.mem (target env) (align 4 addr) (env.memValidate (align 4 addr) attrib)
          (if env.memValidate (align 4 addr) attrib / 4 < count.toNat then env.memValidate (align 4 addr) attrib / 4
            else count.toNat) 0 (by omega) (covered_inside on (align 4 addr) attrib started)
          (by split <;> omega) (target_within env)
        rwa [offset_zero] at looped

theorem run_within (on : env.protoff = false) (files : Files) (command : Command) :
    (command.run files env argv).2.Within (CoveredFrom env (command.start env argv)) env.mem := by
  have byte : memDecode env (arg argv 0) = (memDecode env (arg argv 0)).map (align 1) := by
    rw [funext align_one, Option.map_id']
  cases command with
  | pokew => exact poke_within on (.inr (.inr rfl)) _ _ rfl
  | pokeh => exact poke_within on (.inr (.inl rfl)) _ _ rfl
  | pokeb => exact poke_within on (.inl rfl) _ _ byte
  | fillw => exact fill_within on 4 _ _ rfl
  | fillh => exact fill_within on 2 _ _ rfl
  | fillb => exact fill_within on 1 _ _ byte
  | copymem => exact copymem_within on _ fun _ => rfl
  | loadmem => exact loadmem_within on files _ rfl
  | savemem => exact savemem_within on files _ rfl
  | disasm => exact disasm_within on _ rfl

end Protected

/-- With protection on a command accesses nothing outside the region in which it starts to. -/
theorem protection_respected (env : Env) (on : env.protoff = false) (files : Files) (argv : List CStr)
    (command : Command) :
    (∀ access ∈ (command.run files env argv).2.log, ∀ x, In access.addr access.count x →
      ∃ a, command.start env argv access.stores = some a ∧ Covered env a x) ∧
    ∀ x, (command.run files env argv).2.mem x ≠ env.mem x →
      ∃ a, command.start env argv true = some a ∧ Covered env a x := by
  obtain ⟨log, changed⟩ := @run_within env argv on files command
  exact ⟨log, changed⟩

def pokewArgs : List CStr := ["0x8800000", "1"].map fun text => CStr.ofBytes (ascii text)

def noFiles : Files := ⟨⟨fun _ => false, fun _ => false⟩, [], fun _ => false, [], []⟩

theorem pokew_respected : (∀ access ∈ (Command.pokew.run noFiles bareEnv pokewArgs).2.log,
      ∀ x, In access.addr access.count x →
        ∃ a, Command.pokew.start bareEnv pokewArgs access.stores = some a ∧ Covered bareEnv a x) ∧
    ∀ x, (Command.pokew.run noFiles bareEnv pokewArgs).2.mem x ≠ bareEnv.mem x →
      ∃ a, Command.pokew.start bareEnv pokewArgs true = some a ∧ Covered bareEnv a x :=
  protection_respected bareEnv rfl noFiles pokewArgs .pokew

end Psplink.Memory
