import Psplink.RemoteJoy.Agreement

/-!
# What a game reads

The functions of tools/remotejoy/main.c that stand in for those of the controller driver: they ask the driver and put the
state of the joypad on the PC over its samples.
-/

namespace Psplink.RemoteJoy
open Psplink.Lib

/-! ## The samples -/

/-- The axis that is further from the middle. -/
def mapAxis (real new : Int) : Int :=
  let val1 := real - 127
  let val2 := new - 127
  if val2.natAbs < val1.natAbs then real else new

/-- A turn of the loop of `add_values`. -/
def addValue (joy : SceCtrlData) (neg : Bool) (data : SceCtrlData) : SceCtrlData where
  buttons := if neg then data.buttons &&& ~~~joy.buttons else data.buttons ||| joy.buttons
  lx := UInt8.ofNat (mapAxis data.lx.toNat joy.lx.toNat).toNat
  ly := UInt8.ofNat (mapAxis data.ly.toNat joy.ly.toNat).toNat

def addValues (joy : SceCtrlData) (padData : List SceCtrlData) (count : Nat) (neg : Bool) : List SceCtrlData :=
  (padData.take count).map (addValue joy neg) ++ padData.drop count

/-! ## The functions -/

inductive CtrlFunction
  | readBufferPositive
  | peekBufferPositive
  | readBufferNegative
  | peekBufferNegative
deriving DecidableEq

/-- The controller driver: what its functions return for so many samples, and the samples. -/
abbrev Controller (σ : Type) := CtrlFunction → (count : Int) → σ → (Int × List SceCtrlData) × σ

section
variable {σ : Type} (ctrl : Controller σ) (joy : SceCtrlData) (count : Int) (w : σ)

/-- The four functions that differ in what they call and in `neg`. -/
def withValues (f : CtrlFunction) (neg : Bool) : (Int × List SceCtrlData) × σ :=
  let asked := ctrl f count w
  if asked.1.1 ≤ 0 then asked else ((asked.1.1, addValues joy asked.1.2 asked.1.1.toNat neg), asked.2)

def readBufferPositive : (Int × List SceCtrlData) × σ := withValues ctrl joy count w .readBufferPositive false
def peekBufferPositive : (Int × List SceCtrlData) × σ := withValues ctrl joy count w .peekBufferPositive false
def peekBufferNegative : (Int × List SceCtrlData) × σ := withValues ctrl joy count w .peekBufferNegative true

/-- The functions that `main_thread` hooks. -/
inductive Hooked
  | sceCtrlReadBufferPositive
  | sceCtrlPeekBufferPositive
  | sceCtrlReadBufferNegative
  | sceCtrlPeekBufferNegative
  | vshCtrlReadBufferPositive

/-- What a game gets that calls one of them: no hook leads to `read_buffer_negative`. -/
def Hooked.call : Hooked → (Int × List SceCtrlData) × σ
  | .sceCtrlReadBufferPositive => readBufferPositive ctrl joy count w
  | .sceCtrlPeekBufferPositive => peekBufferPositive ctrl joy count w
  | .sceCtrlReadBufferNegative => peekBufferNegative ctrl joy count w
  | .sceCtrlPeekBufferNegative => peekBufferNegative ctrl joy count w
  | .vshCtrlReadBufferPositive => readBufferPositive ctrl joy count w

end

namespace Hooked

/-- In the samples the bit of a button that is held is clear. -/
def negative : Hooked → Bool
  | .sceCtrlReadBufferNegative | .sceCtrlPeekBufferNegative => true
  | _ => false

/-- What the driver is asked for. -/
def asks : Hooked → CtrlFunction
  | .sceCtrlReadBufferPositive | .vshCtrlReadBufferPositive => .readBufferPositive
  | .sceCtrlPeekBufferPositive => .peekBufferPositive
  | .sceCtrlReadBufferNegative | .sceCtrlPeekBufferNegative => .peekBufferNegative

theorem call_eq {σ : Type} (f : Hooked) (ctrl : Controller σ) (joy : SceCtrlData) (count : Int) (w : σ) :
    f.call ctrl joy count w = withValues ctrl joy count w f.asks f.negative := by
  cases f <;> rfl

end Hooked

/-! ## What they show -/

/-- The buttons that a sample says are held. -/
def SceCtrlData.held (data : SceCtrlData) (negative : Bool) : Word := if negative then ~~~data.buttons else data.buttons

/-- An axis of a sample, where the pad is at `real` and the PC at `new`. -/
structure Further (real new axis : UInt8) : Prop where
  either : axis = real ∨ axis = new
  most : ((real.toNat : Int) - 127).natAbs ≤ ((axis.toNat : Int) - 127).natAbs ∧
    ((new.toNat : Int) - 127).natAbs ≤ ((axis.toNat : Int) - 127).natAbs

theorem further_mapAxis (real new : UInt8) : Further real new (UInt8.ofNat (mapAxis real.toNat new.toNat).toNat) := by
  unfold mapAxis
  dsimp only
  split
  · next less =>
      rw [Int.toNat_natCast, UInt8.ofNat_toNat]
      exact ⟨.inl rfl, le_rfl, less.le⟩
  · next less =>
      rw [Int.toNat_natCast, UInt8.ofNat_toNat]
      exact ⟨.inr rfl, not_lt.mp less, le_rfl⟩

/-- A sample `y` instead of `x`: what is held on either of the two is held. -/
structure Shows (negative : Bool) (joy x y : SceCtrlData) : Prop where
  held : y.held negative = x.held negative ||| joy.buttons
  lx : Further x.lx joy.lx y.lx
  ly : Further x.ly joy.ly y.ly

theorem shows_addValue (neg : Bool) (joy x : SceCtrlData) : Shows neg joy x (addValue joy neg x) where
  held := by
    cases neg with
    | false => rfl
    | true =>
        change ~~~(x.buttons &&& ~~~joy.buttons) = ~~~x.buttons ||| joy.buttons
        rw [BitVec.not_and, BitVec.not_not]
  lx := further_mapAxis _ _
  ly := further_mapAxis _ _

/-- From what the driver returns to what the game gets: as many samples, and only those that the driver has filled are
changed. -/
structure Answers (negative : Bool) (joy : SceCtrlData) (asked got : Int × List SceCtrlData) : Prop where
  ret : got.1 = asked.1
  length : got.2.length = asked.2.length
  filled : ∀ i (below : i < got.2.length) (inside : i < asked.2.length), (i : Int) < asked.1 →
    Shows negative joy (asked.2[i]) (got.2[i])
  others : ∀ i (below : i < got.2.length) (inside : i < asked.2.length), asked.1 ≤ i → got.2[i] = asked.2[i]

theorem answers_withValues {σ : Type} (ctrl : Controller σ) (joy : SceCtrlData) (count : Int) (w : σ) (f : CtrlFunction)
    (neg : Bool) : Answers neg joy (ctrl f count w).1 (withValues ctrl joy count w f neg).1 ∧
      (withValues ctrl joy count w f neg).2 = (ctrl f count w).2 := by
  unfold withValues
  dsimp only
  split
  · next none =>
      refine ⟨⟨rfl, rfl, fun i _ _ filled => ?_, fun _ _ _ _ => rfl⟩, rfl⟩
      omega
  · next some_ =>
      have whole : ∀ xs : List SceCtrlData, ∀ n : Nat, (addValues joy xs n neg).length = xs.length := by
        intro xs n
        rw [addValues, List.length_append, List.length_map, ← List.length_append, List.take_append_drop]
      refine ⟨⟨rfl, whole _ _, fun i below inside filled => ?_, fun i below inside later => ?_⟩, rfl⟩
      · have early : i < (((ctrl f count w).1.2.take (ctrl f count w).1.1.toNat).map (addValue joy neg)).length := by
          rw [List.length_map, List.length_take]
          omega
        simp only [addValues]
        rw [List.getElem_append_left early, List.getElem_map, List.getElem_take]
        exact shows_addValue neg joy _
      · have late : (((ctrl f count w).1.2.take (ctrl f count w).1.1.toNat).map (addValue joy neg)).length ≤ i := by
          rw [List.length_map, List.length_take]
          omega
        simp only [addValues]
        rw [List.getElem_append_right late, List.getElem_drop]
        congr 1
        rw [List.length_map, List.length_take]
        omega

/-! ## From the joystick to the game -/

instance (s : Remotejoy) (e : JoyStep) : Decidable (WholePackets s e) :=
  JoyStep.casesOn (motive := fun e => Decidable (WholePackets s e)) e (fun e => instDecidableLossless s (.joystick e))
    (fun readbytes => @decidable_of_iff _ (readbytes % sizeof JoyEvent = 0) Nat.dvd_iff_mod_eq_zero.symm (Nat.decEq _ _))
    (instDecidableLossless s .fill) (instDecidableLossless s .read) (instDecidableLossless s .take)
    (instDecidableLossless s .abandon) (instDecidableLossless s .readSection) (instDecidableLossless s .flush)
    (instDecidableLossless s .flushSection)

def pressedRan : Remotejoy :=
  (System.exec (Remotejoy.attempt joyConfig WholePackets) Remotejoy.registered wholeRun).getD Remotejoy.registered

/-- A pad with nothing held. -/
def calmPad : Controller Unit := fun f count _ =>
  ((count, List.replicate count.toNat ⟨if f = .peekBufferNegative then ~~~0 else 0, 127, 127⟩), ())

end Psplink.RemoteJoy
