import Psplink.HostFs.Wire
import Psplink.Lib.Records

/-!
# The joystick on the PC

The loop of tools/remotejoy/pcsdl/remotejoy.c while its writes succeed, and what the records that it sends do to the
buttons of tools/remotejoy/main.c.
-/

namespace Psplink.RemoteJoy
open Psplink.Lib

abbrev Word := BitVec 32

/-! ## Records -/

def joyMagic : Word := 0x909ACCEF

abbrev typeButtonDown : Word := 1
abbrev typeButtonUp : Word := 2
abbrev typeAnalogY : Word := 3
abbrev typeAnalogX : Word := 4

structure JoyEvent where
  magic : Word
  type : Word
  value : Word
deriving DecidableEq

instance : Packed JoyEvent := .ofFields (fun e => (e.magic, e.type, e.value)) (fun (magic, type, value) => ⟨magic, type, value⟩)
  fun _ => rfl

structure SceCtrlData where
  buttons : Word
  lx : UInt8
  ly : UInt8
deriving DecidableEq

/-- What `module_start` puts there. -/
def currjoy : SceCtrlData := ⟨0, 0x80, 0x80⟩

/-- The switch of `main_thread`. -/
def SceCtrlData.apply (joy : SceCtrlData) (e : JoyEvent) : SceCtrlData :=
  if e.type = typeButtonUp then { joy with buttons := joy.buttons &&& ~~~e.value }
  else if e.type = typeButtonDown then { joy with buttons := joy.buttons ||| e.value }
  else if e.type = typeAnalogY then { joy with ly := UInt8.ofNat e.value.toNat }
  else if e.type = typeAnalogX then { joy with lx := UInt8.ofNat e.value.toNat }
  else joy

/-! ## The loop of the sender -/

abbrev ctrlSelect : Word := 0x000001
abbrev ctrlStart : Word := 0x000008
abbrev ctrlUp : Word := 0x000010
abbrev ctrlRight : Word := 0x000020
abbrev ctrlDown : Word := 0x000040
abbrev ctrlLeft : Word := 0x000080
abbrev ctrlLtrigger : Word := 0x000100
abbrev ctrlRtrigger : Word := 0x000200
abbrev ctrlTriangle : Word := 0x001000
abbrev ctrlCircle : Word := 0x002000
abbrev ctrlCross : Word := 0x004000
abbrev ctrlSquare : Word := 0x008000

/-- `g_bitmap` -/
def bitmap (button : Fin 12) : Word :=
  [ctrlCross, ctrlCircle, ctrlTriangle, ctrlSquare, ctrlLtrigger, ctrlRtrigger, ctrlStart, ctrlSelect, ctrlUp, ctrlDown,
    ctrlLeft, ctrlRight].get button

/-- A map of the joystick to the PSP. -/
structure Config where
  buttmap : Nat → Fin 12
  digital : Int
  analog : Int
  tol : Int

inductive SdlEvent
  | joyButtonDown (button : Nat)
  | joyButtonUp (button : Nat)
  | joyAxisMotion (axis : Nat) (value : Int)
deriving DecidableEq

def SdlEvent.IsAxis : SdlEvent → Prop
  | .joyAxisMotion .. => True
  | _ => False

structure Sender where
  buttonState : Word
  sent : List JoyEvent

namespace Sender

def start : Sender := ⟨0, []⟩

def sendEvent (s : Sender) (type value : Word) : Sender := { s with sent := s.sent ++ [⟨joyMagic, type, value⟩] }

/-- A direction is let go when the axis does not point there any more. -/
def release (s : Sender) (bit currButt : Word) : Sender :=
  if s.buttonState &&& bit ≠ 0 ∧ currButt ≠ bit then
    { s with buttonState := s.buttonState &&& ~~~bit }.sendEvent typeButtonUp bit
  else s

def press (s : Sender) (currButt : Word) : Sender :=
  if s.buttonState &&& currButt = 0 ∧ currButt ≠ 0 then
    { s with buttonState := s.buttonState ||| currButt }.sendEvent typeButtonDown currButt
  else s

/-- Where an axis points to. -/
def currButt (tol value : Int) (high low : Word) : Word := if value > tol then high else if value < -tol then low else 0

def digitalAxis (cfg : Config) (axis : Nat) (value : Int) (s : Sender) : Sender :=
  if axis % 2 = 1 then
    let cur := currButt cfg.tol value ctrlDown ctrlUp
    ((s.release ctrlUp cur).release ctrlDown cur).press cur
  else
    let cur := currButt cfg.tol value ctrlRight ctrlLeft
    ((s.release ctrlRight cur).release ctrlLeft cur).press cur

def analogAxis (axis : Nat) (value : Int) (s : Sender) : Sender :=
  let val := value + 32767
  s.sendEvent (if axis % 2 = 1 then typeAnalogY else typeAnalogX) (BitVec.ofInt 32 ((val * 255).tdiv (32767 * 2)))

/-- A turn of `mainloop`. -/
def turn (cfg : Config) (s : Sender) : SdlEvent → Sender
  | .joyButtonDown button =>
      let bits := bitmap (cfg.buttmap button)
      { s with buttonState := s.buttonState ||| bits }.sendEvent typeButtonDown bits
  | .joyButtonUp button =>
      let bits := bitmap (cfg.buttmap button)
      { s with buttonState := s.buttonState &&& ~~~bits }.sendEvent typeButtonUp bits
  | .joyAxisMotion axis value =>
      let s := if cfg.digital = ↑(axis / 2) then s.digitalAxis cfg axis value else s
      if cfg.analog = ↑(axis / 2) then s.analogAxis axis value else s

end Sender

/-! ## What is sent is the state -/

/-- What a record does to the buttons. -/
def pressed (buttons : Word) (e : JoyEvent) : Word :=
  if e.type = typeButtonUp then buttons &&& ~~~e.value
  else if e.type = typeButtonDown then buttons ||| e.value
  else buttons

theorem buttons_apply (joy : SceCtrlData) (e : JoyEvent) : (joy.apply e).buttons = pressed joy.buttons e := by
  unfold SceCtrlData.apply pressed
  repeat' split
  all_goals rfl

theorem buttons_foldl (events : List JoyEvent) (joy : SceCtrlData) :
    (events.foldl .apply joy).buttons = events.foldl pressed joy.buttons := by
  induction events generalizing joy with
  | nil => rfl
  | cons e events ih => rw [List.foldl_cons, List.foldl_cons, ih, buttons_apply]

/-- Two opposite directions are pressed. -/
def Opposed (buttons : Word) : Prop :=
  buttons &&& ctrlUp ≠ 0 ∧ buttons &&& ctrlDown ≠ 0 ∨ buttons &&& ctrlLeft ≠ 0 ∧ buttons &&& ctrlRight ≠ 0

/-- From `s` to `s'` records are sent that say what has become of the buttons. -/
structure Sender.Sends (s s' : Sender) : Prop where
  more : ∃ new, s'.sent = s.sent ++ new ∧ (∀ e ∈ new, e.magic = joyMagic) ∧ s'.buttonState = new.foldl pressed s.buttonState

/-- Whatever has arrived of the records, no opposite directions are pressed. -/
def Sender.Apart (s : Sender) : Prop := ∀ front, front <+: s.sent → ¬ Opposed (front.foldl pressed 0)

namespace Sender

variable {cfg : Config} {s s' s'' : Sender} {bit cur : Word}

theorem Sends.refl (s : Sender) : s.Sends s := ⟨[], (List.append_nil _).symm, nofun, rfl⟩

theorem Sends.trans (first : s.Sends s') (second : s'.Sends s'') : s.Sends s'' := by
  obtain ⟨new, sent, magic, state⟩ := first
  obtain ⟨new', sent', magic', state'⟩ := second
  refine ⟨new ++ new', ?_, ?_, ?_⟩
  · rw [sent', sent, List.append_assoc]
  · intro e mem
    exact (List.mem_append.mp mem).elim (magic e) (magic' e)
  · rw [state', state, List.foldl_append]

theorem Sends.one {type value : Word} (state : s'.buttonState = pressed s.buttonState ⟨joyMagic, type, value⟩)
    (sent : s'.sent = s.sent ++ [⟨joyMagic, type, value⟩]) : s.Sends s' := by
  refine ⟨_, sent, ?_, state⟩
  intro e mem
  rw [List.mem_singleton.mp mem]

theorem sends_release (s : Sender) (bit cur : Word) : s.Sends (s.release bit cur) := by
  unfold release
  split
  · exact .one rfl rfl
  · exact .refl s

theorem sends_press (s : Sender) (cur : Word) : s.Sends (s.press cur) := by
  unfold press
  split
  · exact .one rfl rfl
  · exact .refl s

theorem sends_digitalAxis (cfg : Config) (axis : Nat) (value : Int) (s : Sender) : s.Sends (s.digitalAxis cfg axis value) := by
  unfold digitalAxis
  split
  · exact ((s.sends_release _ _).trans (sends_release _ _ _)).trans (sends_press _ _)
  · exact ((s.sends_release _ _).trans (sends_release _ _ _)).trans (sends_press _ _)

theorem sends_analogAxis (axis : Nat) (value : Int) (s : Sender) : s.Sends (s.analogAxis axis value) := by
  refine .one ?_ rfl
  split <;> rfl

theorem sends_turn (cfg : Config) (s : Sender) (e : SdlEvent) : s.Sends (s.turn cfg e) := by
  cases e with
  | joyButtonDown button => exact .one rfl rfl
  | joyButtonUp button => exact .one rfl rfl
  | joyAxisMotion axis value =>
      have digital : s.Sends (if cfg.digital = ↑(axis / 2) then s.digitalAxis cfg axis value else s) := by
        split
        · exact s.sends_digitalAxis cfg axis value
        · exact .refl s
      unfold turn
      dsimp only
      split
      · exact digital.trans (sends_analogAxis axis value _)
      · exact digital

/-! ## Opposite directions -/

/-- The records so far make the state, and none of them has left opposite directions pressed. -/
structure Clean (s : Sender) : Prop where
  state : s.buttonState = s.sent.foldl pressed 0
  apart : s.Apart

theorem Clean.send (clean : s.Clean) {type value : Word}
    (state : s'.buttonState = pressed s.buttonState ⟨joyMagic, type, value⟩)
    (sent : s'.sent = s.sent ++ [⟨joyMagic, type, value⟩]) (apart : ¬ Opposed s'.buttonState) : s'.Clean := by
  have folded : s'.buttonState = s'.sent.foldl pressed 0 := by
    rw [state, clean.state, sent, List.foldl_append]
    rfl
  refine ⟨folded, fun front part => ?_⟩
  rw [sent, List.prefix_concat_iff] at part
  rcases part with rfl | part
  · rwa [← sent, ← folded]
  · exact clean.apart front part

theorem Clean.not_opposed (clean : s.Clean) : ¬ Opposed s.buttonState := by
  rw [clean.state]
  exact clean.apart s.sent (List.prefix_refl _)

theorem and_release {b bit c : Word} (zero : b &&& c = 0) : (b &&& ~~~bit) &&& c = 0 := by
  rw [BitVec.and_assoc, BitVec.and_comm (~~~bit), ← BitVec.and_assoc, zero]
  exact BitVec.zero_and

theorem and_released (b bit : Word) : (b &&& ~~~bit) &&& bit = 0 := by
  rw [BitVec.and_assoc, BitVec.and_comm (~~~bit), BitVec.and_not_self]
  exact BitVec.and_zero

theorem not_opposed_release {b : Word} (clean : ¬ Opposed b) (bit : Word) : ¬ Opposed (b &&& ~~~bit) := by
  intro opposed
  refine clean (opposed.imp ?_ ?_)
  · exact fun both => ⟨fun zero => both.1 (and_release zero), fun zero => both.2 (and_release zero)⟩
  · exact fun both => ⟨fun zero => both.1 (and_release zero), fun zero => both.2 (and_release zero)⟩

theorem Clean.release (clean : s.Clean) (bit cur : Word) :
    (s.release bit cur).Clean ∧ (cur ≠ bit → (s.release bit cur).buttonState &&& bit = 0) ∧
      ∀ c, s.buttonState &&& c = 0 → (s.release bit cur).buttonState &&& c = 0 := by
  unfold Sender.release
  split
  · exact ⟨clean.send rfl rfl (not_opposed_release clean.not_opposed bit), fun _ => and_released _ bit,
      fun c zero => and_release zero⟩
  · next stays =>
    exact ⟨clean, fun other => by_contra fun set => stays ⟨set, other⟩, fun _ zero => zero⟩

def opposites : List (Word × Word) :=
  [(ctrlUp, ctrlDown), (ctrlDown, ctrlUp), (ctrlLeft, ctrlRight), (ctrlRight, ctrlLeft)]

/-- A direction may be pressed once the opposite one is let go. -/
theorem not_opposed_press {b opposite : Word} (clean : ¬ Opposed b) (zero : b &&& opposite = 0)
    (pair : (cur, opposite) ∈ opposites) : ¬ Opposed (b ||| cur) := by
  have set (c : Word) (apart : cur &&& c = 0) (there : (b ||| cur) &&& c ≠ 0) : b &&& c ≠ 0 := by
    rw [BitVec.and_or_distrib_right, apart] at there
    exact fun none => there (by rw [none]; rfl)
  simp only [opposites, List.mem_cons, Prod.mk.injEq, List.not_mem_nil, or_false] at pair
  rcases pair with ⟨rfl, rfl⟩ | ⟨rfl, rfl⟩ | ⟨rfl, rfl⟩ | ⟨rfl, rfl⟩
  · rintro (⟨-, down⟩ | ⟨left, right⟩)
    · exact set _ rfl down zero
    · exact clean (.inr ⟨set _ rfl left, set _ rfl right⟩)
  · rintro (⟨up, -⟩ | ⟨left, right⟩)
    · exact set _ rfl up zero
    · exact clean (.inr ⟨set _ rfl left, set _ rfl right⟩)
  · rintro (⟨up, down⟩ | ⟨-, right⟩)
    · exact clean (.inl ⟨set _ rfl up, set _ rfl down⟩)
    · exact set _ rfl right zero
  · rintro (⟨up, down⟩ | ⟨left, -⟩)
    · exact clean (.inl ⟨set _ rfl up, set _ rfl down⟩)
    · exact set _ rfl left zero

theorem Clean.press (clean : s.Clean) (apart : ¬ Opposed (s.buttonState ||| cur)) : (s.press cur).Clean := by
  unfold Sender.press
  split
  · exact clean.send rfl rfl apart
  · exact clean

/-- One axis of the pad: both directions are let go first, unless the axis points there. -/
theorem Clean.pad (clean : s.Clean) {first second : Word} (apart : first ≠ second)
    (pair : (first, second) ∈ opposites ∧ (second, first) ∈ opposites)
    (cur : Word) (points : cur = first ∨ cur = second ∨ cur = 0) :
    (((s.release first cur).release second cur).press cur).Clean := by
  obtain ⟨clean₁, cleared₁, -⟩ := clean.release first cur
  obtain ⟨clean₂, cleared₂, kept₂⟩ := clean₁.release second cur
  refine clean₂.press ?_
  rcases points with rfl | rfl | rfl
  · exact not_opposed_press clean₂.not_opposed (cleared₂ apart) pair.1
  · exact not_opposed_press clean₂.not_opposed (kept₂ first (cleared₁ apart.symm)) pair.2
  · rw [show _ ||| (0 : Word) = _ from BitVec.or_zero]
    exact clean₂.not_opposed

theorem currButt_points (tol value : Int) (high low : Word) :
    currButt tol value high low = low ∨ currButt tol value high low = high ∨ currButt tol value high low = 0 := by
  unfold currButt
  repeat' split
  all_goals simp

theorem Clean.digitalAxis (clean : s.Clean) (cfg : Config) (axis : Nat) (value : Int) :
    (s.digitalAxis cfg axis value).Clean := by
  unfold Sender.digitalAxis
  split
  · exact clean.pad (by decide) ⟨by decide, by decide⟩ _ (currButt_points _ _ _ _)
  · exact clean.pad (by decide) ⟨by decide, by decide⟩ _ ((currButt_points _ _ _ _).elim (.inr ∘ .inl) (.imp_right .inr))

theorem Clean.analogAxis (clean : s.Clean) (axis : Nat) (value : Int) : (s.analogAxis axis value).Clean := by
  refine clean.send ?_ rfl clean.not_opposed
  split <;> rfl

theorem Clean.turn (clean : s.Clean) {e : SdlEvent} (isAxis : e.IsAxis) : (s.turn cfg e).Clean := by
  cases e with
  | joyButtonDown button | joyButtonUp button => cases isAxis
  | joyAxisMotion axis value =>
      have digital : (if cfg.digital = ↑(axis / 2) then s.digitalAxis cfg axis value else s).Clean := by
        split
        · exact clean.digitalAxis cfg axis value
        · exact clean
      unfold Sender.turn
      dsimp only
      split
      · exact digital.analogAxis axis value
      · exact digital

theorem clean_start : start.Clean := by
  refine ⟨rfl, fun front part => ?_⟩
  rw [List.prefix_nil.mp part]
  rintro (⟨up, -⟩ | ⟨left, -⟩)
  · exact up rfl
  · exact left rfl

end Sender

end Psplink.RemoteJoy
