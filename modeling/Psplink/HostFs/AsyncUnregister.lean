import Mathlib.Data.Fintype.Basic
import Psplink.HostFs.AsyncChannels

/-!
# Unregistering a channel in use

`usbAsyncRead` and `usbAsyncFlush` test the slot before the section that uses it. `Undisturbing` is what
an unregistration has to wait for: no thread between its test and its section, unless it sleeps on a
bit that is not set.
-/

namespace Psplink.HostFs
open Psplink.Lib

section
variable {ι τ : Type}

/-- A thread whose section does not find the slot of `ch` empty once the channel is gone. -/
def Caller.Clear (event : Channel → Bool) (ch : Channel) : Caller → Prop
  | .idle => True
  | .waiting c _ => c = ch → event ch = false
  | .taken c _ | .flushing c => c ≠ ch

instance (event : Channel → Bool) (ch : Channel) (c : Caller) : Decidable (c.Clear event ch) := by
  unfold Caller.Clear
  split <;> infer_instance

def Undisturbing (s : Async ι τ) : AsyncEvent ι τ → Prop
  | .unregister chan => ∀ ch, channelOf chan = some ch → s.chan ch ≠ none →
      ∀ t, (s.caller t).Clear s.event ch
  | _ => True

def Caller.Sound (s : Async ι τ) : Caller → Prop
  | .idle => True
  | .waiting ch _ => s.chan ch = none → s.event ch = false
  | .taken ch _ | .flushing ch => s.chan ch ≠ none

theorem Caller.Sound.mono {s s' : Async ι τ} {c : Caller} (sound : c.Sound s)
    (chan : ∀ ch, s.chan ch ≠ none → s'.chan ch ≠ none)
    (event : ∀ ch, s'.chan ch = none → s.event ch = false → s'.event ch = false) : c.Sound s' := by
  cases c with
  | idle => trivial
  | waiting ch len =>
      intro empty
      apply event ch empty (sound _)
      by_contra slot
      exact chan ch slot empty
  | taken ch len => exact chan ch sound
  | flushing ch => exact chan ch sound

structure SlotsSound (s : Async ι τ) : Prop where
  fault : s.fault = false
  caller : ∀ t, (s.caller t).Sound s

variable {s s' : Async ι τ} {ch : Channel} {e : ι}

theorem clear_of_update (slot : s.chan ch = some e) (bit : Bool) (ch' : Channel) (empty : s.chan ch' = none)
    (clear : s.event ch' = false) : Function.update s.event ch bit ch' = false := by
  rw [Function.update_of_ne _ _ _, clear]
  rintro rfl
  cases slot.symm.trans empty

variable [DecidableEq τ]

theorem SlotsSound.thread (sound : SlotsSound s) {t : τ} {c : Caller} (fault : s'.fault = false)
    (chan : s'.chan = s.chan) (caller : s'.caller = Function.update s.caller t c) (here : c.Sound s')
    (event : ∀ ch, s.chan ch = none → s.event ch = false → s'.event ch = false) : SlotsSound s' where
  fault := fault
  caller t' := by
    rw [caller, Function.update_apply]
    split
    · exact here
    · exact (sound.caller t').mono (by simp [chan]) (by simpa [chan] using event)

variable [DecidableEq ι]

theorem SlotsSound.readSection (sound : SlotsSound s) {t : τ} {len : Int} (taken : s.caller t = .taken ch len) :
    SlotsSound (s.readSection t ch len) := by
  have here := sound.caller t
  rw [taken] at here
  obtain ⟨e, slot⟩ := Option.ne_none_iff_exists'.mp here
  rw [Async.readSection, slot]
  dsimp only
  split
  · exact sound.thread sound.fault rfl rfl trivial (clear_of_update slot true)
  · exact sound.thread sound.fault rfl rfl trivial fun _ _ clear => clear

theorem SlotsSound.flushSection (sound : SlotsSound s) {t : τ} (flushing : s.caller t = .flushing ch) :
    SlotsSound (s.flushSection t ch) := by
  have here := sound.caller t
  rw [flushing] at here
  obtain ⟨e, slot⟩ := Option.ne_none_iff_exists'.mp here
  rw [Async.flushSection, slot]
  exact sound.thread sound.fault rfl rfl trivial (clear_of_update slot false)

omit [DecidableEq τ] [DecidableEq ι] in
theorem SlotsSound.detach {chan : Word} (sound : SlotsSound s) (undisturbing : Undisturbing s (.unregister chan))
    (names : channelOf chan = some ch) (slot : s.chan ch = some e) :
    SlotsSound { s with chan := Function.update s.chan ch none } := by
  refine ⟨sound.fault, ?_⟩
  intro t
  have clear := undisturbing ch names (by simp [slot]) t
  have before := sound.caller t
  show (s.caller t).Sound _
  cases place : s.caller t with
  | idle => trivial
  | waiting c len =>
      rw [place] at clear before
      intro empty
      by_cases same : c = ch
      · subst same
        exact clear rfl
      · exact before ((Function.update_of_ne same _ _).symm.trans empty)
  | taken c len =>
      rw [place] at clear before
      exact fun empty => before ((Function.update_of_ne clear _ _).symm.trans empty)
  | flushing c =>
      rw [place] at clear before
      exact fun empty => before ((Function.update_of_ne clear _ _).symm.trans empty)

omit [DecidableEq τ] in
theorem SlotsSound.attach (sound : SlotsSound s) (ch : Channel) (e : ι) : SlotsSound (s.attach ch e) := by
  refine ⟨sound.fault, ?_⟩
  intro t
  apply (sound.caller t).mono
  · intro ch' slot
    change Function.update s.chan ch (some e) ch' ≠ none
    rw [Function.update_apply]
    split
    · nofun
    · exact slot
  · intro ch' _ clear
    change Function.update s.event ch false ch' = false
    rw [Function.update_apply]
    split
    · rfl
    · exact clear

theorem Move.sound {a : AsyncEvent ι τ} (move : Move s a s') (undisturbing : Undisturbing s a) (sound : SlotsSound s) :
    SlotsSound s' := by
  cases move with
  | none => exact sound
  | store header =>
      refine ⟨sound.fault, ?_⟩
      intro t
      exact (sound.caller t).mono (fun _ => id) (clear_of_update (slot_of_header header) true)
  | attach => exact sound.attach _ _
  | detach names slot => exact sound.detach undisturbing names slot
  | wait idle names slot =>
      refine sound.thread sound.fault rfl rfl ?_ fun _ _ clear => clear
      intro empty
      cases slot.symm.trans empty
  | @take t ch len waiting bit =>
      have here := sound.caller t
      rw [waiting] at here
      have registered : s.chan ch ≠ .none := by
        intro empty
        cases bit.symm.trans (here empty)
      obtain ⟨e, slot⟩ := Option.ne_none_iff_exists'.mp registered
      exact sound.thread sound.fault rfl rfl registered (clear_of_update slot false)
  | abandon waiting => exact sound.thread sound.fault rfl rfl trivial fun _ _ clear => clear
  | read taken => exact sound.readSection taken
  | flush idle names slot =>
      refine sound.thread sound.fault rfl rfl ?_ fun _ _ clear => clear
      show s.chan _ ≠ .none
      simp [slot]
  | flushed flushing => exact sound.flushSection flushing

/-! ## Every run -/

/-- A section that is about to run finds an endpoint in the slot, and it is the one it touches. -/
structure Async.SlotSafe (s : Async ι τ) : Prop where
  fault : s.fault = false
  read : ∀ t ch len, s.caller t = .taken ch len → ∃ e, s.chan ch = some e ∧
    (s.readSection t ch len).fault = false ∧
    (s.readSection t ch len).delivered ch = s.delivered ch ++
      ((s.endp e).popMany maxAsyncBuffer (Async.readLen (s.endp e) len)).1 ∧
    ∀ e' ≠ e, (s.readSection t ch len).endp e' = s.endp e'
  flush : ∀ t ch, s.caller t = .flushing ch → ∃ e, s.chan ch = some e ∧
    (s.flushSection t ch).fault = false ∧ ∀ e' ≠ e, (s.flushSection t ch).endp e' = s.endp e'

theorem SlotsSound.slotSafe (sound : SlotsSound s) : s.SlotSafe where
  fault := sound.fault
  read t ch len taken := by
    have after := (sound.readSection taken).fault
    have here := sound.caller t
    rw [taken] at here
    obtain ⟨e, slot⟩ := Option.ne_none_iff_exists'.mp here
    refine ⟨e, slot, after, ?_⟩
    rw [Async.readSection, slot]
    dsimp only
    split
    · exact ⟨Function.update_self .., fun e' other => Function.update_of_ne other _ _⟩
    · exact ⟨Function.update_self .., fun e' other => Function.update_of_ne other _ _⟩
  flush t ch flushing := by
    have after := (sound.flushSection flushing).fault
    have here := sound.caller t
    rw [flushing] at here
    obtain ⟨e, slot⟩ := Option.ne_none_iff_exists'.mp here
    refine ⟨e, slot, after, ?_⟩
    rw [Async.flushSection, slot]
    exact fun e' other => Function.update_of_ne other _ _

theorem slotsSound (reachable : ((asyncDriver ι τ).guard Undisturbing).Reachable s) : SlotsSound s := by
  apply reachable.invariant
  · intro s starts
    refine ⟨starts.fault, ?_⟩
    intro t
    rw [starts.caller]
    trivial
  · rintro s a s' sound ⟨undisturbing, -, after⟩
    exact (move_of_after after).sound undisturbing sound

def Async.Faults (s : Async ι τ) (labels : List (AsyncEvent ι τ)) : Prop :=
  ∃ s', System.exec Async.after s labels = some s' ∧ s'.fault = true

theorem faults_of_disturbing {chan : Word} (busy : ¬Undisturbing s (.unregister chan)) :
    ∃ rest, s.Faults (.unregister chan :: rest) := by
  simp only [Undisturbing, not_forall] at busy
  obtain ⟨ch, names, slot, t, caught⟩ := busy
  let gone : Async ι τ := { s with chan := Function.update s.chan ch none }
  have unregister : s.after (.unregister chan) = some gone := by
    have found : (channelOf chan).filter (fun ch => (s.chan ch).isSome) = some ch := by
      simp [names, Option.isSome_iff_ne_none, slot]
    simp [Async.after, Async.usbAsyncUnregister, found, gone]
  cases place : s.caller t with
  | idle =>
      rw [place] at caught
      exact absurd trivial caught
  | waiting c len =>
      rw [place] at caught
      simp only [Caller.Clear, not_forall, Bool.not_eq_false] at caught
      obtain ⟨rfl, bit⟩ := caught
      let woken := (gone.setEvent c false).setCaller t (.taken c len)
      have take : gone.after (.take t) = some woken := by simp [Async.after, gone, woken, place, bit]
      have read : woken.after (.readSection t) = some { woken with fault := true } := by
        simp [Async.after, Async.readSection, Async.setCaller, Async.setEvent, woken, gone]
      refine ⟨[.take t, .readSection t], { woken with fault := true }, ?_, rfl⟩
      simp only [System.exec, unregister, Option.bind_some, take, read]
  | taken c len =>
      rw [place] at caught
      cases not_not.mp caught
      have read : gone.after (.readSection t) = some { gone with fault := true } := by
        simp [Async.after, Async.readSection, gone, place]
      refine ⟨[.readSection t], { gone with fault := true }, ?_, rfl⟩
      simp only [System.exec, unregister, Option.bind_some, read]
  | flushing c =>
      rw [place] at caught
      cases not_not.mp caught
      have flush : gone.after (.flushSection t) = some { gone with fault := true } := by
        simp [Async.after, Async.flushSection, gone, place]
      refine ⟨[.flushSection t], { gone with fault := true }, ?_, rfl⟩
      simp only [System.exec, unregister, Option.bind_some, flush]

theorem async_unregister (reachable : ((asyncDriver ι τ).guard Undisturbing).Reachable s) :
    s.SlotSafe ∧
    ∀ chan, ¬Undisturbing s (.unregister chan) → ∃ rest, s.Faults (.unregister chan :: rest) := by
  refine ⟨(slotsSound reachable).slotSafe, ?_⟩
  intro chan busy
  exact faults_of_disturbing busy

end

instance {ι τ : Type} [DecidableEq ι] [Fintype τ] (s : Async ι τ) (a : AsyncEvent ι τ) : Decidable (Undisturbing s a) :=
  match a with
  | .unregister _ => Fintype.decidableForallFintype
  | .fill _ | .register .. | .read .. | .take _ | .abandon _ | .readSection _ | .flush .. | .flushSection _ =>
      isTrue trivial

def servedRun : List (AsyncEvent Unit Bool) :=
  [.register 4 (some ()), .read true 4 1, .read false 4 1,
    .fill (encode (⟨asyncMagic, 4⟩ : AsyncCommand) ++ [1]), .take true, .readSection true, .unregister 4]

theorem async_unregister_served : ∃ s : Async Unit Bool, s.delivered ⟨4, by decide⟩ = [1] ∧ s.SlotSafe := by
  have ran : ((System.exec (Async.attempt Undisturbing) asyncStart servedRun).map fun s =>
      s.delivered ⟨4, by decide⟩) = some [1] := by decide +kernel
  obtain ⟨s, run, delivered⟩ := Option.map_eq_some_iff.mp ran
  exact ⟨s, delivered, (async_unregister (reachable_attempt asyncStart_starts run)).1⟩

/-- A reader sleeps on channel 4, data arrives, and the channel goes before the reader wakes. -/
def unregisterRun : List (AsyncEvent Unit Unit) :=
  [.register 4 (some ()), .read () 4 1, .fill (encode (⟨asyncMagic, 4⟩ : AsyncCommand) ++ [1]),
    .unregister 4, .take (), .readSection ()]

theorem async_unregister_fault : ∃ s, (asyncDriver Unit Unit).Reachable s ∧ ¬s.SlotSafe := by
  have ran : (System.exec (Async.attempt fun _ _ => True) asyncStart unregisterRun).map Async.fault =
      some true := by decide +kernel
  obtain ⟨s, run, fault⟩ := Option.map_eq_some_iff.mp ran
  refine ⟨s, (reachable_attempt asyncStart_starts run).of_guard, ?_⟩
  intro safe
  cases fault.symm.trans safe.fault

end Psplink.HostFs
