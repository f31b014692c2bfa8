import Mathlib.Logic.Function.Basic
import Mathlib.Data.List.Range

/-!
# Streams by handle

Lists that are read item by item, any number at once, each by a handle that is free again after the
list is closed.
-/

namespace Psplink.Lib

variable {ι α : Type}

/-- What is still to be read by each handle that is open. -/
abbrev Streams (ι α : Type) := ι → Option (List α)

inductive StreamEvent (ι α : Type)
  | opened (i : ι) (items : List α)
  /-- The number of items that were left, and the first of them. -/
  | read (i : ι) (left : Nat) (item : Option α)
  | closed (i : ι)
  | refused (i : ι)
  deriving DecidableEq

namespace Streams

variable [DecidableEq ι]

inductive Step : Streams ι α → StreamEvent ι α → Streams ι α → Prop
  | opened {s : Streams ι α} {i : ι} {items : List α} (free : s i = none) :
      Step s (.opened i items) (Function.update s i (some items))
  | next {s : Streams ι α} {i : ι} {item : α} {rest : List α} (there : s i = some (item :: rest)) :
      Step s (.read i (rest.length + 1) (some item)) (Function.update s i (some rest))
  | done {s : Streams ι α} {i : ι} (there : s i = some []) : Step s (.read i 0 none) s
  | closed {s : Streams ι α} {i : ι} {items : List α} (there : s i = some items) :
      Step s (.closed i) (Function.update s i none)
  | refused {s : Streams ι α} {i : ι} (free : s i = none) : Step s (.refused i) s

inductive Run : Streams ι α → List (StreamEvent ι α) → Streams ι α → Prop
  | nil {s : Streams ι α} : Run s [] s
  | cons {s s' s'' : Streams ι α} {e : StreamEvent ι α} {events : List (StreamEvent ι α)} (first : Step s e s')
      (rest : Run s' events s'') : Run s (e :: events) s''

theorem Run.append {s s' s'' : Streams ι α} {events events' : List (StreamEvent ι α)} (first : Run s events s')
    (rest : Run s' events' s'') : Run s (events ++ events') s'' := by
  induction first with
  | nil => exact rest
  | cons step _ ih => exact .cons step (ih rest)

theorem Run.split {s s'' : Streams ι α} {events events' : List (StreamEvent ι α)}
    (run : Run s (events ++ events') s'') : ∃ s', Run s events s' ∧ Run s' events' s'' := by
  induction events generalizing s with
  | nil => exact ⟨s, .nil, run⟩
  | cons e events ih =>
      cases run with
      | cons first rest =>
          obtain ⟨s', before, after⟩ := ih rest
          exact ⟨s', .cons first before, after⟩

/-- What has been read by a handle, in order. -/
def reads (i : ι) (events : List (StreamEvent ι α)) : List (Nat × Option α) :=
  events.filterMap fun
    | .read i' left item => if i' = i then some (left, item) else none
    | _ => none

/-- The answer to read number `k` of a list. -/
def answer (items : List α) (k : Nat) : Nat × Option α := (items.length - k, items[k]?)

/-- Nothing has happened to a handle but reads. -/
structure OnlyRead (i : ι) (items : List α) (events : List (StreamEvent ι α)) (s : Streams ι α) : Prop where
  reads : reads i events = (List.range (reads i events).length).map (answer items)
  left : s i = some (items.drop (Streams.reads i events).length)
  opened : ∀ items', .opened i items' ∉ events
  refused : .refused i ∉ events

/-- An event that leaves a handle alone. -/
theorem OnlyRead.cons {i : ι} {items : List α} {e : StreamEvent ι α} {events : List (StreamEvent ι α)} {s : Streams ι α}
    (only : OnlyRead i items events s) (other : Streams.reads i [e] = []) (opened : ∀ items', .opened i items' ≠ e)
    (refused : .refused i ≠ e) : OnlyRead i items (e :: events) s := by
  have same : Streams.reads i (e :: events) = Streams.reads i events := by
    have parts : Streams.reads i ([e] ++ events) = Streams.reads i [e] ++ Streams.reads i events := List.filterMap_append
    rwa [other, List.nil_append] at parts
  refine ⟨by rw [same]; exact only.reads, by rw [same]; exact only.left, fun items' member => ?_, fun member => ?_⟩
  · obtain here | later := List.mem_cons.mp member
    · exact opened items' here
    · exact only.opened items' later
  · obtain here | later := List.mem_cons.mp member
    · exact refused here
    · exact only.refused later

theorem OnlyRead.consRead {i : ι} {items rest : List α} {left : Nat} {item : Option α}
    {events : List (StreamEvent ι α)} {s : Streams ι α} (only : OnlyRead i rest events s)
    (first : (left, item) = answer items 0) (later : ∀ k, answer items (k + 1) = answer rest k)
    (dropped : ∀ k, items.drop (k + 1) = rest.drop k) : OnlyRead i items (.read i left item :: events) s := by
  have more : Streams.reads i (.read i left item :: events) = (left, item) :: Streams.reads i events := by
    simp only [Streams.reads, List.filterMap_cons, ↓reduceIte]
  refine ⟨?_, ?_, fun items' member => ?_, fun member => ?_⟩
  · rw [more, List.length_cons, List.range_succ_eq_map, List.map_cons, List.map_map, ← first]
    refine congrArg _ (only.reads.trans (List.map_congr_left fun k _ => ?_))
    exact (later k).symm
  · rw [more, List.length_cons, dropped]
    exact only.left
  · obtain here | there := List.mem_cons.mp member
    · cases here
    · exact only.opened items' there
  · obtain here | there := List.mem_cons.mp member
    · cases here
    · exact only.refused there

/-- A list that is open and is not closed is read once, from its first item to its last. -/
theorem Run.onlyRead {s s' : Streams ι α} {events : List (StreamEvent ι α)} (run : Run s events s') {i : ι}
    {items : List α} (there : s i = some items) (open' : .closed i ∉ events) : OnlyRead i items events s' := by
  induction run generalizing items with
  | nil => exact ⟨rfl, there, fun _ => List.not_mem_nil, List.not_mem_nil⟩
  | @cons s s₁ s' e events first rest ih =>
      have open'' : .closed i ∉ events := fun member => open' (List.mem_cons_of_mem _ member)
      cases first with
      | @opened i' items' free =>
          have other : i ≠ i' := by
            rintro rfl
            rw [there] at free
            cases free
          refine (ih ((Function.update_of_ne other ..).trans there) open'').cons rfl (fun _ same => ?_) (fun same => by cases same)
          cases same
          exact other rfl
      | @next i' item items' there' =>
          by_cases here : i' = i
          · subst here
            rw [there] at there'
            cases there'
            exact (ih (Function.update_self ..) open'').consRead rfl
              (fun k => by simp [answer]) (fun k => rfl)
          · refine (ih ((Function.update_of_ne (Ne.symm here) ..).trans there) open'').cons ?_ (fun _ same => by cases same) (fun same => by cases same)
            simp [Streams.reads, here]
      | @done i' there' =>
          by_cases here : i' = i
          · subst here
            rw [there] at there'
            cases there'
            exact (ih there open'').consRead rfl (fun k => by simp [answer]) (fun k => by simp)
          · refine (ih there open'').cons ?_ (fun _ same => by cases same) (fun same => by cases same)
            simp [Streams.reads, here]
      | @closed i' items' there' =>
          have other : i ≠ i' := by
            rintro rfl
            exact open' List.mem_cons_self
          exact (ih ((Function.update_of_ne other ..).trans there) open'').cons rfl
            (fun _ same => by cases same) (fun same => by cases same)
      | @refused i' free =>
          have other : i ≠ i' := by
            rintro rfl
            rw [there] at free
            cases free
          refine (ih there open'').cons rfl (fun _ same => by cases same) (fun same => ?_)
          cases same
          exact other rfl

end Streams

end Psplink.Lib
