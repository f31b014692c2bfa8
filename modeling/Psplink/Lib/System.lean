import Mathlib.Tactic.Common

/-!
# Transition systems

States, labelled steps and what holds in every state a run can reach. `guard` keeps the steps
that meet a condition, so that a statement about `(S.guard G).Reachable` is one about the runs of
`S` all of whose steps meet `G`.
-/

namespace Psplink.Lib

structure System (σ ι : Type) where
  init : σ → Prop
  step : σ → ι → σ → Prop

namespace System

variable {σ ι : Type}

inductive Reachable (S : System σ ι) : σ → Prop
  | init {s : σ} : S.init s → Reachable S s
  | step {s s' : σ} {a : ι} : Reachable S s → S.step s a s' → Reachable S s'

def guard (S : System σ ι) (G : σ → ι → Prop) : System σ ι where
  init := S.init
  step s a s' := G s a ∧ S.step s a s'

/-- Runs go on from `s`. -/
def startAt (S : System σ ι) (s : σ) : System σ ι := { S with init := (· = s) }

def exec (f : σ → ι → Option σ) : σ → List ι → Option σ
  | s, [] => some s
  | s, a :: rest => (f s a).bind fun s' => exec f s' rest

theorem Reachable.invariant {S : System σ ι} {I : σ → Prop} (base : ∀ s, S.init s → I s)
    (preserved : ∀ s a s', I s → S.step s a s' → I s') {s : σ} (reachable : S.Reachable s) :
    I s := by
  induction reachable with
  | init start => exact base _ start
  | step _ taken ih => exact preserved _ _ _ ih taken

theorem Reachable.of_guard {S : System σ ι} {G : σ → ι → Prop} {s : σ} (reachable : (S.guard G).Reachable s) :
    S.Reachable s := by
  induction reachable with
  | init start => exact .init start
  | step _ taken ih => exact .step ih taken.2

theorem Reachable.guarded {S : System σ ι} {G : σ → ι → Prop} (always : ∀ s a, G s a) {s : σ}
    (reachable : S.Reachable s) : (S.guard G).Reachable s := by
  induction reachable with
  | init start => exact .init start
  | step _ taken ih => exact .step ih ⟨always _ _, taken⟩

theorem Reachable.later {S : System σ ι} {s t : σ} (reachable : S.Reachable s) (later : (S.startAt s).Reachable t) :
    S.Reachable t := by
  induction later with
  | init start => exact start ▸ reachable
  | step _ taken ih => exact .step ih taken

theorem Reachable.exec {S : System σ ι} {f : σ → ι → Option σ} {labels : List ι} {s s' : σ}
    (reachable : S.Reachable s) (taken : ∀ t a t', a ∈ labels → f t a = some t' → S.step t a t')
    (run : System.exec f s labels = some s') : S.Reachable s' := by
  induction labels generalizing s with
  | nil =>
      cases run
      exact reachable
  | cons a rest ih =>
      obtain ⟨mid, first, run⟩ := Option.bind_eq_some_iff.mp run
      apply ih (.step reachable (taken s a mid List.mem_cons_self first)) _ run
      intro t b t' member
      exact taken t b t' (List.mem_cons_of_mem a member)

end System

end Psplink.Lib
