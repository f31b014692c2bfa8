import Mathlib.Logic.Relation
import Psplink.Lib.Effect

/-!
# Programs among others

The world of a program may change between two of its calls, by what others do: `env e w w'` is one
such change, of kind `e`. An assertion about the world before a call is of use when these changes
keep it.
-/

namespace Psplink.Lib

namespace Prog

variable {Q Q' ε : Type} {A : Q → Type} {A' : Q' → Type} {α β W : Type}

/-- The call a program is at; none when it has returned. -/
def next : Prog Q A α → Option Q
  | .ret _ => none
  | .ask q _ => some q

/-! ## Calls of one program as calls of another -/

def via (e : Q → Q') (back : ∀ q, A' (e q) → A q) : Prog Q A α → Prog Q' A' α
  | .ret a => .ret a
  | .ask q k => .ask (e q) fun a => (k (back q a)).via e back

def Contract.through (C : Contract Q' A' W) (e : Q → Q') (back : ∀ q, A' (e q) → A q) : Contract Q A W where
  pre w q := C.pre w (e q)
  post w q a w' := ∃ a', C.post w (e q) a' w' ∧ back q a' = a

theorem wp_via {C : Contract Q' A' W} {e : Q → Q'} {back : ∀ q, A' (e q) → A q} {p : Prog Q A α}
    {R : α → W → Prop} {w : W} (held : wp (C.through e back) p R w) : wp C (p.via e back) R w := by
  induction p generalizing w with
  | ret a => exact held
  | ask q k ih =>
      refine ⟨held.1, ?_⟩
      intro a w' answered
      exact ih _ (held.2 _ w' ⟨a, answered, rfl⟩)

/-! ## Between two calls -/

/-- What a call may answer when others go first. -/
def Contract.among (C : Contract Q A W) (env : Option Q → W → W → Prop) : Contract Q A W where
  pre w q := ∀ w', Relation.ReflTransGen (env (some q)) w w' → C.pre w' q
  post w q a w' := ∃ mid, Relation.ReflTransGen (env (some q)) w mid ∧ C.post mid q a w'

variable {C : Contract Q A W} {env : Option Q → W → W → Prop}

theorem stable_star {q : Option Q} {P : W → Prop} (stable : ∀ w w', P w → env q w w' → P w') {w w' : W}
    (holds : P w) (steps : Relation.ReflTransGen (env q) w w') : P w' := by
  induction steps with
  | refl => exact holds
  | tail _ step ih => exact stable _ _ ih step

theorem among_pre {q : Q} {w : W} (allowed : (C.among env).pre w q) : C.pre w q := allowed w .refl

theorem wp_among_ask {q : Q} {k : A q → Prog Q A α} {R : α → W → Prop} {w : W} {P : W → Prop} (holds : P w)
    (stable : ∀ w w', P w → env (some q) w w' → P w') (allowed : ∀ w, P w → C.pre w q)
    (after : ∀ w a w', P w → C.post w q a w' → wp (C.among env) (k a) R w') :
    wp (C.among env) (.ask q k) R w := by
  refine ⟨?_, ?_⟩
  · intro w' steps
    exact allowed w' (stable_star stable holds steps)
  · rintro a w' ⟨mid, steps, answered⟩
    exact after mid a w' (stable_star stable holds steps) answered

/-- A turn interrupted between two calls by others is still within its precondition. -/
theorem wp_among_step {p : Prog Q A α} {R : α → W → Prop} {w w' : W} (held : wp (C.among env) p R w)
    (stable : ∀ a w w', R a w → env none w w' → R a w') (step : env p.next w w') : wp (C.among env) p R w' := by
  cases p with
  | ret a => exact stable a w w' held step
  | ask q k =>
      refine ⟨?_, ?_⟩
      · intro w'' steps
        exact held.1 w'' (.head step steps)
      · rintro a w'' ⟨mid, steps, answered⟩
        exact held.2 a w'' ⟨mid, .head step steps, answered⟩

/-! ## Runs -/

/-- A server loop and the others, one step at a time. A label says whose step it is. -/
def among (C : Contract Q A W) (env : ε → W → W → Prop) (turn : α → Prog Q A α) (start : α) (init : W → Prop) :
    System (Prog Q A α × W) (Option ε) where
  init c := c.1 = .ret start ∧ init c.2
  step c label c' := match label with
    | none => (server C turn start init).step c () c'
    | some e => c'.1 = c.1 ∧ env e c.2 c'.2

/-- `G` is what the others are held to, by where the program is. -/
theorem among_invariant {env : ε → W → W → Prop} {G : Option Q → W → ε → Prop} {turn : α → Prog Q A α} {start : α}
    {init : W → Prop} {I : α → W → Prop} (base : ∀ w, init w → I start w)
    (kept : ∀ a w, I a w → wp (C.among fun q w w' => ∃ e, G q w e ∧ env e w w') (turn a) I w)
    (stable : ∀ a w e w', I a w → G none w e → env e w w' → I a w') {c : Prog Q A α × W}
    (reachable : ((among C env turn start init).guard
      fun c label => ∀ e, label = some e → G c.1.next c.2 e).Reachable c) :
    wp (C.among fun q w w' => ∃ e, G q w e ∧ env e w w') c.1 I c.2 := by
  induction reachable with
  | @init c at_start =>
      rw [at_start.1]
      exact base _ at_start.2
  | @step c c' label _ taken ih =>
      obtain ⟨p, w⟩ := c
      obtain ⟨p', w'⟩ := c'
      obtain ⟨allowed, taken⟩ := taken
      cases label with
      | none =>
          cases p with
          | ret a =>
              cases taken
              exact kept a w ih
          | ask q k =>
              obtain ⟨a, answered, rfl⟩ := taken
              exact ih.2 a _ ⟨w, .refl, answered⟩
      | some e =>
          obtain ⟨rfl, step⟩ := taken
          apply wp_among_step ih _ ⟨e, allowed e rfl, step⟩
          rintro a v v' holds ⟨e, allowed, step⟩
          exact stable a v e v' holds allowed step

/-- A turn that the others do not interrupt. -/
theorem among_interp {V : Type} {f : V → W} {h : (q : Q) → V → A q × V}
    (answers : ∀ q v, C.post (f v) q (h q v).1 (f (h q v).2)) {env : ε → W → W → Prop} {turn : α → Prog Q A α}
    {start : α} {init : W → Prop} {H : Prog Q A α × W → Option ε → Prop} (own : ∀ c, H c none) {p : Prog Q A α} {v : V}
    (reachable : ((among C env turn start init).guard H).Reachable (p, f v)) :
    ((among C env turn start init).guard H).Reachable (.ret (interp h p v).1, f (interp h p v).2) := by
  induction p generalizing v with
  | ret a => exact reachable
  | ask q k ih =>
      apply ih
      exact reachable.step (a := none) ⟨own _, _, answers q v, rfl⟩

end Prog

end Psplink.Lib
