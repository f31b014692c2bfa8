import Psplink.Lib.System

/-!
# Programs that call their environment

A program either returns or asks a question of its environment and goes on with the answer. The
questions `Q` are the calls it makes, `A q` the type of what `q` answers. Nothing is assumed of
the answers here: a `Contract` says, over a world that the calls read and change, which calls are
allowed and what they may answer, and `wp` is the weakest precondition under it.
-/

namespace Psplink.Lib

inductive Prog (Q : Type) (A : Q → Type) (α : Type) : Type
  | ret (a : α)
  | ask (q : Q) (k : A q → Prog Q A α)

namespace Prog

variable {Q : Type} {A : Q → Type} {α β γ W : Type}

def bind : Prog Q A α → (α → Prog Q A β) → Prog Q A β
  | .ret a, f => f a
  | .ask q k, f => .ask q fun a => (k a).bind f

instance : Monad (Prog Q A) where
  pure := .ret
  bind := .bind

def call (q : Q) : Prog Q A (A q) := .ask q .ret

@[simp] theorem ret_bind (a : α) (f : α → Prog Q A β) : (Prog.ret a : Prog Q A α) >>= f = f a := rfl

@[simp] theorem pure_def (a : α) : (pure a : Prog Q A α) = .ret a := rfl

@[simp] theorem call_bind (q : Q) (f : A q → Prog Q A β) : call q >>= f = .ask q f := rfl

@[simp] theorem ask_bind (q : Q) (k : A q → Prog Q A α) (f : α → Prog Q A β) :
    Prog.ask q k >>= f = .ask q fun a => k a >>= f := rfl

/-! ## Contracts and weakest preconditions -/

/-- Over a world `W`: the calls that may be made, and what each may answer and leave behind. -/
structure Contract (Q : Type) (A : Q → Type) (W : Type) where
  pre : W → Q → Prop
  post : W → (q : Q) → A q → W → Prop

def wp (C : Contract Q A W) : Prog Q A α → (α → W → Prop) → W → Prop
  | .ret a, R, w => R a w
  | .ask q k, R, w => C.pre w q ∧ ∀ a w', C.post w q a w' → wp C (k a) R w'

variable {C : Contract Q A W}

@[simp] theorem wp_ret (a : α) (R : α → W → Prop) (w : W) :
    wp C (.ret a : Prog Q A α) R w ↔ R a w := Iff.rfl

theorem wp_ask (q : Q) (k : A q → Prog Q A α) (R : α → W → Prop) (w : W) :
    wp C (.ask q k) R w ↔ C.pre w q ∧ ∀ a w', C.post w q a w' → wp C (k a) R w' := Iff.rfl

theorem wp_bind (p : Prog Q A α) (f : α → Prog Q A β) (R : β → W → Prop) (w : W) :
    wp C (p >>= f) R w ↔ wp C p (fun a => wp C (f a) R) w := by
  induction p generalizing w with
  | ret a => exact Iff.rfl
  | ask q k ih =>
      simp only [ask_bind, wp_ask]
      exact and_congr_right fun _ => forall_congr' fun a => forall_congr' fun w' =>
        imp_congr_right fun _ => ih a w'

theorem wp_ite {c : Prop} [Decidable c] {p q : Prog Q A α} {R : α → W → Prop} {w : W} (pos : c → wp C p R w)
    (neg : ¬ c → wp C q R w) : wp C (if c then p else q) R w := by
  split
  · exact pos ‹_›
  · exact neg ‹_›

theorem wp_mono {p : Prog Q A α} {R S : α → W → Prop} (imp : ∀ a w, R a w → S a w) {w : W}
    (h : wp C p R w) : wp C p S w := by
  induction p generalizing w with
  | ret a => exact imp a w h
  | ask q k ih => exact ⟨h.1, fun a w' answered => ih a (h.2 a w' answered)⟩

theorem wp_and {p : Prog Q A α} {R S : α → W → Prop} {w : W} (first : wp C p R w)
    (second : wp C p S w) : wp C p (fun a w => R a w ∧ S a w) w := by
  induction p generalizing w with
  | ret a => exact ⟨first, second⟩
  | ask q k ih =>
      exact ⟨first.1, fun a w' answered => ih a (first.2 a w' answered) (second.2 a w' answered)⟩

theorem wp_contract {D : Contract Q A W} (allowed : ∀ w q, C.pre w q → D.pre w q)
    (answered : ∀ w q a w', D.post w q a w' → C.post w q a w') {p : Prog Q A α}
    {R : α → W → Prop} {w : W} (h : wp C p R w) : wp D p R w := by
  induction p generalizing w with
  | ret a => exact h
  | ask q k ih =>
      exact ⟨allowed w q h.1, fun a w' answer => ih a (h.2 a w' (answered w q a w' answer))⟩

theorem not_wp_false (total : ∀ w q, ∃ a w', C.post w q a w') (p : Prog Q A α) (w : W) :
    ¬ wp C p (fun _ _ => False) w := by
  induction p generalizing w with
  | ret a => exact id
  | ask q k ih =>
      intro h
      obtain ⟨a, w', answered⟩ := total w q
      exact ih a w' (h.2 a w' answered)

/-! ## Runs -/

/-- One run of a program, with answers that the contract lets its calls have. -/
inductive Runs (C : Contract Q A W) : Prog Q A α → W → α → W → Prop
  | ret (a : α) (w : W) : Runs C (.ret a) w a w
  | ask {q : Q} {k : A q → Prog Q A α} {w w' w'' : W} {a : A q} {b : α} (answered : C.post w q a w')
      (rest : Runs C (k a) w' b w'') : Runs C (.ask q k) w b w''

theorem Runs.of_wp {p : Prog Q A α} {R : α → W → Prop} {w w' : W} {a : α} (run : Runs C p w a w')
    (held : wp C p R w) : R a w' := by
  induction run with
  | ret a w => exact held
  | ask answered _ ih => exact ih (held.2 _ _ answered)

/-! ## Programs that only make some calls -/

/-- Every call the program makes, whatever is answered, satisfies `P`. -/
inductive Only (P : Q → Prop) : Prog Q A α → Prop
  | ret (a : α) : Only P (.ret a)
  | ask {q : Q} {k : A q → Prog Q A α} (holds : P q) (next : ∀ a, Only P (k a)) : Only P (.ask q k)

theorem Only.bind {P : Q → Prop} {p : Prog Q A α} {f : α → Prog Q A β} (first : Only P p)
    (second : ∀ a, Only P (f a)) : Only P (p >>= f) := by
  induction first with
  | ret a => exact second a
  | ask holds _ ih => exact .ask holds ih

theorem Only.mono {P P' : Q → Prop} (imp : ∀ q, P q → P' q) {p : Prog Q A α} (only : Only P p) :
    Only P' p := by
  induction only with
  | ret a => exact .ret a
  | ask holds _ ih => exact .ask (imp _ holds) ih

theorem wp_of_only {P : Q → Prop} {I : W → Prop} {p : Prog Q A α} (only : Only P p)
    (allowed : ∀ w q, P q → I w → C.pre w q)
    (kept : ∀ w q a w', P q → I w → C.post w q a w' → I w') {w : W} (h : I w) :
    wp C p (fun _ => I) w := by
  induction only generalizing w with
  | ret a => exact h
  | ask holds _ ih =>
      exact ⟨allowed w _ holds h, fun a w' answered => ih a (kept w _ a w' holds h answered)⟩

theorem wp_carry {P : Q → Prop} {I : W → Prop} {p : Prog Q A α} (only : Only P p)
    (kept : ∀ w q a w', P q → I w → C.post w q a w' → I w') {R : α → W → Prop} {w : W}
    (known : wp C p R w) (h : I w) : wp C p (fun a w => R a w ∧ I w) w := by
  induction only generalizing w with
  | ret a => exact ⟨known, h⟩
  | ask holds _ ih =>
      refine ⟨known.1, ?_⟩
      intro a w' answered
      exact ih a (known.2 a w' answered) (kept w _ a w' holds h answered)

/-! ## Server loops -/

/-- A program run turn after turn, each turn chosen by what the last one returned. The states are
what remains of the turn and the world; every answer the contract lets a call have is a step. -/
def server (C : Contract Q A W) (turn : α → Prog Q A α) (start : α) (init : W → Prop) :
    System (Prog Q A α × W) Unit where
  init c := c.1 = .ret start ∧ init c.2
  step c _ c' := match c.1 with
    | .ret a => c' = (turn a, c.2)
    | .ask q k => ∃ a, C.post c.2 q a c'.2 ∧ c'.1 = k a

/-- An invariant of the turns: at every moment of the run what remains of the turn restores it, so
the next call is an allowed one. -/
theorem server_invariant {turn : α → Prog Q A α} {start : α} {init : W → Prop} {I : α → W → Prop}
    (base : ∀ w, init w → I start w) (kept : ∀ a w, I a w → wp C (turn a) I w)
    {c : Prog Q A α × W} (reachable : (server C turn start init).Reachable c) :
    wp C c.1 I c.2 := by
  induction reachable with
  | @init c at_start =>
      rw [at_start.1]
      exact base _ at_start.2
  | @step c c' _ _ taken ih =>
      obtain ⟨p, w⟩ := c
      cases p with
      | ret a =>
          rw [show c' = (turn a, w) from taken]
          exact kept a w ih
      | ask q k =>
          obtain ⟨a, answered, remains⟩ := taken
          rw [remains]
          exact ih.2 a _ answered

theorem guarded_invariant {turn : α → Prog Q A α} {start : α} {init : W → Prop}
    {I G : α → W → Prop} (base : ∀ w, init w → I start w)
    (kept : ∀ a w, I a w → G a w → wp C (turn a) I w) {c : Prog Q A α × W}
    (reachable : ((server C turn start init).guard fun c _ => ∀ a, c.1 = .ret a → G a c.2).Reachable c) :
    wp C c.1 I c.2 := by
  induction reachable with
  | @init c at_start =>
      rw [at_start.1]
      exact base _ at_start.2
  | @step c c' _ _ taken ih =>
      obtain ⟨p, w⟩ := c
      obtain ⟨allowed, taken⟩ := taken
      cases p with
      | ret a =>
          rw [show c' = (turn a, w) from taken]
          exact kept a w ih (allowed a rfl)
      | ask q k =>
          obtain ⟨a, answered, remains⟩ := taken
          rw [remains]
          exact ih.2 a _ answered

/-! ## Running against a deterministic environment -/

def interp (h : (q : Q) → W → A q × W) : Prog Q A α → W → α × W
  | .ret a, w => (a, w)
  | .ask q k, w => interp h (k (h q w).1) (h q w).2

@[simp] theorem interp_ret (h : (q : Q) → W → A q × W) (a : α) (w : W) :
    interp h (.ret a : Prog Q A α) w = (a, w) := rfl

@[simp] theorem interp_ask (h : (q : Q) → W → A q × W) (q : Q) (k : A q → Prog Q A α) (w : W) :
    interp h (.ask q k) w = interp h (k (h q w).1) (h q w).2 := rfl

theorem interp_pos {h : (q : Q) → W → A q × W} {c : Prop} [Decidable c] (holds : c) (p q : Prog Q A α) (w : W) :
    interp h (if c then p else q) w = interp h p w := by rw [if_pos holds]

theorem interp_neg {h : (q : Q) → W → A q × W} {c : Prop} [Decidable c] (fails : ¬ c) (p q : Prog Q A α) (w : W) :
    interp h (if c then p else q) w = interp h q w := by rw [if_neg fails]

theorem interp_bind (h : (q : Q) → W → A q × W) (p : Prog Q A α) (f : α → Prog Q A β) (w : W) :
    interp h (p >>= f) w = interp h (f (interp h p w).1) (interp h p w).2 := by
  induction p generalizing w with
  | ret a => rfl
  | ask q k ih => exact ih _ _

theorem interp_of_wp {h : (q : Q) → W → A q × W} (answers : ∀ q w, C.post w q (h q w).1 (h q w).2)
    {p : Prog Q A α} {R : α → W → Prop} {w : W} (held : wp C p R w) :
    R (interp h p w).1 (interp h p w).2 := by
  induction p generalizing w with
  | ret a => exact held
  | ask q k ih => exact ih _ (held.2 _ _ (answers q w))

theorem runs_interp {h : (q : Q) → W → A q × W} (answers : ∀ q w, C.post w q (h q w).1 (h q w).2)
    (p : Prog Q A α) (w : W) : Runs C p w (interp h p w).1 (interp h p w).2 := by
  induction p generalizing w with
  | ret a => exact .ret a w
  | ask q k ih => exact .ask (answers q w) (ih _ _)

theorem reachable_interp {V : Type} {world : V → W} {h : (q : Q) → V → A q × V}
    (answers : ∀ q v, C.post (world v) q (h q v).1 (world (h q v).2)) {turn : α → Prog Q A α}
    {start : α} {init : W → Prop} {p : Prog Q A α} {v : V}
    (reachable : (server C turn start init).Reachable (p, world v)) :
    (server C turn start init).Reachable (.ret (interp h p v).1, world (interp h p v).2) := by
  induction p generalizing v with
  | ret a => exact reachable
  | ask q k ih =>
      apply ih
      exact reachable.step (a := ()) ⟨_, answers q v, rfl⟩

/-- The first `n` calls of a program, as far as it makes them. -/
def calls (h : (q : Q) → W → A q × W) : Nat → Prog Q A α → W → Prog Q A α × W
  | 0, p, w => (p, w)
  | _ + 1, .ret a, w => (.ret a, w)
  | n + 1, .ask q k, w => calls h n (k (h q w).1) (h q w).2

theorem reachable_calls {V : Type} {world : V → W} {h : (q : Q) → V → A q × V}
    (answers : ∀ q v, C.post (world v) q (h q v).1 (world (h q v).2)) {turn : α → Prog Q A α}
    {start : α} {init : W → Prop} (n : Nat) {p : Prog Q A α} {v : V}
    (reachable : (server C turn start init).Reachable (p, world v)) :
    (server C turn start init).Reachable ((calls h n p v).1, world (calls h n p v).2) := by
  induction n generalizing p v with
  | zero => exact reachable
  | succ n ih =>
      cases p with
      | ret a => exact reachable
      | ask q k => exact ih (reachable.step (a := ()) ⟨_, answers q v, rfl⟩)

def turns (h : (q : Q) → W → A q × W) (turn : α → Prog Q A α) : Nat → α × W → α × W
  | 0, c => c
  | n + 1, c => turns h turn n (interp h (turn c.1) c.2)

theorem reachable_turns {V : Type} {world : V → W} {h : (q : Q) → V → A q × V}
    (answers : ∀ q v, C.post (world v) q (h q v).1 (world (h q v).2)) {turn : α → Prog Q A α}
    {start : α} {init : W → Prop} (n : Nat) {a : α} {v : V}
    (reachable : (server C turn start init).Reachable (.ret a, world v)) :
    (server C turn start init).Reachable
      (.ret (turns h turn n (a, v)).1, world (turns h turn n (a, v)).2) := by
  induction n generalizing a v with
  | zero => exact reachable
  | succ n ih =>
      apply ih
      apply reachable_interp answers
      exact reachable.step (a := ()) rfl

end Prog

end Psplink.Lib
