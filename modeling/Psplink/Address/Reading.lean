import Psplink.Address.Tokens

/-!
# Readings of a line

A reading follows the turns of the loop through a line and says whether one of them went beyond the grammar. The
loop accepts a line if and only if there is a reading of all of it.
-/

namespace Psplink.Address
open Psplink.Lib Psplink.Util

/-! ## Readings -/

/-- An operand goes beyond the grammar where there is no operator before it, and has no value behind a division by zero
or a shift by more than the width. -/
def Loop.slack (st : Loop) (temp : Word) : Bool :=
  let right := complement st.not temp
  st.op = .none ∨ st.op = .div ∧ right = 0 ∨ (st.op = .shl ∨ st.op = .shr) ∧ 32 ≤ right.toNat

/-- The text in brackets and the text after it. -/
abbrev Cut := Bytes → Bytes → Bytes → Prop

def CodeCut : Cut := fun line inner rest => bracket 1 line = some (inner, rest)

def AnyCut : Cut := fun line inner rest => line = inner ++ closing :: rest

/-- The loop gets from one place to another, and the last index says whether it has left the grammar: with a complement
behind an operand, an operand behind an operand, brackets that end without an operand, an operand that is missing or
an operation without a value. -/
inductive Reads (env : Env) (cut : Cut) : Loop → Bytes → Loop → Bytes → Bool → Prop
  | stop (st : Loop) (line : Bytes) : Reads env cut st line st line false
  | skip {st next st' : Loop} {c : UInt8} {line line' rest : Bytes} {k : Bool} : turn st c line = .skips next line' →
      Reads env cut next line' st' rest k → Reads env cut st (c :: line) st' rest (st.op = .none ∧ c = tilde ∨ k)
  | name {st st' : Loop} {c : UInt8} {line line' rest : Bytes} {k : Bool} {o : Named} {temp v : Word} :
      turn st c line = .looksUp o line' → (env.lookup o).value = some temp → env.derefAddr st.deref temp = some v →
      Reads env cut (st.after v) line' st' rest k →
      Reads env cut st (c :: line) st' rest (env.missing o ∨ st.slack v ∨ k)
  | number {st st' : Loop} {c : UInt8} {line line' rest : Bytes} {k : Bool} {temp v : Word} :
      turn st c line = .number temp line' → env.derefAddr st.deref temp = some v →
      Reads env cut (st.after v) line' st' rest k → Reads env cut st (c :: line) st' rest (st.slack v ∨ k)
  | bracket {st st' inside : Loop} {c : UInt8} {line line' inner rest : Bytes} {k k' : Bool} {v : Word} :
      turn st c line = .opens → cut line inner line' → Reads env cut .first inner inside [] k' →
      env.derefAddr st.deref inside.val = some v → Reads env cut (st.after v) line' st' rest k →
      Reads env cut st (c :: line) st' rest (k' ∨ inside.op ≠ .none ∨ st.slack v ∨ k)

namespace Reads

variable {env : Env} {cut : Cut}

theorem mono {cut' : Cut} (weaker : ∀ line inner rest, cut line inner rest → cut' line inner rest) {st st' : Loop}
    {line rest : Bytes} {k : Bool} (reads : Reads env cut st line st' rest k) : Reads env cut' st line st' rest k := by
  induction reads with
  | stop st line => exact .stop st line
  | skip skips _ ih => exact .skip skips ih
  | name looks value deref _ ih => exact .name looks value deref ih
  | number number deref _ ih => exact .number number deref ih
  | bracket opens cut _ deref _ ihInner ih => exact .bracket opens (weaker _ _ _ cut) ihInner deref ih

theorem trans {st st' st'' : Loop} {line line' rest : Bytes} {k k' : Bool} (first : Reads env cut st line st' line' k)
    (second : Reads env cut st' line' st'' rest k') : Reads env cut st line st'' rest (k || k') := by
  induction first with
  | stop st line => exact second
  | skip skips _ ih =>
      have whole := Reads.skip skips (ih second)
      simpa only [Bool.decide_or, Bool.decide_and, Bool.decide_eq_true, Bool.or_assoc] using whole
  | name looks value deref _ ih =>
      have whole := Reads.name looks value deref (ih second)
      simpa only [Bool.decide_or, Bool.decide_and, Bool.decide_eq_true, Bool.or_assoc] using whole
  | number number deref _ ih =>
      have whole := Reads.number number deref (ih second)
      simpa only [Bool.decide_or, Bool.decide_and, Bool.decide_eq_true, Bool.or_assoc] using whole
  | bracket opens cut inner deref _ _ ih =>
      have whole := Reads.bracket opens cut inner deref (ih second)
      simpa only [Bool.decide_or, Bool.decide_and, Bool.decide_eq_true, Bool.or_assoc] using whole

end Reads

/-! ## The loop -/

theorem bracket_split {depth : Nat} {line inner rest : Bytes} (here : bracket depth line = some (inner, rest)) :
    line = inner ++ closing :: rest := by
  induction line generalizing depth inner with
  | nil => cases here
  | cons c line ih =>
      rw [bracket] at here
      split at here
      · next ends =>
        obtain ⟨rfl, rfl⟩ := Prod.mk.inj (Option.some.inj here)
        rw [ends.1, List.nil_append]
      · obtain ⟨found, within, same⟩ := Option.map_eq_some_iff.mp here
        obtain ⟨rfl, rfl⟩ := Prod.mk.inj same
        rw [ih within, List.cons_append]

section Parse

variable {env : Env} {fuel : Nat} {st : Loop} {c : UInt8} {line : Bytes}

def operate (env : Env) (fuel : Nat) (st : Loop) (rest : Bytes) (temp : Word) : Option Word :=
  (env.derefAddr st.deref temp).bind fun v => (parseLine env fuel (st.after v) rest).1

theorem parse_fails (fails : turn st c line = .fails) : (parseLine env (fuel + 1) st (c :: line)).1 = none := by
  rw [parseLine]
  simp only [fails]

theorem parse_skips {next : Loop} {rest : Bytes} (skips : turn st c line = .skips next rest) :
    (parseLine env (fuel + 1) st (c :: line)).1 = (parseLine env fuel next rest).1 := by
  rw [parseLine]
  simp only [skips]

theorem parse_looksUp {o : Named} {rest : Bytes} (looks : turn st c line = .looksUp o rest) :
    (parseLine env (fuel + 1) st (c :: line)).1 = (env.lookup o).value.bind (operate env fuel st rest) := by
  rw [parseLine]
  simp only [looks]
  cases (env.lookup o).value with
  | none => rfl
  | some temp =>
      dsimp only
      rw [Option.bind_some, operate]
      cases env.derefAddr st.deref temp <;> rfl

theorem parse_number {temp : Word} {rest : Bytes} (number : turn st c line = .number temp rest) :
    (parseLine env (fuel + 1) st (c :: line)).1 = operate env fuel st rest temp := by
  rw [parseLine]
  simp only [number]
  rw [operate]
  cases env.derefAddr st.deref temp <;> rfl

theorem parse_opens (opens : turn st c line = .opens) :
    (parseLine env (fuel + 1) st (c :: line)).1 =
      (bracket 1 line).bind fun cut => (parseLine env fuel .first cut.1).1.bind (operate env fuel st cut.2) := by
  rw [parseLine]
  simp only [opens]
  cases bracket 1 line with
  | none => rfl
  | some cut =>
      rw [Option.bind_some]
      dsimp only
      generalize parseLine env fuel .first cut.1 = inner
      obtain ⟨value, log⟩ := inner
      cases value with
      | none => rfl
      | some temp =>
          dsimp only
          rw [Option.bind_some, operate]
          cases env.derefAddr st.deref temp <;> rfl

/-- What the loop accepts has a reading. -/
theorem reads_of_parse {v : Word} (accepts : (parseLine env fuel st line).1 = some v) :
    ∃ st' k, Reads env CodeCut st line st' [] k ∧ st'.val = v := by
  induction fuel generalizing st line v with
  | zero => cases accepts
  | succ fuel ih =>
      cases line with
      | nil =>
          obtain rfl := Option.some.inj accepts
          exact ⟨st, false, .stop st [], rfl⟩
      | cons c line =>
          have operated {rest : Bytes} {temp v : Word} (is : operate env fuel st rest temp = some v) :
              ∃ u st' k, env.derefAddr st.deref temp = some u ∧ Reads env CodeCut (st.after u) rest st' [] k ∧ st'.val = v := by
            obtain ⟨u, deref, more⟩ := Option.bind_eq_some_iff.mp is
            obtain ⟨st', k, reads, value⟩ := ih more
            exact ⟨u, st', k, deref, reads, value⟩
          cases here : turn st c line with
          | fails =>
              rw [parse_fails here] at accepts
              cases accepts
          | skips next rest =>
              rw [parse_skips here] at accepts
              obtain ⟨st', k, reads, value⟩ := ih accepts
              exact ⟨st', _, .skip here reads, value⟩
          | looksUp o rest =>
              rw [parse_looksUp here] at accepts
              obtain ⟨temp, found, more⟩ := Option.bind_eq_some_iff.mp accepts
              obtain ⟨u, st', k, deref, reads, value⟩ := operated more
              exact ⟨st', _, .name here found deref reads, value⟩
          | number temp rest =>
              rw [parse_number here] at accepts
              obtain ⟨u, st', k, deref, reads, value⟩ := operated accepts
              exact ⟨st', _, .number here deref reads, value⟩
          | opens =>
              rw [parse_opens here] at accepts
              obtain ⟨cut, brackets, more⟩ := Option.bind_eq_some_iff.mp accepts
              obtain ⟨temp, within, more⟩ := Option.bind_eq_some_iff.mp more
              obtain ⟨inside, k', inner, rfl⟩ := ih within
              obtain ⟨u, st', k, deref, reads, value⟩ := operated more
              exact ⟨st', _, .bracket here brackets inner deref reads, value⟩

/-- A reading of a whole line is accepted, with fuel for each character. -/
theorem parse_of_reads {st' : Loop} {rest : Bytes} {k : Bool} (reads : Reads env CodeCut st line st' rest k)
    (whole : rest = []) (fuelled : line.length < fuel) : (parseLine env fuel st line).1 = some st'.val := by
  induction reads generalizing fuel with
  | stop st line =>
      subst whole
      obtain ⟨fuel, rfl⟩ := Nat.exists_eq_succ_of_ne_zero (Nat.ne_of_gt fuelled)
      rfl
  | @skip st next st' c line line' rest k skips _ ih =>
      obtain ⟨fuel, rfl⟩ := Nat.exists_eq_succ_of_ne_zero (Nat.ne_of_gt (Nat.zero_lt_of_lt fuelled))
      have short := turn_skips_length skips
      rw [List.length_cons] at fuelled
      rw [parse_skips skips]
      exact ih whole (by omega)
  | @name st st' c line line' rest k o temp v looks value deref _ ih =>
      obtain ⟨fuel, rfl⟩ := Nat.exists_eq_succ_of_ne_zero (Nat.ne_of_gt (Nat.zero_lt_of_lt fuelled))
      have short := turn_looksUp_length looks
      rw [List.length_cons] at fuelled
      rw [parse_looksUp looks, value, Option.bind_some, operate, deref, Option.bind_some]
      exact ih whole (by omega)
  | @number st st' c line line' rest k temp v number deref reads ih =>
      obtain ⟨fuel, rfl⟩ := Nat.exists_eq_succ_of_ne_zero (Nat.ne_of_gt (Nat.zero_lt_of_lt fuelled))
      rw [List.length_cons] at fuelled
      rcases turn_number_length number with short | ⟨rfl, stuck⟩
      · rw [parse_number number, operate, deref, Option.bind_some]
        exact ih whole (by omega)
      · have fails := stuck (st.after v) rfl
        subst whole
        cases reads with
        | skip next | name next | number next | bracket next =>
            rw [fails] at next
            cases next
  | @bracket st st' inside c line line' inner rest k k' v opens cut _ deref _ ihInner ih =>
      obtain ⟨fuel, rfl⟩ := Nat.exists_eq_succ_of_ne_zero (Nat.ne_of_gt (Nat.zero_lt_of_lt fuelled))
      have lengths := congrArg List.length (bracket_split cut)
      rw [List.length_append, List.length_cons] at lengths
      rw [List.length_cons] at fuelled
      have brackets : bracket 1 line = some (inner, line') := cut
      rw [parse_opens opens, brackets, Option.bind_some, ihInner rfl (by omega), Option.bind_some, operate, deref,
        Option.bind_some]
      exact ih whole (by omega)

end Parse

theorem memDecode_iff (env : Env) (line : CStr) (v : Word) :
    memDecode env line = some v ↔ ∃ st k, Reads env CodeCut .first (lineBuf line) st [] k ∧ st.val = v := by
  constructor
  · exact reads_of_parse
  · rintro ⟨st, k, reads, rfl⟩
    exact parse_of_reads reads rfl (by omega)

end Psplink.Address
