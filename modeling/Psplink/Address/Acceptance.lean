import Psplink.Address.Evaluation

/-!
# Accepted lines

A reading that stays inside the grammar is a sentence with a value. A reading that does not is the only one of its
line, so that the line is no such sentence.
-/

namespace Psplink.Address
open Psplink.Lib Psplink.Util

/-! ## Sentences from readings -/

/-- What the text before a place of the loop says. -/
inductive Before (env : Env) : Bytes → Loop → Prop
  | first {group : Bytes} : PrefixText group → Before env group ⟨.start, group.count star, group.count tilde, 0⟩
  | operand {e : Expr} {text space : Bytes} {v : Word} : Spells .sentence e text → Spaces space → e.eval env = some v →
      Before env (text ++ space) ⟨.none, 0, 0, v⟩
  | operator {e : Expr} {text space sign group : Bytes} {v : Word} {op : Operator} : Spells .sentence e text →
      Spaces space → e.eval env = some v → operatorText op = some sign → PrefixText group →
      Before env (text ++ space ++ sign ++ group) ⟨op, group.count star, group.count tilde, v⟩

theorem prefixText_nil : PrefixText [] := fun _ mem => absurd mem List.not_mem_nil

theorem spaces_nil : Spaces [] := fun _ mem => absurd mem List.not_mem_nil

theorem prefixText_concat {group : Bytes} (is : PrefixText group) {c : UInt8} (here : isAspace c ∨ c = tilde ∨ c = star) :
    PrefixText (group ++ [c]) := by
  intro d mem
  rcases List.mem_append.mp mem with mem | mem
  · exact is d mem
  · rwa [List.mem_singleton.mp mem]

theorem spaces_concat {space : Bytes} (spaces : Spaces space) {c : UInt8} (here : isAspace c) : Spaces (space ++ [c]) := by
  intro d mem
  rcases List.mem_append.mp mem with mem | mem
  · exact spaces d mem
  · rwa [List.mem_singleton.mp mem]

theorem apply_of_slack {op : Operator} {left right : Word} (sound : (⟨op, 0, 0, left⟩ : Loop).slack right = false)
    (notStart : op ≠ .start) : op.apply left right = some (doOp op 0 left right) := by
  have clean := of_decide_eq_false sound
  simp only [complement, not_or, not_and_or, not_le] at clean
  obtain ⟨notNone, divides, shifts⟩ := clean
  cases op
  case start => exact absurd rfl notStart
  case none => exact absurd rfl notNone
  case div =>
    have some_ : right ≠ 0 := divides.resolve_left (by simp)
    have computed : doOp .div 0 left right = left / right := if_pos some_
    rw [computed]
    exact if_neg some_
  case shl | shr =>
    have small := shifts.resolve_left (by simp)
    simp only [Operator.apply, doOp, complement, if_pos small, Nat.mod_eq_of_lt small]
  all_goals rfl

namespace Before

variable {env : Env} {front : Bytes} {st : Loop}

/-- Behind an operand stands a sentence. -/
theorem sentence (before : Before env front st) (done : st.op = .none) :
    ∃ e text space, Spells .sentence e text ∧ Spaces space ∧ e.eval env = some st.val ∧ front = text ++ space ∧
      st = ⟨.none, 0, 0, st.val⟩ := by
  cases before with
  | first => cases done
  | operand spelled spaces value => exact ⟨_, _, _, spelled, spaces, value, rfl, rfl⟩
  | @operator e text space sign group v op _ _ _ is _ =>
      obtain rfl : op = .none := done
      cases is

/-- An operand comes next. -/
theorem after (before : Before env front st) {e : Expr} {text : Bytes} (atom : Spells .atom e text) {temp v : Word}
    (value : e.eval env = some temp) (deref : env.derefAddr st.deref temp = some v) (sound : st.slack v = false) :
    Before env (front ++ text) (st.after v) := by
  have clean := of_decide_eq_false sound
  cases before with
  | first is =>
      have worth : (Expr.prefixed (front.count tilde) (front.count star) e).eval env =
          some (complement (front.count tilde) v) := by
        rw [Expr.eval, value, Option.bind_some, deref]
        rfl
      have spelled : Spells .sentence _ (front ++ text) := .single (.operand is atom)
      have whole := Before.operand spelled spaces_nil worth
      rwa [List.append_nil] at whole
  | operand => exact absurd (.inl rfl) clean
  | @operator e' text' space sign group left op spelled spaces leftValue is group_ =>
      have notStart : op ≠ .start := by
        rintro rfl
        cases is
      have applied : op.apply left (complement (group.count tilde) v) = some (doOp op (group.count tilde) left v) :=
        apply_of_slack sound notStart
      have worth : (Expr.binary e' op (.prefixed (group.count tilde) (group.count star) e)).eval env =
          some (doOp op (group.count tilde) left v) := by
        rw [Expr.eval, leftValue, Option.bind_some, Expr.eval, value, Option.bind_some, deref, Option.map_some,
          Option.bind_some, applied]
      have whole := Before.operand (Spells.binary spelled spaces is (.operand group_ atom)) spaces_nil worth
      rw [List.append_nil, ← List.append_assoc] at whole
      exact whole

/-- One more character that stands before an operand. -/
theorem concat (before : Before env front st) (more : st.op ≠ .none) {c : UInt8} (here : isAspace c ∨ c = tilde ∨ c = star) :
    Before env (front ++ [c]) { st with deref := st.deref + [c].count star, not := st.not + [c].count tilde } := by
  cases before with
  | first is =>
      have whole : Before env _ _ := .first (prefixText_concat is here)
      rwa [List.count_append, List.count_append] at whole
  | operand => exact absurd rfl more
  | operator spelled spaces value is group_ =>
      have whole := Before.operator spelled spaces value is (prefixText_concat group_ here)
      rw [List.append_assoc]
      rwa [List.count_append, List.count_append] at whole

theorem space (before : Before env front st) {c : UInt8} (here : isAspace c) : Before env (front ++ [c]) st := by
  by_cases more : st.op = .none
  swap
  · have noTilde : [c].count tilde = 0 := List.count_eq_zero.mpr fun mem => by
      rw [← List.mem_singleton.mp mem] at here
      cases here
    have noStar : [c].count star = 0 := List.count_eq_zero.mpr fun mem => by
      rw [← List.mem_singleton.mp mem] at here
      cases here
    have whole := before.concat more (.inl here)
    rwa [noStar, noTilde] at whole
  · obtain ⟨e, text, space, spelled, spaces, value, rfl, same⟩ := before.sentence more
    rw [same, List.append_assoc]
    exact .operand spelled (spaces_concat spaces here) value

theorem star (before : Before env front st) (more : st.op ≠ .none) :
    Before env (front ++ [Address.star]) { st with deref := st.deref + 1 } :=
  before.concat more (.inr (.inr rfl))

theorem tilde (before : Before env front st) (more : st.op ≠ .none) :
    Before env (front ++ [Address.tilde]) { st with not := st.not + 1 } :=
  before.concat more (.inr (.inl rfl))

theorem sign (before : Before env front st) (done : st.op = .none) {op : Operator} {sign : Bytes}
    (is : operatorText op = some sign) : Before env (front ++ sign) { st with op := op } := by
  obtain ⟨e, text, space, spelled, spaces, value, rfl, same⟩ := before.sentence done
  have whole := Before.operator spelled spaces value is prefixText_nil
  rw [List.append_nil] at whole
  rw [same]
  exact whole

end Before

theorem nameAt_spells {c : UInt8} {line rest : Bytes} {o : Named} (here : nameAt c line = some (o, rest)) :
    ∃ text, Spells .atom (.named o) text ∧ c :: line = text ++ rest := by
  cases nameAt_is here with
  | register isDollar =>
      have front : (line.takeWhile isAlnum).take 15 <+: line := (List.take_prefix _ _).trans (List.takeWhile_prefix _)
      refine ⟨_, .register fun d mem => List.mem_takeWhile_imp (List.mem_of_mem_take mem), ?_⟩
      rw [isDollar, List.cons_append]
      exact congrArg _ (List.prefix_iff_eq_append.mp front).symm
  | quoted noRegister isMark apart split =>
      refine ⟨_, .quoted noRegister apart, ?_⟩
      rw [isMark, split]
      simp

/-- At the end of a line, or at a closing bracket. -/
def Stuck (rest : Bytes) : Prop := ∀ c, rest.head? = some c → c = closing

theorem stuck_nil : Stuck [] := fun _ head => by cases head

theorem stuck_closing (rest : Bytes) : Stuck (closing :: rest) := fun _ head => (Option.some.inj head).symm

section Number

variable {env : Env} {cut : Cut} {st st' : Loop} {c : UInt8} {line line' rest : Bytes} {k : Bool} {temp v : Word}

theorem turn_number_hex (number : turn st c line = .number temp line') : isHex c := by
  have is := turn_is st c line
  rw [number] at is
  cases is with
  | number hex _ => exact hex

/-- A number that is read has got on with the line. -/
theorem number_progress (number : turn st c line = .number temp line') (reads : Reads env cut (st.after v) line' st' rest k)
    (stuck : Stuck rest) : line'.length ≤ line.length := by
  have noClosing : c ≠ closing := (hex_apart c (turn_number_hex number)).2.2.2.2.2
  rcases turn_number_length number with short | ⟨rfl, fails⟩
  · exact short
  · cases reads with
    | stop => exact absurd (stuck c rfl) noClosing
    | skip next | name next | number next | bracket next =>
        rw [fails (st.after v) rfl] at next
        cases next

theorem number_spells (number : turn st c line = .number temp line') (progress : line'.length ≤ line.length) :
    ∃ n text, Constant n text ∧ c :: line = text ++ line' ∧ temp = constValue n := by
  have is := turn_is st c line
  rw [number] at is
  cases is with
  | number hex _ =>
      refine constant_of_strtoul hex rfl fun same => ?_
      rw [same, List.length_cons] at progress
      omega

end Number

/-- What is read of the line behind a piece of it. -/
theorem onward {env : Env} {front text line line' rest : Bytes} {st : Loop} (split : line = text ++ line')
    (more : ∃ read, line' = read ++ rest ∧ Before env (front ++ text ++ read) st) :
    ∃ read, line = read ++ rest ∧ Before env (front ++ read) st := by
  obtain ⟨read, behind, before⟩ := more
  exact ⟨text ++ read, by rw [split, behind, List.append_assoc], by rwa [← List.append_assoc]⟩

/-- A reading inside the grammar keeps what the text before says. -/
theorem before_of_reads {env : Env} {cut : Cut} (splits : ∀ line inner rest, cut line inner rest → AnyCut line inner rest)
    {st st' : Loop} {line rest : Bytes} {k : Bool} (reads : Reads env cut st line st' rest k) (inGrammar : k = false)
    (stuck : Stuck rest) {front : Bytes} (before : Before env front st) :
    ∃ read, line = read ++ rest ∧ Before env (front ++ read) st' := by
  induction reads generalizing front with
  | stop st line => exact ⟨[], rfl, by rwa [List.append_nil]⟩
  | @skip st next st' c line line' rest k skips _ ih =>
      have clean := of_decide_eq_false inGrammar
      obtain ⟨noTilde, inside⟩ := not_or.mp clean
      have more {text : Bytes} (before' : Before env (front ++ text) next) := ih (eq_false_of_ne_true inside) stuck before'
      have is := turn_is st c line
      rw [skips] at is
      cases is with
      | space here => exact onward (show _ = [c] ++ _ from rfl) (more (before.space here))
      | star isStar another => exact onward (isStar ▸ rfl) (more (before.star another))
      | tilde isTilde =>
          have another : st.op ≠ .none := fun done => noTilde ⟨done, isTilde⟩
          exact onward (isTilde ▸ rfl) (more (before.tilde another))
      | operator _ done at_ =>
          obtain ⟨-, sign, is, split⟩ := operatorText_of_at at_
          exact onward split (more (before.sign done is))
  | @name st st' c line line' rest k o temp v looks value deref _ ih =>
      have clean := of_decide_eq_false inGrammar
      obtain ⟨known, more⟩ := not_or.mp clean
      obtain ⟨sound, inside⟩ := not_or.mp more
      have is := turn_is st c line
      rw [looks] at is
      cases is with
      | name _ at_ =>
          obtain ⟨text, spells, split⟩ := nameAt_spells at_
          have worth : (Expr.named o).eval env = some temp := by rw [Expr.eval, if_neg known, value]
          have behind := before.after spells worth deref (eq_false_of_ne_true sound)
          exact onward split (ih (eq_false_of_ne_true inside) stuck behind)
  | @number st st' c line line' rest k temp v number deref reads ih =>
      have clean := of_decide_eq_false inGrammar
      obtain ⟨sound, inside⟩ := not_or.mp clean
      obtain ⟨n, text, constant, split, rfl⟩ := number_spells number (number_progress number reads stuck)
      have behind := before.after (.const constant) rfl deref (eq_false_of_ne_true sound)
      exact onward split (ih (eq_false_of_ne_true inside) stuck behind)
  | @bracket st st' inside c line line' inner rest k k' v opens cuts _ deref _ ihInner ih =>
      have clean := of_decide_eq_false inGrammar
      obtain ⟨within, more⟩ := not_or.mp clean
      obtain ⟨closed, more⟩ := not_or.mp more
      obtain ⟨sound, inside'⟩ := not_or.mp more
      have is := turn_is st c line
      rw [opens] at is
      cases is with
      | opening isOpening =>
          obtain ⟨read, rfl, before'⟩ := ihInner (eq_false_of_ne_true within) stuck_nil (.first prefixText_nil)
          rw [List.nil_append] at before'
          obtain ⟨e, text, space, spelled, spaces, worth, rfl, -⟩ := before'.sentence (not_not.mp closed)
          have behind := before.after (.paren spelled spaces) worth deref (eq_false_of_ne_true sound)
          refine onward ?_ (ih (eq_false_of_ne_true inside') stuck behind)
          have split := splits _ _ _ cuts
          rw [AnyCut, List.append_nil] at split
          rw [split, isOpening]
          simp

/-! ## Readings are unique -/

section Append

variable {env : Env} {st : Loop} {c : UInt8} {line rest : Bytes} (x : Bytes)

theorem closing_ends : Ends (closing :: x) := by
  intro c head
  obtain rfl := Option.some.inj head
  decide

theorem nameAt_append {o : Named} (here : nameAt c line = some (o, rest)) :
    nameAt c (line ++ closing :: x) = some (o, rest ++ closing :: x) := by
  cases nameAt_is here with
  | register isDollar =>
      have front := (takeWhile_ends (fun _ => id) line (closing_ends x)).1
      have inside : ((line.takeWhile isAlnum).take 15).length ≤ line.length :=
        (List.length_take_le' _ _).trans (List.takeWhile_prefix _).length_le
      rw [nameAt, if_pos isDollar, front]
      dsimp only
      rw [List.drop_append_of_le_length inside]
  | quoted noRegister isMark apart split =>
      rw [isMark, split, List.append_assoc, List.cons_append]
      exact nameAt_quoted noRegister apart _

theorem turn_skips_append {next : Loop} (skips : turn st c line = .skips next rest) :
    turn st c (line ++ closing :: x) = .skips next (rest ++ closing :: x) := by
  have is := turn_is st c line
  rw [skips] at is
  cases is with
  | space here => exact turn_space here
  | star isStar more => exact isStar ▸ turn_star more
  | tilde isTilde => exact isTilde ▸ turn_tilde
  | operator _ done at_ => exact turn_operator done (operatorAt_append at_ (by decide))

theorem turn_looksUp_append {o : Named} (looks : turn st c line = .looksUp o rest) :
    turn st c (line ++ closing :: x) = .looksUp o (rest ++ closing :: x) := by
  have is := turn_is st c line
  rw [looks] at is
  cases is with
  | name kind at_ => exact turn_kind kind (nameAt_append x at_)

theorem turn_number_append {temp : Word} (number : turn st c line = .number temp rest) :
    turn st c (line ++ closing :: x) = .number temp (rest ++ closing :: x) := by
  have is := turn_is st c line
  rw [number] at is
  cases is with
  | number hex more =>
      have longer := strtoul_ends hex line (closing_ends x)
      rw [List.cons_append] at longer
      rw [turn_hex hex more, longer]

theorem turn_opens_append (opens : turn st c line = .opens) : turn st c (line ++ closing :: x) = .opens := by
  have is := turn_is st c line
  rw [opens] at is
  cases is with
  | opening isOpening => exact isOpening ▸ turn_opening

theorem turn_closing : turn st closing line = .fails := by
  by_cases done : st.op = .none
  · rw [turn, if_neg (by decide), if_neg fun both => absurd both.1 (by decide), if_neg (by decide), if_neg (by decide),
      if_neg (by decide), if_neg (by decide), if_neg (not_not.mpr done)]
    rfl
  · rw [turn, if_neg (by decide), if_neg fun both => absurd both.1 (by decide), if_neg (by decide), if_neg (by decide),
      if_neg (by decide), if_neg (by decide), if_pos done]

end Append

/-- Text behind a closing bracket does not change what is read before it. -/
theorem reads_append {env : Env} {st st' : Loop} {line rest : Bytes} {k : Bool}
    (reads : Reads env AnyCut st line st' rest k) (x : Bytes) :
    Reads env AnyCut st (line ++ closing :: x) st' (rest ++ closing :: x) k := by
  induction reads with
  | stop st line => exact .stop st _
  | skip skips _ ih => exact .skip (turn_skips_append x skips) ih
  | name looks value deref _ ih => exact .name (turn_looksUp_append x looks) value deref ih
  | number number deref _ ih => exact .number (turn_number_append x number) deref ih
  | bracket opens cuts inner deref _ _ ih =>
      refine .bracket (turn_opens_append x opens) ?_ inner deref ih
      rw [AnyCut] at cuts ⊢
      rw [cuts]
      simp

/-- Only a turn that fails stands where a reading is stuck. -/
theorem stop_fails {st : Loop} {c : UInt8} {line : Bytes} (stuck : Stuck (c :: line)) : turn st c line = .fails :=
  (stuck c rfl).symm ▸ turn_closing

/-- Two readings that go on until they are stuck are the same. -/
theorem reads_unique {env : Env} {n : Nat} {st st₁ st₂ : Loop} {line rest₁ rest₂ : Bytes} {k₁ k₂ : Bool}
    (short : line.length ≤ n) (first : Reads env AnyCut st line st₁ rest₁ k₁) (stuck₁ : Stuck rest₁)
    (second : Reads env AnyCut st line st₂ rest₂ k₂) (stuck₂ : Stuck rest₂) : st₁ = st₂ ∧ rest₁ = rest₂ ∧ k₁ = k₂ := by
  induction n generalizing st st₁ st₂ line rest₁ rest₂ k₁ k₂ with
  | zero =>
      obtain rfl := List.length_eq_zero_iff.mp (Nat.le_zero.mp short)
      cases first
      cases second
      exact ⟨rfl, rfl, rfl⟩
  | succ n ih =>
      cases first with
      | stop =>
          cases second with
          | stop => exact ⟨rfl, rfl, rfl⟩
          | skip next | name next | number next | bracket next =>
              rw [stop_fails stuck₁] at next
              cases next
      | @skip _ next _ c line line' _ k skips more =>
          have shorter := turn_skips_length skips
          rw [List.length_cons] at short
          cases second with
          | stop =>
              rw [stop_fails stuck₂] at skips
              cases skips
          | skip skips' more' =>
              obtain ⟨rfl, rfl⟩ := Turn.skips.inj (skips.symm.trans skips')
              obtain ⟨rfl, rfl, rfl⟩ := ih (by omega) more stuck₁ more' stuck₂
              exact ⟨rfl, rfl, rfl⟩
          | name other | number other | bracket other => cases skips.symm.trans other
      | @name _ _ c line line' _ k o temp v looks value deref more =>
          have shorter := turn_looksUp_length looks
          rw [List.length_cons] at short
          cases second with
          | stop =>
              rw [stop_fails stuck₂] at looks
              cases looks
          | name looks' value' deref' more' =>
              obtain ⟨rfl, rfl⟩ := Turn.looksUp.inj (looks.symm.trans looks')
              obtain rfl := Option.some.inj (value.symm.trans value')
              obtain rfl := Option.some.inj (deref.symm.trans deref')
              obtain ⟨rfl, rfl, rfl⟩ := ih (by omega) more stuck₁ more' stuck₂
              exact ⟨rfl, rfl, rfl⟩
          | skip other | number other | bracket other => cases looks.symm.trans other
      | @number _ _ c line line' _ k temp v number deref more =>
          have shorter := number_progress number more stuck₁
          rw [List.length_cons] at short
          cases second with
          | stop =>
              rw [stop_fails stuck₂] at number
              cases number
          | number number' deref' more' =>
              obtain ⟨rfl, rfl⟩ := Turn.number.inj (number.symm.trans number')
              obtain rfl := Option.some.inj (deref.symm.trans deref')
              obtain ⟨rfl, rfl, rfl⟩ := ih (by omega) more stuck₁ more' stuck₂
              exact ⟨rfl, rfl, rfl⟩
          | skip other | name other | bracket other => cases number.symm.trans other
      | @bracket _ _ inside c line line' inner _ k k' v opens cuts within deref more =>
          rw [List.length_cons] at short
          cases second with
          | stop =>
              rw [stop_fails stuck₂] at opens
              cases opens
          | @bracket _ _ inside₂ _ _ line₂ inner₂ _ _ _ _ _ cuts' within' deref' more' =>
              have whole := reads_append within line'
              have whole' := reads_append within' line₂
              rw [List.nil_append, ← cuts] at whole
              rw [List.nil_append, ← cuts'] at whole'
              obtain ⟨rfl, rests, rfl⟩ := ih (by omega) whole (stuck_closing _) whole' (stuck_closing _)
              obtain rfl := (List.cons.inj rests).2
              obtain rfl := Option.some.inj (deref.symm.trans deref')
              have lengths := congrArg List.length cuts
              rw [List.length_append, List.length_cons] at lengths
              obtain ⟨rfl, rfl, rfl⟩ := ih (by omega) more stuck₁ more' stuck₂
              exact ⟨rfl, rfl, rfl⟩
          | skip other | name other | number other => cases opens.symm.trans other

/-! ## Acceptance -/

/-- A line that is read to its end and leaves the grammar on the way, or ends without an operand. -/
def BeyondGrammar (env : Env) (line : Bytes) : Prop :=
  ∃ st k, Reads env CodeCut .first line st [] k ∧ (k = true ∨ st.op ≠ .none)

def SentenceWithValue (env : Env) (line : Bytes) : Prop := ∃ e, SpellsLine e line ∧ e.eval env ≠ none

theorem anyCut_of_code {line inner rest : Bytes} (cut : CodeCut line inner rest) : AnyCut line inner rest := bracket_split cut

theorem sentence_of_reads {env : Env} {line : Bytes} {st : Loop} {k : Bool} (reads : Reads env CodeCut .first line st [] k)
    (inside : ¬ BeyondGrammar env line) : SentenceWithValue env line := by
  have clean : ¬ (k = true ∨ st.op ≠ .none) := fun leaves => inside ⟨st, k, reads, leaves⟩
  obtain ⟨inGrammar, ends⟩ := not_or.mp clean
  have done : st.op = .none := not_not.mp ends
  obtain ⟨read, split, before⟩ := before_of_reads (fun _ _ _ => anyCut_of_code) reads (eq_false_of_ne_true inGrammar)
    stuck_nil (.first prefixText_nil)
  rw [List.append_nil] at split
  rw [List.nil_append, ← split] at before
  obtain ⟨e, text, space, spelled, spaces, value, rfl, -⟩ := before.sentence done
  exact ⟨e, ⟨text, space, spelled, spaces, rfl⟩, by rw [value]; exact Option.some_ne_none _⟩

theorem cutsSentences_any : CutsSentences (fun _ => True) AnyCut := fun _ _ _ _ _ _ _ => rfl

theorem namesAre_true (e : Expr) : e.NamesAre fun _ => True := by
  induction e with
  | const | named => trivial
  | paren _ ih | prefixed _ _ _ ih => exact ih
  | binary _ _ _ ihLeft ihRight => exact ⟨ihLeft, ihRight⟩

theorem not_sentence_of_beyond {env : Env} {line : Bytes} (beyond : BeyondGrammar env line) : ¬ SentenceWithValue env line := by
  obtain ⟨st, k, reads, leaves⟩ := beyond
  rintro ⟨e, spells, defined⟩
  obtain ⟨v, value⟩ := Option.ne_none_iff_exists'.mp defined
  have strict := reads_of_spellsLine cutsSentences_any spells (namesAre_true e) value
  obtain ⟨rfl, -, rfl⟩ := reads_unique (Nat.le_refl _) (reads.mono fun _ _ _ => anyCut_of_code) stuck_nil strict stuck_nil
  rcases leaves with inGrammar | unfinished
  · cases inGrammar
  · exact unfinished rfl

/-- What is decoded is a sentence with a value, if and only if the line is not read to its end beyond the grammar. -/
theorem accepted_iff (env : Env) (line : CStr) (short : line.text.length ≤ 1023) :
    (memDecode env line ≠ none → SentenceWithValue env line.text) ↔ ¬ BeyondGrammar env line.text := by
  have whole : lineBuf line = line.text := List.take_of_length_le short
  constructor
  · intro sound beyond
    refine not_sentence_of_beyond beyond (sound ?_)
    obtain ⟨st, k, reads, -⟩ := beyond
    have accepts : memDecode env line = some st.val := (memDecode_iff env line st.val).mpr ⟨st, k, whole ▸ reads, rfl⟩
    rw [accepts]
    exact Option.some_ne_none _
  · intro inside accepts
    obtain ⟨v, value⟩ := Option.ne_none_iff_exists'.mp accepts
    obtain ⟨st, k, reads, -⟩ := (memDecode_iff env line v).mp value
    rw [whole] at reads
    exact sentence_of_reads reads inside

theorem accepted_sum : (memDecode bareEnv sumLine ≠ none → SentenceWithValue bareEnv sumLine.text) ↔
    ¬ BeyondGrammar bareEnv sumLine.text := accepted_iff bareEnv sumLine (by decide)

theorem division_nulFree : 0 ∉ ascii "4/0" := by decide

def divisionLine : CStr := ⟨ascii "4/0", division_nulFree⟩

/-- A division by zero is one. -/
theorem division_accepted : memDecode bareEnv divisionLine = some 1 ∧ ¬ SentenceWithValue bareEnv divisionLine.text := by
  refine ⟨by decide +kernel, not_sentence_of_beyond ⟨⟨.none, 0, 0, 1⟩, true, ?_, .inl rfl⟩⟩
  have last : Reads bareEnv CodeCut ⟨.div, 0, 0, 4⟩ [48] ⟨.none, 0, 0, 1⟩ [] true :=
    @Reads.number bareEnv CodeCut ⟨.div, 0, 0, 4⟩ ⟨.none, 0, 0, 1⟩ 48 [] [] [] false 0 0 rfl rfl (.stop _ _)
  have operator : Reads bareEnv CodeCut ⟨.none, 0, 0, 4⟩ [47, 48] ⟨.none, 0, 0, 1⟩ [] true :=
    @Reads.skip bareEnv CodeCut _ ⟨.div, 0, 0, 4⟩ _ 47 _ [48] _ true rfl last
  exact @Reads.number bareEnv CodeCut .first ⟨.none, 0, 0, 1⟩ 52 _ [47, 48] [] true 4 4 rfl rfl operator

end Psplink.Address
