import Psplink.Address.Reading
import Psplink.Symbols.Requests

/-!
# Evaluation of expression trees

However a tree is written, its text is read to its end with the value of the tree.
-/

namespace Psplink.Address
open Psplink.Lib Psplink.Util Psplink.Symbols

/-! ## Operations -/

theorem doOp_of_apply {op : Operator} {left right w : Word} (value : op.apply left right = some w) :
    doOp op 0 left right = w := by
  unfold Operator.apply at value
  cases op
  case shl | shr =>
    dsimp only at value
    split at value
    · next small =>
      obtain rfl := Option.some.inj value
      simp only [doOp, complement, Nat.mod_eq_of_lt small]
    · cases value
  case div =>
    dsimp only at value
    split at value
    · cases value
    · next some_ =>
      obtain rfl := Option.some.inj value
      exact if_pos some_
  all_goals
    cases value
    try rfl

theorem slack_of_apply {op : Operator} {left right w : Word} (value : op.apply left right = some w) :
    (⟨op, 0, 0, left⟩ : Loop).slack right = false := by
  refine decide_eq_false ?_
  rintro (rfl | ⟨rfl, zero⟩ | ⟨rfl | rfl, large⟩)
  · cases value
  · have noDivision : Operator.apply .div left right = none := if_pos zero
    cases noDivision.symm.trans value
  · have noShift : Operator.apply .shl left right = none := if_neg (not_lt.mpr large)
    cases noShift.symm.trans value
  · have noShift : Operator.apply .shr left right = none := if_neg (not_lt.mpr large)
    cases noShift.symm.trans value

/-! ## Parts of a line -/

section Parts

variable {env : Env} {cut : Cut}

theorem Reads.cast {st st' : Loop} {line rest : Bytes} {k k' : Bool} (reads : Reads env cut st line st' rest k)
    (same : k = k') : Reads env cut st line st' rest k' := same ▸ reads

theorem reads_spaces (st : Loop) {space : Bytes} (spaces : Spaces space) (rest : Bytes) :
    Reads env cut st (space ++ rest) st rest false := by
  induction space with
  | nil => exact .stop st rest
  | cons c space ih =>
      have here := spaces c List.mem_cons_self
      have noTilde : c ≠ tilde := by
        rintro rfl
        cases here
      exact (Reads.skip (turn_space here) (ih fun d mem => spaces d (List.mem_cons_of_mem c mem))).cast
        (by simp [noTilde])

theorem reads_group {st : Loop} (more : st.op ≠ .none) {group : Bytes} (is : PrefixText group) (rest : Bytes) :
    Reads env cut st (group ++ rest)
      { st with deref := st.deref + group.count star, not := st.not + group.count tilde } rest false := by
  induction group generalizing st with
  | nil => exact .stop st rest
  | cons c group ih =>
      have others : PrefixText group := fun d mem => is d (List.mem_cons_of_mem c mem)
      by_cases isTilde : c = tilde
      · subst isTilde
        have reads := @ih { st with not := st.not + 1 } more others
        rw [List.count_cons_self, List.count_cons_of_ne (by decide)]
        rw [Nat.add_assoc, Nat.add_comm 1] at reads
        exact (Reads.skip turn_tilde reads).cast (by simp [more])
      · by_cases isStar : c = star
        · subst isStar
          have reads := @ih { st with deref := st.deref + 1 } more others
          rw [List.count_cons_self, List.count_cons_of_ne (by decide)]
          rw [Nat.add_assoc, Nat.add_comm 1] at reads
          exact (Reads.skip (turn_star more) reads).cast (by simp [isTilde])
        · have space := ((is c List.mem_cons_self).resolve_right fun either => either.elim isTilde isStar)
          rw [List.count_cons_of_ne isStar, List.count_cons_of_ne isTilde]
          exact (Reads.skip (turn_space space) (ih more others)).cast (by simp [isTilde])

theorem reads_operator {st : Loop} (done : st.op = .none) {op : Operator} {sign rest : Bytes}
    (text : operatorText op = some sign) (ends : ∀ d, rest.head? = some d → d ∉ ([38, 124, 60, 61, 62] : Bytes)) :
    Reads env cut st (sign ++ rest) { st with op := op } rest false := by
  obtain ⟨c, line, split, at_⟩ := operatorAt_of_text text ends
  have noTilde := (operator_apart c (operatorText_of_at at_).1).2.1
  rw [split]
  exact (Reads.skip (turn_operator done at_) (.stop _ _)).cast (by simp [noTilde])

end Parts

/-! ## What an operand begins with -/

theorem start_apart (c : UInt8) : isAspace c ∨ c = tilde ∨ c = star ∨ isHex c ∨ isKind c ∨ c = opening →
    c ∉ ([38, 124, 60, 61, 62] : Bytes) := by
  revert c
  refine forall_byte ?_
  decide +kernel

theorem isKind_mark (kind : Kind) : isKind kind.mark := by
  cases kind <;> decide

/-- No text that is an operand makes a longer operator of the one before it. -/
theorem head_of_operand {e : Expr} {text : Bytes} (spells : Spells .operand e text) (rest : Bytes) :
    ∀ d, (text ++ rest).head? = some d → d ∉ ([38, 124, 60, 61, 62] : Bytes) := by
  intro d head
  refine start_apart d ?_
  cases spells with
  | @operand e group text is atom =>
      cases group with
      | cons c group =>
          obtain rfl := Option.some.inj head
          rcases is c List.mem_cons_self with space | isTilde | isStar
          · exact .inl space
          · exact .inr (.inl isTilde)
          · exact .inr (.inr (.inl isStar))
      | nil =>
          cases atom with
          | const constant =>
              obtain ⟨c, line, rfl, hex⟩ := (strtoul_constant constant).1
              obtain rfl := Option.some.inj head
              exact .inr (.inr (.inr (.inl hex)))
          | register _ =>
              obtain rfl := Option.some.inj head
              exact .inr (.inr (.inr (.inr (.inl (isKind_mark .register)))))
          | @quoted kind name _ _ =>
              obtain rfl := Option.some.inj head
              exact .inr (.inr (.inr (.inr (.inl (isKind_mark kind)))))
          | paren _ _ =>
              obtain rfl := Option.some.inj head
              exact .inr (.inr (.inr (.inr (.inr rfl))))

theorem operatorText_ends {op : Operator} {sign : Bytes} (text : operatorText op = some sign) (rest : Bytes) :
    Ends (sign ++ rest) := by
  intro c head
  cases op
  all_goals cases text
  all_goals
    obtain rfl := Option.some.inj head
    decide

theorem spaces_ends {space rest : Bytes} (spaces : Spaces space) (ends : Ends rest) : Ends (space ++ rest) := by
  cases space with
  | nil => exact ends
  | cons c space =>
      intro d head
      obtain rfl := Option.some.inj head
      exact (space_apart c (spaces c List.mem_cons_self)).1

theorem ends_nil : Ends [] := fun _ head => by cases head

/-! ## Trees -/

/-- What it means that a text is read with a value. -/
def Level.ReadsTo (env : Env) (cut : Cut) : Level → Bytes → Word → Prop
  | .atom, text, v => ∀ (st : Loop) (rest : Bytes) (u : Word), st.op ≠ .none → Ends rest →
      env.derefAddr st.deref v = some u → st.slack u = false → Reads env cut st (text ++ rest) (st.after u) rest false
  | .operand, text, v => ∀ (st : Loop) (rest : Bytes), st.op ≠ .none → st.deref = 0 → st.not = 0 → Ends rest →
      st.slack v = false → Reads env cut st (text ++ rest) (st.after v) rest false
  | .sentence, text, v => ∀ rest : Bytes, Ends rest → Reads env cut .first (text ++ rest) ⟨.none, 0, 0, v⟩ rest false

/-- A reading may cut a sentence in brackets out as it stands there. -/
def CutsSentences (ok : Bytes → Prop) (cut : Cut) : Prop :=
  ∀ (e : Expr) (text space rest : Bytes), Spells .sentence e text → e.NamesAre ok → Spaces space →
    cut (text ++ space ++ closing :: rest) (text ++ space) rest

section Trees

variable {env : Env} {cut : Cut} {ok : Bytes → Prop}

theorem reads_const {n : Nat} {text : Bytes} (constant : Constant n text) :
    Level.ReadsTo env cut .atom text (constValue n) := by
  intro st rest u more ends deref sound
  obtain ⟨⟨c, line, rfl, hex⟩, read⟩ := strtoul_constant constant
  have number := @turn_hex st c (line ++ rest) hex more
  rw [← List.cons_append, strtoul_ends hex line ends, read] at number
  exact (Reads.number number deref (.stop _ _)).cast (by simp [sound])

theorem reads_named {o : Named} {v : Word} (value : (Expr.named o).eval env = some v) {text : Bytes}
    (name : ∀ rest, Ends rest → ∃ c line, text ++ rest = c :: line ∧ isKind c ∧ nameAt c line = some (o, rest)) :
    Level.ReadsTo env cut .atom text v := by
  intro st rest u more ends deref sound
  have known : env.missing o = false := by
    by_contra missing
    rw [Expr.eval, if_pos (eq_true_of_ne_false missing)] at value
    cases value
  rw [Expr.eval, known, if_neg Bool.false_ne_true] at value
  obtain ⟨c, line, split, kind, at_⟩ := name rest ends
  rw [split]
  exact (Reads.name (turn_kind kind at_) value deref (.stop _ _)).cast (by simp [sound, known])

theorem reads_of_spells (cuts : CutsSentences ok cut) {level : Level} {e : Expr} {text : Bytes}
    (spells : Spells level e text) (names : e.NamesAre ok) {v : Word} (value : e.eval env = some v) :
    level.ReadsTo env cut text v := by
  induction spells generalizing v with
  | const constant =>
      obtain rfl := Option.some.inj value
      exact reads_const constant
  | @register name alnum =>
      refine reads_named value fun rest ends => ⟨dollar, name ++ rest, rfl, rfl, nameAt_register alnum ?_ ends⟩
      have known : exceptionReg name ≠ none := by
        intro unknown
        have missing : env.missing ⟨.register, name⟩ = true := decide_eq_true (.inl unknown)
        rw [Expr.eval, if_pos missing] at value
        cases value
      exact (exceptionReg_length known).trans (by decide)
  | @quoted kind name noRegister apart =>
      refine reads_named value fun rest _ => ⟨kind.mark, name ++ kind.mark :: rest, ?_, isKind_mark kind,
        nameAt_quoted noRegister apart rest⟩
      simp
  | @paren e text space spelled spaces ih =>
      intro st rest u more ends deref sound
      have blank := @reads_spaces env cut ⟨.none, 0, 0, v⟩ space spaces []
      have spaceEnds := spaces_ends spaces ends_nil
      rw [List.append_nil] at blank spaceEnds
      have inner := (ih names value space spaceEnds).trans blank
      have cutting := cuts e text space rest spelled names spaces
      have whole := Reads.bracket turn_opening cutting inner deref (.stop (st.after u) rest)
      have split : opening :: (text ++ space) ++ [closing] ++ rest = opening :: (text ++ space ++ closing :: rest) := by simp
      rw [split]
      exact whole.cast (by simp [sound])
  | @operand e group text is atom ih =>
      intro st rest more noDeref noNot ends sound
      obtain ⟨op, deref, not, val⟩ := st
      obtain rfl : deref = 0 := noDeref
      obtain rfl : not = 0 := noNot
      obtain ⟨u, inner, rfl⟩ := Option.map_eq_some_iff.mp value
      obtain ⟨w, value, deref⟩ := Option.bind_eq_some_iff.mp inner
      have prefixes : Reads env cut ⟨op, 0, 0, val⟩ (group ++ (text ++ rest))
          ⟨op, 0 + group.count star, 0 + group.count tilde, val⟩ (text ++ rest) false := reads_group more is (text ++ rest)
      rw [Nat.zero_add, Nat.zero_add] at prefixes
      have operand := ih names value ⟨op, group.count star, group.count tilde, val⟩ rest u more ends deref sound
      rw [List.append_assoc]
      exact prefixes.trans operand
  | @single e text operand ih =>
      intro rest ends
      exact ih names value .first rest (by decide) rfl rfl ends rfl
  | @binary left right op ltext space sign rtext spelledLeft spaces is spelledRight ihLeft ihRight =>
      intro rest ends
      obtain ⟨l, valueLeft, more⟩ := Option.bind_eq_some_iff.mp value
      obtain ⟨r, valueRight, applied⟩ := Option.bind_eq_some_iff.mp more
      have notNone : op ≠ .none := by
        rintro rfl
        cases is
      have signEnds := operatorText_ends is (rtext ++ rest)
      have first := ihLeft names.1 valueLeft (space ++ (sign ++ (rtext ++ rest))) (spaces_ends spaces signEnds)
      have blank := @reads_spaces env cut ⟨.none, 0, 0, l⟩ space spaces (sign ++ (rtext ++ rest))
      have operator := @reads_operator env cut ⟨.none, 0, 0, l⟩ rfl _ _ _ is (head_of_operand spelledRight rest)
      have last := ihRight names.2 valueRight ⟨op, 0, 0, l⟩ rest notNone rfl rfl ends (slack_of_apply applied)
      have whole := ((first.trans blank).trans operator).trans last
      have split : ltext ++ space ++ sign ++ rtext ++ rest = ltext ++ (space ++ (sign ++ (rtext ++ rest))) := by simp
      rw [split, ← doOp_of_apply applied]
      exact whole

theorem reads_of_spellsLine (cuts : CutsSentences ok cut) {e : Expr} {line : Bytes} (spells : SpellsLine e line)
    (names : e.NamesAre ok) {v : Word} (value : e.eval env = some v) :
    Reads env cut .first line ⟨.none, 0, 0, v⟩ [] false := by
  obtain ⟨text, space, sentence, spaces, rfl⟩ := spells
  have blank := @reads_spaces env cut ⟨.none, 0, 0, v⟩ space spaces []
  have ends := spaces_ends spaces ends_nil
  rw [List.append_nil] at blank ends
  exact (reads_of_spells cuts sentence names value space ends).trans blank

end Trees

/-! ## Brackets -/

/-- The search for the closing bracket gets through a text. -/
def Through (text : Bytes) : Prop :=
  ∀ depth rest, 1 ≤ depth → bracket depth (text ++ rest) = (bracket depth rest).map fun cut => (text ++ cut.1, cut.2)

theorem through_nil : Through [] := by
  intro depth rest _
  rw [List.nil_append]
  cases bracket depth rest <;> rfl

theorem Through.append {front back : Bytes} (first : Through front) (second : Through back) : Through (front ++ back) := by
  intro depth rest deep
  rw [List.append_assoc, first depth _ deep, second depth _ deep, Option.map_map]
  congr 1
  funext cut
  simp

theorem through_single {c : UInt8} (noOpening : c ≠ opening) (noClosing : c ≠ closing) : Through [c] := by
  intro depth rest _
  rw [List.singleton_append, bracket, if_neg fun both => noClosing both.1, if_neg noOpening, if_neg noClosing]
  rfl

theorem through_plain {text : Bytes} (plain : ∀ c ∈ text, c ≠ opening ∧ c ≠ closing) : Through text := by
  induction text with
  | nil => exact through_nil
  | cons c text ih =>
      have here := plain c List.mem_cons_self
      exact (through_single here.1 here.2).append (ih fun d mem => plain d (List.mem_cons_of_mem c mem))

theorem Through.brackets {text : Bytes} (inner : Through text) : Through (opening :: text ++ [closing]) := by
  intro depth rest deep
  have split : opening :: text ++ [closing] ++ rest = opening :: (text ++ closing :: rest) := by simp
  have step : bracket (depth + 1) (closing :: rest) = (bracket depth rest).map fun cut => (closing :: cut.1, cut.2) := by
    rw [bracket, if_neg fun both => by omega, if_neg (by decide), if_pos rfl]
    rfl
  rw [split, bracket, if_neg fun both => absurd both.1 (by decide), if_pos rfl]
  dsimp only
  rw [inner (depth + 1) _ (by omega), step, Option.map_map, Option.map_map]
  congr 1
  funext cut
  simp

theorem alnum_plain (c : UInt8) : isAlnum c ∨ c = 95 ∨ c = 58 ∨ c = 44 → c ≠ opening ∧ c ≠ closing := by
  revert c
  refine forall_byte ?_
  decide +kernel

theorem group_plain (c : UInt8) : isAspace c ∨ c = tilde ∨ c = star → c ≠ opening ∧ c ≠ closing := by
  revert c
  refine forall_byte ?_
  decide +kernel

theorem through_constant {n : Nat} {text : Bytes} (constant : Constant n text) : Through text := by
  refine through_plain fun c mem => alnum_plain c (.inl ?_)
  have digit {base : Nat} (le : base ≤ 16) {d : UInt8} (isDigit : Strtoul.isDigit base d) : isAlnum d :=
    (digit_alnum d (digit_lt le isDigit)).1
  cases constant with
  | @hexadecimal x digits isX _ isDigits =>
      rcases List.mem_cons.mp mem with rfl | mem
      · decide
      · rcases List.mem_cons.mp mem with rfl | mem
        · rcases isX with rfl | rfl <;> decide
        · exact digit (by decide) (isDigits c mem)
  | octal isDigits =>
      rcases List.mem_cons.mp mem with rfl | mem
      · decide
      · exact digit (by decide) (isDigits c mem)
  | decimal _ isDigits => exact digit (by decide) (isDigits c mem)

theorem through_of_spells {level : Level} {e : Expr} {text : Bytes} (spells : Spells level e text)
    (names : e.NamesAre PlainName) : Through text := by
  have spaced {space : Bytes} (spaces : Spaces space) : Through space :=
    through_plain fun c mem => group_plain c (.inl (spaces c mem))
  induction spells with
  | const constant => exact through_constant constant
  | @register name alnum =>
      refine through_plain fun c mem => ?_
      rcases List.mem_cons.mp mem with rfl | mem
      · decide
      · exact alnum_plain c (.inl (alnum c mem))
  | @quoted kind name noRegister apart =>
      have mark : Through [kind.mark] := through_single (by cases kind <;> decide) (by cases kind <;> decide)
      exact (mark.append (through_plain fun c mem => alnum_plain c (names c mem))).append mark
  | paren _ spaces ih => exact ((ih names).append (spaced spaces)).brackets
  | operand is _ ih => exact (through_plain fun c mem => group_plain c (is c mem)).append (ih names)
  | single _ ih => exact ih names
  | @binary left right op ltext space sign rtext _ spaces is _ ihLeft ihRight =>
      have signed : Through sign := by
        cases op
        all_goals cases is
        all_goals exact through_plain (by simp [opening, closing])
      exact (((ihLeft names.1).append (spaced spaces)).append signed).append (ihRight names.2)

theorem cutsSentences_code : CutsSentences PlainName CodeCut := by
  intro e text space rest spells names spaces
  have through := (through_of_spells spells names).append
    (through_plain fun c mem => group_plain c (.inl (spaces c mem)))
  rw [CodeCut, through 1 _ (Nat.le_refl 1), bracket, if_pos ⟨rfl, rfl⟩]
  simp

/-- However a tree is written, with white space between its tokens, its text is decoded to its value where that is
defined. -/
theorem memDecode_eval (env : Env) (e : Expr) (line : CStr) (v : Word) (short : line.text.length ≤ 1023)
    (spells : SpellsLine e line.text) (names : e.NamesAre PlainName) (value : e.eval env = some v) :
    memDecode env line = some v := by
  have whole : lineBuf line = line.text := List.take_of_length_le short
  rw [memDecode_iff, whole]
  exact ⟨_, _, reads_of_spellsLine cutsSentences_code spells names value, rfl⟩

/-- Nothing is loaded, and there is no current exception. -/
def bareEnv : Env where
  modules := ⟨fun _ => none, fun _ => none, fun _ info => (-1, info)⟩
  libs := ⟨fun _ => none, fun _ => none⟩
  threadByName _ := none
  threadStatus _ := none
  symbols := emptyStart
  currex := 0
  protoff := false
  isv1 := false

theorem sum_nulFree : 0 ∉ ascii "2 *(1+ 0x10 )" := by decide

def sumLine : CStr := ⟨ascii "2 *(1+ 0x10 )", sum_nulFree⟩

def plainOperand (e : Expr) : Expr := .prefixed 0 0 e

def sumTree : Expr :=
  .binary (plainOperand (.const 2)) .mul
    (plainOperand (.paren (.binary (plainOperand (.const 1)) .plus (plainOperand (.const 16)))))

theorem sum_spelled : SpellsLine sumTree sumLine.text := by
  have two : Constant 2 [50] := @Constant.decimal 50 [] (by decide) (List.forall_mem_singleton.mpr (by decide))
  have one : Constant 1 [49] := @Constant.decimal 49 [] (by decide) (List.forall_mem_singleton.mpr (by decide))
  have sixteen : Constant 16 [48, 120, 49, 48] := @Constant.hexadecimal 120 [49, 48] (.inl rfl) (List.cons_ne_nil _ _)
    (List.forall_mem_cons.mpr ⟨by decide, List.forall_mem_singleton.mpr (by decide)⟩)
  have noSpace : Spaces [] := fun _ mem => absurd mem List.not_mem_nil
  have oneSpace : Spaces [32] := List.forall_mem_singleton.mpr (by decide)
  have bare {e : Expr} {text : Bytes} (atom : Spells .atom e text) : Spells .operand (plainOperand e) text :=
    @Spells.operand e [] text (fun _ mem => absurd mem List.not_mem_nil) atom
  have behind {e : Expr} {text : Bytes} (atom : Spells .atom e text) : Spells .operand (plainOperand e) ([32] ++ text) :=
    @Spells.operand e [32] text (fun c mem => .inl (oneSpace c mem)) atom
  have inner := @Spells.binary _ _ .plus _ _ [43] _ (.single (bare (.const one))) noSpace rfl (behind (.const sixteen))
  have whole := @Spells.binary _ _ .mul _ _ [42] _ (.single (bare (.const two))) oneSpace rfl (bare (.paren inner oneSpace))
  exact ⟨_, [], whole, noSpace, rfl⟩

theorem sum_decoded : memDecode bareEnv sumLine = some 34 := by
  refine memDecode_eval bareEnv sumTree sumLine 34 (by decide) sum_spelled ?_ rfl
  simp [sumTree, plainOperand, Expr.NamesAre]

end Psplink.Address
