import Psplink.Address.Grammar

/-!
# Tokens of address expressions

What each character makes the loop do, and what stays of that when more text comes after a token.
-/

namespace Psplink.Address
open Psplink.Lib Psplink.Util

/-! ## Characters -/

theorem forall_byte {p : UInt8 → Prop} (all : ∀ n < 256, p (UInt8.ofNat n)) (c : UInt8) : p c := by
  have here := all c.toNat c.toNat_lt
  rwa [UInt8.ofNat_toNat] at here

theorem hex_apart (c : UInt8) : isHex c → isAspace c = false ∧ c ≠ star ∧ c ≠ tilde ∧ isKind c = false ∧ c ≠ opening ∧
    c ≠ closing := by
  revert c
  refine forall_byte ?_
  decide +kernel

theorem operator_apart (c : UInt8) : c ∈ ([43, 45, 38, 124, 94, 61, 33, 60, 62, 42, 47] : Bytes) → isAspace c = false ∧
    c ≠ tilde ∧ isKind c = false ∧ c ≠ opening ∧ isHex c = false ∧ isAlnum c = false := by
  revert c
  refine forall_byte ?_
  decide +kernel

theorem kind_apart (c : UInt8) : isKind c → isAspace c = false ∧ c ≠ star ∧ c ≠ tilde ∧ c ≠ opening ∧ isAlnum c = false := by
  revert c
  refine forall_byte ?_
  decide +kernel

theorem space_apart (c : UInt8) : isAspace c → isAlnum c = false ∧ c ≠ closing ∧ c ≠ opening := by
  revert c
  refine forall_byte ?_
  decide +kernel

theorem digit_alnum (c : UInt8) : Strtoul.isDigit 16 c → isAlnum c ∧ isHex c := by
  revert c
  refine forall_byte ?_
  decide +kernel

/-! ## Operators -/

theorem cons_of_head {line : Bytes} {c : UInt8} (head : line.head? = some c) : line = c :: line.tail :=
  (List.eq_cons_of_mem_head? head)

theorem operatorText_of_at {c : UInt8} {line rest : Bytes} {op : Operator} (here : operatorAt c line = some (op, rest)) :
    c ∈ ([43, 45, 38, 124, 94, 61, 33, 60, 62, 42, 47] : Bytes) ∧
      ∃ sign, operatorText op = some sign ∧ c :: line = sign ++ rest := by
  unfold operatorAt at here
  split at here
  all_goals repeat' split at here
  all_goals simp only [Option.some.injEq, Prod.mk.injEq, reduceCtorEq] at here
  all_goals obtain ⟨rfl, rfl⟩ := here
  all_goals first
    | exact ⟨by decide, _, rfl, rfl⟩
    | next head => exact ⟨by decide, _, rfl, congrArg _ (cons_of_head head)⟩

/-- A sign is its operator, where none of the characters comes after it that make a longer one. -/
theorem operatorAt_of_text {op : Operator} {sign rest : Bytes} (text : operatorText op = some sign)
    (ends : ∀ d, rest.head? = some d → d ∉ ([38, 124, 60, 61, 62] : Bytes)) :
    ∃ c line, sign ++ rest = c :: line ∧ operatorAt c line = some (op, rest) := by
  have other (d : UInt8) (mem : d ∈ ([38, 124, 60, 61, 62] : Bytes)) : rest.head? ≠ some d := fun head => ends d head mem
  have noAnd := other 38 (by decide)
  have noOr := other 124 (by decide)
  have noLess := other 60 (by decide)
  have noEqual := other 61 (by decide)
  have noGreater := other 62 (by decide)
  cases op
  all_goals cases text
  all_goals refine ⟨_, _, rfl, ?_⟩
  all_goals simp [operatorAt, noAnd, noOr, noLess, noEqual, noGreater]

theorem operatorAt_append {c d : UInt8} {line rest x : Bytes} {op : Operator} (here : operatorAt c line = some (op, rest))
    (after : d ∉ ([38, 124, 60, 61, 62] : Bytes)) :
    operatorAt c (line ++ d :: x) = some (op, rest ++ d :: x) := by
  simp only [List.mem_cons, List.not_mem_nil, or_false, not_or] at after
  unfold operatorAt at here
  cases line with
  | nil =>
      split at here
      all_goals simp only [List.head?_nil, reduceCtorEq, if_false, Option.some.injEq, Prod.mk.injEq] at here
      all_goals obtain ⟨rfl, rfl⟩ := here
      all_goals simp [operatorAt, after]
  | cons b line =>
      split at here
      all_goals simp only [List.head?_cons, List.tail_cons, Option.some.injEq, Prod.mk.injEq, reduceCtorEq] at here
      all_goals first
        | obtain ⟨rfl, rfl⟩ := here
          rfl
        | repeat' split at here
      all_goals simp only [Option.some.injEq, Prod.mk.injEq, reduceCtorEq] at here
      all_goals obtain ⟨rfl, rfl⟩ := here
      all_goals simp_all [operatorAt]

/-! ## Names -/

theorem cutAt_eq {c : UInt8} {name : Bytes} (apart : c ∉ name) (rest : Bytes) :
    cutAt c (name ++ c :: rest) = (name, some rest) := by
  have front : (name ++ c :: rest).takeWhile (· ≠ c) = name := takeWhile_upto apart rest
  rw [cutAt, front, if_pos (by simp), List.drop_append, List.drop_eq_nil_of_le (Nat.le_succ _)]
  simp

theorem cutAt_some {c : UInt8} {line rest : Bytes} (here : (cutAt c line).2 = some rest) :
    c ∉ (cutAt c line).1 ∧ line = (cutAt c line).1 ++ c :: rest := by
  unfold cutAt at here ⊢
  dsimp only at here ⊢
  split at here
  · next mem =>
    obtain ⟨front, back, rfl, apart⟩ := List.eq_append_cons_of_mem mem
    have cut := cutAt_eq apart back
    rw [cutAt, if_pos (by simp)] at cut
    obtain ⟨name, tail⟩ := Prod.mk.inj cut
    rw [name] at here ⊢
    rw [name] at tail
    exact ⟨apart, by rw [← Option.some.inj (tail.symm.trans here)]⟩
  · cases here

/-- The names in quotes. -/
theorem nameAt_quoted {kind : Kind} {name : Bytes} (noRegister : kind ≠ .register) (apart : kind.mark ∉ name)
    (rest : Bytes) : nameAt kind.mark (name ++ kind.mark :: rest) = some (⟨kind, name⟩, rest) := by
  have cut := cutAt_eq apart rest
  cases kind
  · exact absurd rfl noRegister
  all_goals
    change cutAt _ _ = _ at cut
    simp only [nameAt, Kind.mark] at cut ⊢
    rw [cut]
    rfl

theorem exceptionReg_length {name : Bytes} (known : exceptionReg name ≠ none) : name.length ≤ 3 := by
  unfold exceptionReg at known
  split at known
  · next same => rw [same]; decide
  · split at known
    · next same => rw [same]; decide
    · obtain ⟨n, found, -⟩ := Option.map_eq_some_iff.mp (Option.ne_none_iff_exists'.mp known).choose_spec
      have same : regName[n.val]? = some name := by simpa using List.find?_some found
      have short : ∀ reg ∈ regName, reg.length ≤ 3 := by decide
      exact short name (List.mem_of_getElem? same)

/-! ## Numbers -/

/-- No letter or digit comes next. -/
def Ends (rest : Bytes) : Prop := ∀ c, rest.head? = some c → isAlnum c = false

theorem takeWhile_ends {p : UInt8 → Bool} (alnum : ∀ c, p c → isAlnum c) (text : Bytes) {rest : Bytes} (ends : Ends rest) :
    (text ++ rest).takeWhile p = text.takeWhile p ∧ (text ++ rest).dropWhile p = text.dropWhile p ++ rest := by
  induction text with
  | nil =>
      cases rest with
      | nil => exact ⟨rfl, rfl⟩
      | cons c rest =>
          have stops : ¬ p c = true := fun holds => by
            have := ends c rfl
            rw [alnum c holds] at this
            cases this
          constructor
          · exact List.takeWhile_cons_of_neg stops
          · exact List.dropWhile_cons_of_neg stops
  | cons c text ih =>
      by_cases holds : p c = true
      · rw [List.cons_append, List.takeWhile_cons_of_pos holds, List.takeWhile_cons_of_pos holds,
          List.dropWhile_cons_of_pos holds, List.dropWhile_cons_of_pos holds, ih.1, ih.2]
        exact ⟨rfl, rfl⟩
      · rw [List.cons_append, List.takeWhile_cons_of_neg holds, List.takeWhile_cons_of_neg holds,
          List.dropWhile_cons_of_neg holds, List.dropWhile_cons_of_neg holds]
        exact ⟨rfl, rfl⟩

theorem digit_lt {base : Nat} (le : base ≤ 16) {c : UInt8} (holds : Strtoul.isDigit base c) : Strtoul.isDigit 16 c := by
  unfold Strtoul.isDigit at *
  cases digit : Strtoul.digit c with
  | none =>
      rw [digit] at holds
      cases holds
  | some d =>
      rw [digit, Option.any_some, decide_eq_true_iff] at holds
      exact decide_eq_true (by omega)

theorem hex_start (c : UInt8) : isHex c → Strtoul.isSpace c = false ∧ c ≠ 45 ∧ c ≠ 43 := by
  revert c
  refine forall_byte ?_
  decide +kernel

/-- What is left of `strtoul` where the text begins with a digit. -/
def number (base : Nat) (text rest : Bytes) : Word × Bytes :=
  if rest.takeWhile (Strtoul.isDigit base) = [] then (0, text)
  else (constValue (Strtoul.value base (rest.takeWhile (Strtoul.isDigit base))), rest.dropWhile (Strtoul.isDigit base))

theorem strtoul_hex {c : UInt8} (hex : isHex c) (line : Bytes) :
    Strtoul.strtoul 0 (c :: line) =
      number (Strtoul.radix 0 (c :: line)).1 (c :: line) (Strtoul.radix 0 (c :: line)).2 := by
  obtain ⟨noSpace, noMinus, noPlus⟩ := hex_start c hex
  have sign : Strtoul.sign (c :: line) = (false, c :: line) := by
    unfold Strtoul.sign
    split
    · next same => exact absurd (List.cons.inj same).1 noMinus
    · next same => exact absurd (List.cons.inj same).1 noPlus
    · rfl
  have trimmed : (c :: line).dropWhile Strtoul.isSpace = c :: line :=
    List.dropWhile_cons_of_neg (by rw [noSpace]; exact Bool.false_ne_true)
  rw [Strtoul.strtoul, trimmed, sign]
  rfl

theorem hexPrefixed_iff (text : Bytes) : Strtoul.hexPrefixed text = true ↔
    ∃ x d more, text = 48 :: x :: d :: more ∧ (x = 120 ∨ x = 88) ∧ Strtoul.isDigit 16 d := by
  unfold Strtoul.hexPrefixed
  split
  · next x d more =>
    rw [decide_eq_true_iff]
    constructor
    · intro both
      exact ⟨x, d, more, rfl, both⟩
    · rintro ⟨x', d', more', same, both⟩
      cases same
      exact both
  · next other =>
    refine iff_of_false Bool.false_ne_true ?_
    rintro ⟨x, d, more, same, -⟩
    exact other x d more same

theorem hexPrefixed_ends (c : UInt8) (line : Bytes) {rest : Bytes} (ends : Ends rest) :
    Strtoul.hexPrefixed (c :: line ++ rest) = Strtoul.hexPrefixed (c :: line) := by
  rw [Bool.eq_iff_iff, hexPrefixed_iff, hexPrefixed_iff]
  constructor
  · rintro ⟨x, d, more, same, isX, digit⟩
    -- both the `x` and the digit would have to be letters or digits of the rest
    cases line with
    | nil =>
        cases rest with
        | nil => cases same
        | cons e rest =>
            obtain ⟨-, rfl, -⟩ : c = 48 ∧ e = x ∧ rest = d :: more := by simpa using same
            have alnum := ends e rfl
            rcases isX with rfl | rfl
            · cases alnum
            · cases alnum
    | cons b line =>
        cases line with
        | nil =>
            cases rest with
            | nil => cases same
            | cons e rest =>
                obtain ⟨-, -, rfl, -⟩ : c = 48 ∧ b = x ∧ e = d ∧ rest = more := by simpa using same
                have alnum := ends e rfl
                rw [(digit_alnum e digit).1] at alnum
                cases alnum
        | cons e line =>
            obtain ⟨rfl, rfl, rfl, -⟩ : c = 48 ∧ b = x ∧ e = d ∧ line ++ rest = more := by simpa using same
            exact ⟨b, e, line, rfl, isX, digit⟩
  · rintro ⟨x, d, more, same, isX, digit⟩
    exact ⟨x, d, more ++ rest, by rw [same]; rfl, isX, digit⟩

theorem radix_ends (c : UInt8) (line : Bytes) {rest : Bytes} (ends : Ends rest) :
    Strtoul.radix 0 (c :: line ++ rest) = ((Strtoul.radix 0 (c :: line)).1, (Strtoul.radix 0 (c :: line)).2 ++ rest) := by
  unfold Strtoul.radix
  rw [hexPrefixed_ends c line ends]
  simp only [true_or, true_and, if_true]
  by_cases hex : Strtoul.hexPrefixed (c :: line) = true
  · obtain ⟨x, d, more, same, -⟩ := (hexPrefixed_iff _).mp hex
    rw [if_pos hex, if_pos hex, same]
    rfl
  · rw [if_neg hex, if_neg hex]
    rfl

theorem radix_le (line : Bytes) : (Strtoul.radix 0 line).1 ≤ 16 := by
  unfold Strtoul.radix
  split
  · exact Nat.le_refl _
  · split
    · dsimp only
      split <;> omega
    · omega

/-- A number does not change when text comes after it. -/
theorem strtoul_ends {c : UInt8} (hex : isHex c) (line : Bytes) {rest : Bytes} (ends : Ends rest) :
    Strtoul.strtoul 0 (c :: line ++ rest) =
      ((Strtoul.strtoul 0 (c :: line)).1, (Strtoul.strtoul 0 (c :: line)).2 ++ rest) := by
  have alnum (d : UInt8) (holds : Strtoul.isDigit (Strtoul.radix 0 (c :: line)).1 d) : isAlnum d :=
    (digit_alnum d (digit_lt (radix_le _) holds)).1
  have both := takeWhile_ends alnum (Strtoul.radix 0 (c :: line)).2 ends
  have radix := radix_ends c line ends
  rw [List.cons_append] at radix ⊢
  rw [strtoul_hex hex, strtoul_hex hex, radix, number, number, both.1, both.2]
  split
  · rfl
  · rfl

theorem strtoul_constant {n : Nat} {text : Bytes} (constant : Constant n text) :
    (∃ c line, text = c :: line ∧ isHex c) ∧ Strtoul.strtoul 0 text = (constValue n, []) := by
  have all {base : Nat} {digits : Bytes} (isDigits : ∀ c ∈ digits, Strtoul.isDigit base c) (some_ : digits ≠ []) (text : Bytes) :
      number base text digits = (constValue (Strtoul.value base digits), []) := by
    have front : digits.takeWhile (Strtoul.isDigit base) = digits := List.takeWhile_eq_self_iff.mpr isDigits
    have back : digits.dropWhile (Strtoul.isDigit base) = [] := List.dropWhile_eq_nil_iff.mpr isDigits
    rw [number, front, back, if_neg some_]
  cases constant with
  | @hexadecimal x digits isX some_ isDigits =>
      have hex : Strtoul.hexPrefixed (48 :: x :: digits) = true := by
        cases digits with
        | nil => exact absurd rfl some_
        | cons d digits => exact (hexPrefixed_iff _).mpr ⟨x, d, digits, rfl, isX, isDigits d List.mem_cons_self⟩
      have radix : Strtoul.radix 0 (48 :: x :: digits) = (16, digits) := if_pos ⟨.inl rfl, hex⟩
      refine ⟨⟨48, _, rfl, by decide⟩, ?_⟩
      rw [strtoul_hex (by decide), radix]
      exact all isDigits some_ _
  | @octal digits isDigits =>
      have noHex : ¬ Strtoul.hexPrefixed (48 :: digits) = true := by
        rw [hexPrefixed_iff]
        rintro ⟨x, d, more, same, isX, -⟩
        have digit := isDigits x (by rw [(List.cons.inj same).2]; exact List.mem_cons_self)
        rcases isX with rfl | rfl
        · cases digit
        · cases digit
      have radix : Strtoul.radix 0 (48 :: digits) = (8, 48 :: digits) := by
        rw [Strtoul.radix, if_neg fun both => noHex both.2]
        rfl
      refine ⟨⟨48, _, rfl, by decide⟩, ?_⟩
      rw [strtoul_hex (by decide), radix]
      refine all (fun c mem => ?_) (List.cons_ne_nil _ _) _
      have zero : Strtoul.isDigit 8 48 = true := by decide
      rcases List.mem_cons.mp mem with rfl | mem
      · exact zero
      · exact isDigits c mem
  | @decimal c digits noZero isDigits =>
      have noHex : ¬ Strtoul.hexPrefixed (c :: digits) = true := by
        rw [hexPrefixed_iff]
        rintro ⟨x, d, more, same, -⟩
        exact noZero (List.cons.inj same).1
      have radix : Strtoul.radix 0 (c :: digits) = (10, c :: digits) := by
        rw [Strtoul.radix, if_neg fun both => noHex both.2, if_pos rfl, List.head?_cons,
          if_neg fun zero => noZero (Option.some.inj zero)]
      have hex : isHex c := (digit_alnum c (digit_lt (by decide) (isDigits c List.mem_cons_self))).2
      refine ⟨⟨c, _, rfl, hex⟩, ?_⟩
      rw [strtoul_hex hex, radix]
      exact all isDigits (List.cons_ne_nil _ _) _

theorem constant_of_strtoul {c : UInt8} (hex : isHex c) {line rest : Bytes} {v : Word}
    (read : Strtoul.strtoul 0 (c :: line) = (v, rest)) (more : rest ≠ c :: line) :
    ∃ n text, Constant n text ∧ c :: line = text ++ rest ∧ v = constValue n := by
  rw [strtoul_hex hex] at read
  have taken {base : Nat} {digits : Bytes} (is : number base (c :: line) digits = (v, rest)) :
      digits.takeWhile (Strtoul.isDigit base) ≠ [] ∧ v = constValue (Strtoul.value base (digits.takeWhile (Strtoul.isDigit base))) ∧
        digits = digits.takeWhile (Strtoul.isDigit base) ++ rest ∧
          ∀ d ∈ digits.takeWhile (Strtoul.isDigit base), Strtoul.isDigit base d := by
    unfold number at is
    split at is
    · exact absurd (Prod.mk.inj is).2.symm more
    · next some_ =>
      obtain ⟨rfl, rfl⟩ := Prod.mk.inj is
      exact ⟨some_, rfl, List.takeWhile_append_dropWhile.symm, fun d mem => List.mem_takeWhile_imp mem⟩
  by_cases isHexadecimal : Strtoul.hexPrefixed (c :: line) = true
  · obtain ⟨x, d, digits, same, isX, -⟩ := (hexPrefixed_iff _).mp isHexadecimal
    have radix : Strtoul.radix 0 (c :: line) = (16, d :: digits) := by
      rw [Strtoul.radix, if_pos ⟨.inl rfl, isHexadecimal⟩, same]
      rfl
    rw [radix] at read
    obtain ⟨some_, value, split, isDigits⟩ := taken read
    refine ⟨_, _, .hexadecimal isX some_ isDigits, ?_, value⟩
    rw [same, List.cons_append, List.cons_append, ← split]
  · have radix : Strtoul.radix 0 (c :: line) = (if c = 48 then 8 else 10, c :: line) := by
      rw [Strtoul.radix, if_neg fun both => isHexadecimal both.2, if_pos rfl, List.head?_cons]
      simp only [Option.some.injEq]
    rw [radix] at read
    by_cases zero : c = 48
    · subst zero
      rw [if_pos rfl] at read
      have digit : Strtoul.isDigit 8 48 = true := by decide
      obtain ⟨-, value, split, isDigits⟩ := taken read
      rw [List.takeWhile_cons_of_pos digit] at value split isDigits
      exact ⟨_, _, .octal fun d mem => isDigits d (List.mem_cons_of_mem _ mem), split, value⟩
    · rw [if_neg zero] at read
      obtain ⟨some_, value, split, isDigits⟩ := taken read
      have digit : Strtoul.isDigit 10 c = true := by
        by_contra other
        exact some_ (List.takeWhile_cons_of_neg other)
      rw [List.takeWhile_cons_of_pos digit] at value split isDigits
      exact ⟨_, _, .decimal zero isDigits, split, value⟩

/-! ## Turns -/

theorem nameAt_register {name : Bytes} (alnum : ∀ c ∈ name, isAlnum c) (short : name.length ≤ 15) {rest : Bytes}
    (ends : Ends rest) : nameAt dollar (name ++ rest) = some (⟨.register, name⟩, rest) := by
  have front : (name ++ rest).takeWhile isAlnum = name := by
    rw [(takeWhile_ends (fun _ => id) name ends).1, List.takeWhile_eq_self_iff]
    exact alnum
  rw [nameAt, if_pos rfl]
  dsimp only
  rw [front, List.take_of_length_le short, List.drop_left]

variable {st : Loop} {c : UInt8} {line : Bytes}

/-- What a name that is read can be. -/
inductive NameIs (c : UInt8) (line : Bytes) : Named → Bytes → Prop
  | register : c = dollar → NameIs c line ⟨.register, (line.takeWhile isAlnum).take 15⟩
      (line.drop ((line.takeWhile isAlnum).take 15).length)
  | quoted {kind : Kind} {name rest : Bytes} : kind ≠ .register → c = kind.mark → kind.mark ∉ name →
      line = name ++ kind.mark :: rest → NameIs c line ⟨kind, name⟩ rest

theorem nameAt_is {o : Named} {rest : Bytes} (here : nameAt c line = some (o, rest)) : NameIs c line o rest := by
  have quoted (kind : Kind) (noRegister : kind ≠ .register) (isMark : c = kind.mark)
      (cut : ((cutAt kind.mark line).2.map fun rest => ((⟨kind, (cutAt kind.mark line).1⟩ : Named), rest)) = some (o, rest)) :
      NameIs c line o rest := by
    obtain ⟨rest', at_, same⟩ := Option.map_eq_some_iff.mp cut
    obtain ⟨rfl, rfl⟩ := Prod.mk.inj same
    obtain ⟨apart, split⟩ := cutAt_some at_
    exact .quoted noRegister isMark apart split
  unfold nameAt at here
  split at here
  · next isDollar =>
    obtain ⟨rfl, rfl⟩ := Prod.mk.inj (Option.some.inj here)
    exact .register isDollar
  · split at here
    · next isAt => exact quoted .module_ (by decide) isAt here
    · split at here
      · next isPercent => exact quoted .thread (by decide) isPercent here
      · split at here
        · next isQuestion => exact quoted .symbol (by decide) isQuestion here
        · cases here

theorem turn_space (space : isAspace c) : turn st c line = .skips st line := if_pos space

theorem turn_star (more : st.op ≠ .none) : turn st star line = .skips { st with deref := st.deref + 1 } line := by
  rw [turn, if_neg (by decide), if_pos ⟨rfl, more⟩]

theorem turn_tilde : turn st tilde line = .skips { st with not := st.not + 1 } line := by
  rw [turn, if_neg (by decide), if_neg fun both => absurd both.1 (by decide), if_pos rfl]

theorem turn_kind (kind : isKind c) {o : Named} {rest : Bytes} (name : nameAt c line = some (o, rest)) :
    turn st c line = .looksUp o rest := by
  obtain ⟨space, noStar, noTilde, -⟩ := kind_apart c kind
  rw [turn, space, if_neg Bool.false_ne_true, if_neg fun both => noStar both.1, if_neg noTilde, if_pos kind, name]

theorem turn_opening : turn st opening line = .opens := by
  rw [turn, if_neg (by decide), if_neg fun both => absurd both.1 (by decide), if_neg (by decide), if_neg (by decide),
    if_pos rfl]

theorem turn_hex (hex : isHex c) (more : st.op ≠ .none) :
    turn st c line = .number (Strtoul.strtoul 0 (c :: line)).1 (Strtoul.strtoul 0 (c :: line)).2 := by
  obtain ⟨space, noStar, noTilde, noKind, noOpening, -⟩ := hex_apart c hex
  rw [turn, space, if_neg Bool.false_ne_true, if_neg fun both => noStar both.1, if_neg noTilde, noKind,
    if_neg Bool.false_ne_true, if_neg noOpening, if_pos hex, if_neg more]

theorem turn_operator (done : st.op = .none) {op : Operator} {rest : Bytes} (sign : operatorAt c line = some (op, rest)) :
    turn st c line = .skips { st with op := op } rest := by
  obtain ⟨space, noTilde, noKind, noOpening, noHex, -⟩ := operator_apart c (operatorText_of_at sign).1
  rw [turn, space, if_neg Bool.false_ne_true, if_neg fun both => both.2 done, if_neg noTilde, noKind,
    if_neg Bool.false_ne_true, if_neg noOpening, noHex, if_neg Bool.false_ne_true, if_neg (not_not.mpr done), sign]

/-- What a turn can come to. -/
inductive TurnIs (st : Loop) (c : UInt8) (line : Bytes) : Turn → Prop
  | fails : TurnIs st c line .fails
  | space : isAspace c → TurnIs st c line (.skips st line)
  | star : c = star → st.op ≠ .none → TurnIs st c line (.skips { st with deref := st.deref + 1 } line)
  | tilde : c = tilde → TurnIs st c line (.skips { st with not := st.not + 1 } line)
  | operator {op : Operator} {rest : Bytes} : c ≠ tilde → st.op = .none → operatorAt c line = some (op, rest) →
      TurnIs st c line (.skips { st with op := op } rest)
  | name {o : Named} {rest : Bytes} : isKind c → nameAt c line = some (o, rest) → TurnIs st c line (.looksUp o rest)
  | number : isHex c → st.op ≠ .none →
      TurnIs st c line (.number (Strtoul.strtoul 0 (c :: line)).1 (Strtoul.strtoul 0 (c :: line)).2)
  | opening : c = opening → TurnIs st c line .opens

theorem turn_is (st : Loop) (c : UInt8) (line : Bytes) : TurnIs st c line (turn st c line) := by
  by_cases space : isAspace c = true
  · rw [turn_space space]
    exact .space space
  by_cases isStar : c = star ∧ st.op ≠ .none
  · obtain ⟨rfl, more⟩ := isStar
    rw [turn_star more]
    exact .star rfl more
  by_cases isTilde : c = tilde
  · subst isTilde
    rw [turn_tilde]
    exact .tilde rfl
  by_cases kind : isKind c = true
  · rw [turn, if_neg space, if_neg isStar, if_neg isTilde, if_pos kind]
    cases name : nameAt c line with
    | none => exact .fails
    | some named => exact .name kind name
  by_cases isOpening : c = opening
  · subst isOpening
    rw [turn_opening]
    exact .opening rfl
  by_cases hex : isHex c = true
  · by_cases done : st.op = .none
    · rw [turn, if_neg space, if_neg isStar, if_neg isTilde, if_neg kind, if_neg isOpening, if_pos hex, if_pos done]
      exact .fails
    · rw [turn_hex hex done]
      exact .number hex done
  by_cases done : st.op = .none
  · cases sign : operatorAt c line with
    | none =>
        rw [turn, if_neg space, if_neg isStar, if_neg isTilde, if_neg kind, if_neg isOpening, if_neg hex,
          if_neg (not_not.mpr done), sign]
        exact .fails
    | some found =>
        rw [turn_operator done sign]
        exact .operator isTilde done sign
  · rw [turn, if_neg space, if_neg isStar, if_neg isTilde, if_neg kind, if_neg isOpening, if_neg hex, if_pos done]
    exact .fails

/-! ## How far a turn gets -/

theorem operatorText_length {op : Operator} {sign : Bytes} (text : operatorText op = some sign) : 0 < sign.length := by
  cases op
  all_goals cases text
  all_goals decide

theorem operatorAt_length {op : Operator} {rest : Bytes} (sign : operatorAt c line = some (op, rest)) :
    rest.length ≤ line.length := by
  obtain ⟨-, text, is, split⟩ := operatorText_of_at sign
  have lengths := congrArg List.length split
  have some_ := operatorText_length is
  rw [List.length_cons, List.length_append] at lengths
  omega

theorem nameAt_length {o : Named} {rest : Bytes} (name : nameAt c line = some (o, rest)) : rest.length ≤ line.length := by
  cases nameAt_is name with
  | register =>
      rw [List.length_drop]
      exact Nat.sub_le _ _
  | quoted _ _ _ split =>
      rw [split, List.length_append, List.length_cons]
      omega

theorem turn_skips_length {next : Loop} {rest : Bytes} (skips : turn st c line = .skips next rest) :
    rest.length ≤ line.length := by
  have is := turn_is st c line
  rw [skips] at is
  cases is with
  | space | star | tilde => exact Nat.le_refl _
  | operator _ _ sign => exact operatorAt_length sign

theorem turn_looksUp_length {o : Named} {rest : Bytes} (looks : turn st c line = .looksUp o rest) :
    rest.length ≤ line.length := by
  have is := turn_is st c line
  rw [looks] at is
  cases is with
  | name _ name => exact nameAt_length name

/-- A number gets on, or the next turn fails. -/
theorem turn_number_length {temp : Word} {rest : Bytes} (number : turn st c line = .number temp rest) :
    rest.length ≤ line.length ∨ rest = c :: line ∧ ∀ st' : Loop, st'.op = .none → turn st' c line = .fails := by
  have is := turn_is st c line
  rw [number] at is
  cases is with
  | number hex _ =>
      by_cases same : (Strtoul.strtoul 0 (c :: line)).2 = c :: line
      · refine .inr ⟨same, fun st' done => ?_⟩
        obtain ⟨space, noStar, noTilde, noKind, noOpening, -⟩ := hex_apart c hex
        rw [turn, space, if_neg Bool.false_ne_true, if_neg fun both => noStar both.1, if_neg noTilde, noKind,
          if_neg Bool.false_ne_true, if_neg noOpening, if_pos hex, if_pos done]
      · have read : Strtoul.strtoul 0 (c :: line) =
            ((Strtoul.strtoul 0 (c :: line)).1, (Strtoul.strtoul 0 (c :: line)).2) := rfl
        obtain ⟨n, text, constant, split, -⟩ := constant_of_strtoul hex read same
        have lengths := congrArg List.length split
        obtain ⟨d, digits, rfl, -⟩ := (strtoul_constant constant).1
        rw [List.length_cons, List.length_append, List.length_cons] at lengths
        exact .inl (by omega)

end Psplink.Address
