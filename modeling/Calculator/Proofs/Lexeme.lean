import Calculator.Proofs.NumeralOfLiteral
import Calculator.Token.Scanner

/-! Lexical classes. Each kind of token has the texts it may be cut from, and the characters that
would make such a text longer. The token cut off the front of a text is the one whose class holds
the text and that the next character does not make longer. -/

set_option autoImplicit false

namespace Calculator

namespace TokenKind

/-- The one text of a kind that is written in one way only. -/
def spelling? : TokenKind → Option Text
  | .plus => some ['+']
  | .minus => some ['-']
  | .times => some ['*']
  | .divide => some ['/']
  | .greater => some ['>']
  | .greaterEqual => some ['>', '=']
  | .less => some ['<']
  | .lessEqual => some ['<', '=']
  | .equal => some ['=', '=']
  | .assign => some ['=']
  | .leftParen => some ['(']
  | .rightParen => some [')']
  | .identifier | .number | .endOfInput => none

/-- The lexical class of a kind. The end of input has none. -/
def Lexeme : TokenKind → Text → Prop
  | .identifier, w => ∃ c rest, Text.isLetter c ∧ (∀ d ∈ rest, Text.isWord d) ∧ w = c :: rest
  | .number, w => NumberLiteral w
  | kind, w => kind.spelling? = some w

/-- The characters that go on with a lexeme. -/
def Continues : TokenKind → Text → Char → Prop
  | .identifier, _, c => Text.isWord c
  | .number, w, c => ∃ tail, NumberLiteral (w ++ c :: tail)
  | .assign, _, c | .less, _, c | .greater, _, c => c = '='
  | _, _, _ => False

/-- A lexeme is maximal in front of a text that does not go on with it. -/
def Maximal (kind : TokenKind) (lexeme rest : Text) : Prop :=
  ∀ c ∈ rest.head?, ¬ kind.Continues lexeme c

inductive Single : Char → TokenKind → Prop
  | leftParen : Single '(' .leftParen
  | rightParen : Single ')' .rightParen
  | plus : Single '+' .plus
  | minus : Single '-' .minus
  | times : Single '*' .times
  | divide : Single '/' .divide

inductive Extensible : Char → TokenKind × TokenKind → Prop
  | assign : Extensible '=' (.assign, .equal)
  | less : Extensible '<' (.less, .lessEqual)
  | greater : Extensible '>' (.greater, .greaterEqual)

section Signs
variable {c : Char} {kind alone extended : TokenKind} {kinds : TokenKind × TokenKind}

theorem single_of_some (h : ofSingle? c = some kind) : Single c kind := by
  unfold ofSingle? at h
  split at h <;> cases h <;> constructor

theorem extensible_of_some (h : ofExtensible? c = some kinds) : Extensible c kinds := by
  unfold ofExtensible? at h
  split at h <;> cases h <;> constructor

theorem ofSingle?_eq_none (h : ∀ kind, ¬ Single c kind) : ofSingle? c = none :=
  Option.eq_none_iff_forall_ne_some.mpr fun kind hkind => h kind (single_of_some hkind)

theorem ofExtensible?_eq_none (h : ∀ kinds, ¬ Extensible c kinds) : ofExtensible? c = none :=
  Option.eq_none_iff_forall_ne_some.mpr fun kinds hkinds => h kinds (extensible_of_some hkinds)

theorem ofSingle?_of_isDigit (h : Text.isDigit c) : ofSingle? c = none := by
  apply ofSingle?_eq_none
  intro kind hkind
  cases hkind <;> exact absurd h (by decide)

theorem ofExtensible?_of_isDigit (h : Text.isDigit c) : ofExtensible? c = none := by
  apply ofExtensible?_eq_none
  intro kinds hkinds
  cases hkinds <;> exact absurd h (by decide)

theorem notMem_signs_iff : c ∉ ['(', ')', '+', '-', '*', '/', '=', '<', '>'] ↔
    ofSingle? c = none ∧ ofExtensible? c = none := by
  constructor
  · intro h
    constructor
    · apply ofSingle?_eq_none
      intro kind hkind
      cases hkind <;> exact h (by decide)
    · apply ofExtensible?_eq_none
      intro kinds hkinds
      cases hkinds <;> exact h (by decide)
  · rintro ⟨hsingle, hextensible⟩ hmem
    have hsigns : ∀ c ∈ ['(', ')', '+', '-', '*', '/', '=', '<', '>'],
        (ofSingle? c).isSome ∨ (ofExtensible? c).isSome := by
      simp [ofSingle?, ofExtensible?]
    rcases hsigns c hmem with h | h
    · rw [hsingle] at h
      cases h
    · rw [hextensible] at h
      cases h

theorem lexeme_of_single (h : ofSingle? c = some kind) (rest : Text) :
    kind.Lexeme [c] ∧ kind.Maximal [c] rest := by
  cases single_of_some h <;> exact ⟨rfl, fun _ _ => id⟩

theorem lexeme_of_extensible (h : ofExtensible? c = some (alone, extended)) (rest : Text) :
    (extended.Lexeme [c, '='] ∧ extended.Maximal [c, '='] rest) ∧
    (alone.Lexeme [c] ∧ (rest.head? ≠ some '=' → alone.Maximal [c] rest)) := by
  cases extensible_of_some h
  all_goals
    refine ⟨⟨rfl, fun _ _ => id⟩, rfl, fun hne c hc heq => hne ?_⟩
    rw [← show c = '=' from heq]
    exact hc

end Signs

end TokenKind

namespace Token

open TokenKind

variable {c : Char} {rest after lexeme : Text} {kind : TokenKind} {length : Nat}

theorem numberLength_eq_ok_iff : numberLength rest = .ok length ↔
    ∃ literal after, rest = literal ++ after ∧ literal.length = length ∧
      TokenKind.number.Lexeme literal ∧ TokenKind.number.Maximal literal after := by
  have hrun := numberAutomaton_run_eq_some_iff rest
  unfold numberLength
  cases h : numberAutomaton.run rest with
  | none =>
    simp only [reduceCtorEq, false_iff]
    intro ⟨literal, after, he, _, hl, hm⟩
    have := (hrun literal).mpr ⟨after, he, hl, hm⟩
    simp [h] at this
  | some p =>
    simp only [Except.ok.injEq]
    constructor
    · intro hp
      obtain ⟨after, he, hl, hm⟩ := (hrun p).mp h
      exact ⟨p, after, he, hp, hl, hm⟩
    · intro ⟨literal, after, he, hlen, hl, hm⟩
      have := (hrun literal).mpr ⟨after, he, hl, hm⟩
      rw [h, Option.some.injEq] at this
      rw [this, hlen]

theorem exists_lexeme_of_front (h : front c rest = .ok (kind, length)) :
    ∃ lexeme after, c :: rest = lexeme ++ after ∧ lexeme.length = length ∧
      kind.Lexeme lexeme ∧ kind.Maximal lexeme after := by
  -- a letter, a character alone, one that an equals sign may follow, a digit
  unfold front at h
  split at h
  · rename_i hc
    cases h
    refine ⟨_, _, (List.takeWhile_append_dropWhile).symm, rfl, ?_, ?_⟩
    · refine ⟨c, rest.takeWhile Text.isWord, hc, fun d hd => ?_, ?_⟩
      · exact List.all_eq_true.mp List.all_takeWhile d hd
      · rw [List.takeWhile_cons_of_pos (isWord_of_isLetter hc)]
    · intro d hd hw
      have := List.head?_dropWhile_not Text.isWord (c :: rest)
      rw [hd] at this
      simp_all [Continues]
  · split at h
    · rename_i hsingle
      cases h
      exact ⟨[c], rest, rfl, rfl, lexeme_of_single hsingle rest⟩
    · split at h
      · rename_i alone extended hext
        split at h
        · rename_i heq
          cases h
          cases rest with
          | nil => cases heq
          | cons d rest =>
            cases heq
            exact ⟨[c, '='], rest, rfl, rfl, (lexeme_of_extensible hext rest).1⟩
        · rename_i hne
          cases h
          obtain ⟨-, hl, hm⟩ := lexeme_of_extensible hext rest
          exact ⟨[c], rest, rfl, rfl, hl, hm hne⟩
      · split at h
        · cases hn : numberLength (c :: rest) with
          | error e => simp [hn, Except.map] at h
          | ok n =>
            simp only [hn, Except.map, Except.ok.injEq, Prod.mk.injEq] at h
            obtain ⟨rfl, rfl⟩ := h
            exact numberLength_eq_ok_iff.mp hn
        · cases h

theorem isLetter_of_isDigit (h : Text.isDigit c) : Text.isLetter c = false := by
  rw [Text.isDigit_iff] at h
  rw [Bool.eq_false_iff, ne_eq, Text.isLetter_iff]
  omega

theorem front_of_isDigit (h : Text.isDigit c) :
    front c rest = (numberLength (c :: rest)).map (Prod.mk .number) := by
  simp only [front, isLetter_of_isDigit h, Bool.false_eq_true, if_false, ofSingle?_of_isDigit h,
    ofExtensible?_of_isDigit h, h, if_true]

theorem front_of_lexeme (hl : kind.Lexeme lexeme) (hm : kind.Maximal lexeme after)
    (he : c :: rest = lexeme ++ after) : front c rest = .ok (kind, lexeme.length) := by
  cases kind with
  | identifier =>
    obtain ⟨d, w, hd, hw, rfl⟩ := hl
    obtain ⟨rfl, rfl⟩ := List.cons.inj he
    have hword : ∀ e ∈ c :: w, Text.isWord e :=
      List.forall_mem_cons.mpr ⟨isWord_of_isLetter hd, hw⟩
    have hstop : ∀ e ∈ after.head?, Text.isWord e = false := fun e h =>
      Bool.eq_false_iff.mpr (hm e h)
    have htake := (Text.span_append hword hstop).1
    rw [front, if_pos hd]
    exact congrArg (fun w : Text => Except.ok (TokenKind.identifier, w.length)) htake
  | number =>
    have hc : Text.isDigit c := by
      obtain ⟨whole, fraction, exponent, hw, -, -, rfl⟩ := hl
      cases whole with
      | nil => exact absurd rfl hw.1
      | cons d whole =>
        obtain ⟨rfl, -⟩ := List.cons.inj he
        exact hw.2 c List.mem_cons_self
    have hn : numberLength (c :: rest) = .ok lexeme.length :=
      numberLength_eq_ok_iff.mpr ⟨lexeme, after, he, rfl, hl, hm⟩
    rw [front_of_isDigit hc, hn]
    rfl
  | assign | less | greater =>
    cases hl
    cases he
    exact if_neg fun h => hm '=' h rfl
  | equal | lessEqual | greaterEqual | plus | minus | times | divide | leftParen | rightParen =>
    cases hl
    cases he
    rfl
  | endOfInput => cases hl

/-- The characters with which no token starts. -/
structure Foreign (c : Char) : Prop where
  letter : Text.isLetter c = false
  digit : Text.isDigit c = false
  sign : c ∉ ['(', ')', '+', '-', '*', '/', '=', '<', '>']

theorem numberLength_eq_error_iff {fault : ScanFault} : numberLength rest = .error fault ↔
    fault = .invalidNumber ∧ numberAutomaton.run rest = none := by
  unfold numberLength
  cases numberAutomaton.run rest with
  | none => simp [eq_comm]
  | some literal => simp

theorem front_of_not_isDigit (h : Text.isDigit c = false) {fault : ScanFault} :
    front c rest = .error fault ↔ fault = .unrecognized c ∧ Foreign c := by
  cases hletter : Text.isLetter c with
  | true =>
    have hforeign : ¬ Foreign c := by
      intro hc
      rw [hc.letter] at hletter
      cases hletter
    simp [front, hletter, hforeign]
  | false =>
    have hforeign : Foreign c ↔ ofSingle? c = none ∧ ofExtensible? c = none := by
      rw [← notMem_signs_iff]
      exact ⟨Foreign.sign, fun hsign => ⟨hletter, h, hsign⟩⟩
    rw [hforeign]
    unfold front
    rw [hletter, if_neg Bool.false_ne_true]
    cases ofSingle? c with
    | some kind => simp
    | none =>
      cases ofExtensible? c with
      | some kinds =>
        simp only
        split <;> simp
      | none => simp [h, eq_comm]

/-- Nothing is cut off a foreign character, or off digits that do not go on to a literal. -/
theorem front_eq_error_iff {fault : ScanFault} : front c rest = .error fault ↔
    (fault = .unrecognized c ∧ Foreign c) ∨
      (fault = .invalidNumber ∧ Text.isDigit c ∧ numberAutomaton.run (c :: rest) = none) := by
  cases hdigit : Text.isDigit c with
  | true =>
    have hforeign : ¬ Foreign c := by
      intro hc
      rw [hc.digit] at hdigit
      cases hdigit
    rw [front_of_isDigit hdigit]
    simp only [hforeign, and_false, false_or, true_and, ← numberLength_eq_error_iff]
    cases numberLength (c :: rest) <;> simp [Except.map]
  | false => simp [front_of_not_isDigit hdigit]

theorem isWord_toNat (h : Text.isWord c) : 48 ≤ c.toNat := by
  rw [Text.isWord_iff, Text.isLetter_iff, Text.isDigit_iff] at h
  rcases h with h | h | rfl
  · omega
  · omega
  · decide

theorem spelling_all (h : kind.spelling? = some lexeme) :
    lexeme.all (fun c => decide (32 < c.toNat)) = true := by
  cases kind <;> cases h <;> rfl

theorem isBlank_of_lexeme (hl : kind.Lexeme lexeme) : ∀ c ∈ lexeme, Text.isBlank c = false := by
  intro c hc
  apply Text.isBlank_eq_false
  cases kind with
  | identifier =>
    obtain ⟨d, w, hd, hw, rfl⟩ := hl
    have hword : ∀ e ∈ d :: w, Text.isWord e :=
      List.forall_mem_cons.mpr ⟨isWord_of_isLetter hd, hw⟩
    have := isWord_toNat (hword c hc)
    omega
  | number =>
    have := literalChar_toNat (NumberLiteral.literalChar hl c hc)
    omega
  | endOfInput => cases hl
  | _ => exact of_decide_eq_true (List.all_eq_true.mp (spelling_all hl) c hc)

theorem lexeme_ne_nil (hl : kind.Lexeme lexeme) : lexeme ≠ [] := by
  cases kind with
  | identifier =>
    obtain ⟨d, w, -, -, rfl⟩ := hl
    exact List.cons_ne_nil d w
  | number =>
    obtain ⟨whole, fraction, exponent, hw, -, -, rfl⟩ := hl
    simp [hw.1]
  | endOfInput => cases hl
  | _ =>
    cases hl
    decide

end Token

end Calculator
