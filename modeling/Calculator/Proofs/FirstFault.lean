import Calculator.Proofs.LiteralPrefix
import Calculator.Proofs.Separation

/-! Where a scan fails. It stops in front of the first text off which no token can be cut. What it
has passed is scanned to the same tokens if the source ends there, although the character behind a
token had a say in where the token ends. At a foreign character it does not matter what comes
behind it; at a digit the number is spoiled by what comes behind. -/

set_option autoImplicit false

namespace Calculator

/-- Of what follows the last token of a cut only the first character counts. -/
theorem Cut.of_head {passed rest rest' : Text} {pieces : List (Text × Token)}
    (h : Cut passed pieces rest) (hhead : ∀ c ∈ rest'.head?, c ∈ rest.head?) :
    Cut passed pieces rest' := by
  apply h.of_maximal
  intro kind lexeme hm c hc
  exact hm c (hhead c hc)

/-- A source that is cut into tokens up to some blanks and a character off which, with what comes
behind it, no token can be cut. -/
structure Impasse (source : Text) (pieces : List (Text × Token)) (gap : Text) (c : Char)
    (tail : Text) (fault : ScanFault) : Prop where
  source_eq : source = spread pieces gap ++ c :: tail
  cut : Cut [] pieces (gap ++ c :: tail)
  blanks : Blanks gap
  visible : Text.isBlank c = false
  front : Token.front c tail = .error fault

namespace Impasse

variable {source gap tail : Text} {pieces : List (Text × Token)} {c : Char} {fault : ScanFault}

theorem exists_of_scan {e : ScanError} (h : Token.scan source = .error e) :
    ∃ pieces gap c tail fault, Impasse source pieces gap c tail fault := by
  obtain ⟨pieces, rest, he, hcut, hrest | ⟨gap, c, tail, fault, rfl, hgap, hc, hf⟩⟩ :=
    Cut.exists_of_text [] source
  · have hspacing : Spacing source pieces rest := ⟨he, hcut, hrest⟩
    rw [hspacing.scan] at h
    cases h
  · rw [append_spread] at he
    exact ⟨pieces, gap, c, tail, fault, he, hcut, hgap, hc, hf⟩

theorem tokenize (h : Impasse source pieces gap c tail fault) : (Scanner.ofText source).tokenize =
    (.error ⟨fault, (Location.after (spread pieces gap)).line,
      (Location.after (spread pieces gap)).column⟩,
      .between (spread pieces gap) (c :: tail) (pieces.map Prod.snd)) := by
  rw [h.source_eq, ← append_spread]
  exact Scanner.tokenize_of_fault h.cut h.blanks h.visible h.front

theorem spacing (h : Impasse source pieces gap c tail fault) :
    Spacing (spread pieces gap) pieces gap := by
  refine ⟨rfl, h.cut.of_head ?_, h.blanks⟩
  intro d hd
  rw [List.head?_append, hd]
  rfl

/-- A foreign character is an impasse, whatever comes behind it. -/
theorem of_foreign (h : Impasse source pieces gap c tail fault) (hc : Token.Foreign c)
    (more : Text) :
    Impasse (spread pieces gap ++ c :: more) pieces gap c more (.unrecognized c) := by
  refine ⟨rfl, h.cut.of_head ?_, h.blanks, h.visible, ?_⟩
  · intro d hd
    rw [List.head?_append] at hd ⊢
    exact hd
  · exact Token.front_eq_error_iff.mpr (Or.inl ⟨rfl, hc⟩)

end Impasse

/-- A scan that fails has stopped behind a text that it scans to the tokens found so far. The error
stands there, and either a foreign character does, or digits that do not go on to a literal. -/
theorem tokenize_stops_at_first_fault (source : Text) (e : ScanError) (s : Scanner)
    (h : (Scanner.ofText source).tokenize = (.error e, s)) :
    Token.scan (source.take s.offset) = .ok s.tokens ∧
    Location.after (source.take s.offset) = ⟨e.line, e.column⟩ ∧
    ((∃ c, e.fault = .unrecognized c ∧ source[s.offset]? = some c ∧
        Text.isBlank c = false ∧ Token.Foreign c ∧
        ∀ more, Token.scan (source.take (s.offset + 1) ++ more) = .error e) ∨
      (e.fault = .invalidNumber ∧ (∃ c, source[s.offset]? = some c ∧ Text.isDigit c) ∧
        ∃ p, LongestStart (source.drop s.offset) p ∧ ¬ NumberLiteral p)) := by
  have hscan : Token.scan source = .error e := congrArg Prod.fst h
  obtain ⟨pieces, gap, c, tail, fault, himpasse⟩ := Impasse.exists_of_scan hscan
  rw [himpasse.tokenize] at h
  cases h
  have hoffset : (Scanner.between (spread pieces gap) (c :: tail) (pieces.map Prod.snd)).offset =
      (spread pieces gap).length := List.length_reverse
  have htake : source.take (spread pieces gap).length = spread pieces gap := by
    rw [himpasse.source_eq, List.take_left]
  have hdrop : source.drop (spread pieces gap).length = c :: tail := by
    rw [himpasse.source_eq, List.drop_left]
  have hat : source[(spread pieces gap).length]? = some c := by
    rw [himpasse.source_eq, List.getElem?_append_right (Nat.le_refl _), Nat.sub_self]
    rfl
  rw [hoffset, htake, hdrop]
  refine ⟨himpasse.spacing.scan, rfl, ?_⟩
  rcases Token.front_eq_error_iff.mp himpasse.front with ⟨rfl, hforeign⟩ | ⟨rfl, hdigit, hnone⟩
  · refine Or.inl ⟨c, rfl, hat, himpasse.visible, hforeign, ?_⟩
    intro more
    have hnext : source.take ((spread pieces gap).length + 1) ++ more =
        spread pieces gap ++ c :: more := by
      rw [List.take_add_one, htake, hat]
      simp
    rw [hnext, Token.scan, (himpasse.of_foreign hforeign more).tokenize]
  · refine Or.inr ⟨rfl, ⟨c, hat, hdigit⟩, _, LongestStart.walk (c :: tail), ?_⟩
    exact (run_eq_none_iff_of_longestStart (LongestStart.walk (c :: tail))).mp hnone

/-- An underscore ends a number but starts no token; a point behind a number spoils it. -/
theorem tokenize_stops_behind_number :
    (∃ s, (Scanner.ofText "a <\n12_3".toList).tokenize =
        (.error ⟨.unrecognized '_', 1, 2⟩, s) ∧ s.offset = 6 ∧
      Token.scan "a <\n12".toList = .ok s.tokens ∧
      ∀ more, Token.scan ("a <\n12_".toList ++ more) = .error ⟨.unrecognized '_', 1, 2⟩) ∧
    ∃ s, (Scanner.ofText "(x) 7.e1".toList).tokenize = (.error ⟨.invalidNumber, 0, 4⟩, s) ∧
      Token.scan "(x) ".toList = .ok s.tokens ∧
      ∃ p, LongestStart "7.e1".toList p ∧ ¬ NumberLiteral p := by
  obtain ⟨hforeign, hspoiled⟩ :
      (Scanner.ofText "a <\n12_3".toList).tokenize = (.error ⟨.unrecognized '_', 1, 2⟩,
        ⟨"a <\n12".toList.reverse, "_3".toList, 1, 2, [⟨.identifier, ['a'], 0, 0⟩,
          ⟨.less, ['<'], 0, 2⟩, ⟨.number, ['1', '2'], 1, 0⟩]⟩) ∧
      (Scanner.ofText "(x) 7.e1".toList).tokenize = (.error ⟨.invalidNumber, 0, 4⟩,
        ⟨"(x) ".toList.reverse, "7.e1".toList, 0, 4, [⟨.leftParen, ['('], 0, 0⟩,
          ⟨.identifier, ['x'], 0, 1⟩, ⟨.rightParen, [')'], 0, 2⟩]⟩) := by
    refine ⟨?_, ?_⟩ <;> cbv
  obtain ⟨hbefore, -, ⟨c, -, -, -, -, hsame⟩ | ⟨hfault, -⟩⟩ :=
    tokenize_stops_at_first_fault _ _ _ hforeign
  · obtain ⟨hbefore', -, ⟨c, hfault, -⟩ | ⟨-, -, hstart⟩⟩ :=
      tokenize_stops_at_first_fault _ _ _ hspoiled
    · cases hfault
    · exact ⟨⟨_, hforeign, rfl, hbefore, hsame⟩, _, hspoiled, hbefore', hstart⟩
  · cases hfault

end Calculator
