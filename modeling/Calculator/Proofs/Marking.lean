import Calculator.Proofs.Closure
import Calculator.Proofs.EarliestError
import Calculator.Proofs.FirstFault
import Calculator.Proofs.Lines

/-! What the errors of sources point at. Every error of a source has a place in the source, the
text that it is about starts there, and the mark of its report stands below the first character
of that text. -/

set_option autoImplicit false

namespace Calculator

/-- A token of a source that is spelled behind what is passed, from the character `c` on. -/
structure Token.Spelled (t : Token) (source passed : Text) (c : Char) (ahead : Text) : Prop where
  mem : ∃ ts, Token.scan source = .ok ts ∧ t ∈ ts
  location? : t.location? = some (Location.after passed)
  lexeme : ∃ w after, t.lexeme = c :: w ∧ ahead = w ++ after

/-- The faults that are about the text from a character of a source on. `passed` stands before
the character and `ahead` behind it. -/
inductive Fault.Concerns (source : Text) (symbols : Symbols) (passed : Text) (c : Char)
    (ahead : Text) : Fault → Prop
  | unrecognized : Text.isBlank c = false →
      (∀ (kind : TokenKind) (w : Text), ¬ kind.Lexeme (c :: w)) →
      Concerns source symbols passed c ahead (.unrecognizedCharacter [c])
  | invalidNumber : Text.isDigit c →
      (∀ literal after, c :: ahead = literal ++ after → TokenKind.number.Lexeme literal →
        ¬ TokenKind.number.Maximal literal after) →
      Concerns source symbols passed c ahead .invalidNumber
  | unexpectedToken (t : Token) : t.Spelled source passed c ahead →
      Concerns source symbols passed c ahead (.unexpectedToken t.lexeme)
  | expectedClose (t : Token) : t.Spelled source passed c ahead →
      Concerns source symbols passed c ahead (.expectedClose t.lexeme)
  | unexpectedEnd : Text.isBlank c = false → Blanks ahead →
      Concerns source symbols passed c ahead .unexpectedEnd
  | unclosedEnd : Text.isBlank c = false → Blanks ahead →
      Concerns source symbols passed c ahead (.expectedClose endOfLine)
  | symbolNotFound (t : Token) : t.Spelled source passed c ahead → t.Unbound symbols →
      Concerns source symbols passed c ahead (.symbolNotFound t.lexeme)

variable {source passed ahead : Text} {symbols : Symbols} {c : Char} {t : Token}

theorem Token.Spelled.isBlank (h : t.Spelled source passed c ahead) : Text.isBlank c = false := by
  obtain ⟨⟨ts, hscan, hm⟩, -, w, after, hw, -⟩ := h
  obtain ⟨pieces, last, hspacing, rfl⟩ := Spacing.exists_of_scan hscan
  obtain ⟨⟨gap, t⟩, hp, rfl⟩ := List.mem_map.mp hm
  obtain ⟨lead, more, rfl⟩ := List.append_of_mem hp
  apply Token.isBlank_of_lexeme hspacing.cut.middle.1
  rw [hw]
  exact List.mem_cons_self

theorem Token.exists_spelled {ts : List Token} (hscan : Token.scan source = .ok ts) (hm : t ∈ ts) :
    ∃ passed c ahead, source = passed ++ c :: ahead ∧ t.place = Location.after passed ∧
      t.Spelled source passed c ahead := by
  obtain ⟨pieces, last, hspacing, rfl⟩ := Spacing.exists_of_scan hscan
  obtain ⟨-, before, lead, d, after, hsource, hlexeme, hplace, -⟩ := hspacing.places t hm
  obtain ⟨c, w, hw⟩ : ∃ c w, t.lexeme = c :: w :=
    List.exists_cons_of_ne_nil (by simp [hlexeme])
  have hat : t.place = Location.after before := by
    rw [(Token.sound_of_scan hscan t hm).location?] at hplace
    exact Option.some.inj hplace
  refine ⟨before, c, w ++ after, ?_, hat, ⟨_, hscan, hm⟩, hplace, w, after, hw, rfl⟩
  rw [hsource, ← List.cons_append, ← hw, hlexeme, List.append_assoc, List.singleton_append]

namespace Fault

theorem Concerns.isBlank {fault : Fault} (h : fault.Concerns source symbols passed c ahead) :
    Text.isBlank c = false := by
  cases h with
  | unrecognized hc => exact hc
  | invalidNumber hc =>
    apply Text.isBlank_eq_false
    have := (Text.isDigit_iff c).mp hc
    omega
  | unexpectedToken t ht => exact ht.isBlank
  | expectedClose t ht => exact ht.isBlank
  | unexpectedEnd hc => exact hc
  | unclosedEnd hc => exact hc
  | symbolNotFound t ht => exact ht.isBlank

theorem Concerns.quoting {fault : Fault} (h : fault.Concerns source symbols passed c ahead) :
    fault.Quoting := by
  cases h <;> trivial

/-- No token can be cut off the text that a lexical fault is about. -/
theorem concerns_of_front {fault : ScanFault} (hc : Text.isBlank c = false)
    (h : Token.front c ahead = .error fault) :
    fault.fault.Concerns source symbols passed c ahead := by
  rcases Token.front_eq_error_iff.mp h with ⟨rfl, hforeign⟩ | ⟨rfl, hdigit, hnone⟩
  · refine .unrecognized hc ?_
    intro kind w hl
    have hmaximal : kind.Maximal (c :: w) [] := by
      intro d hd
      cases hd
    have hfront := Token.front_of_lexeme hl hmaximal (List.append_nil (c :: w)).symm
    rw [Token.front_eq_error_iff.mpr (Or.inl ⟨rfl, hforeign⟩)] at hfront
    cases hfront
  · refine .invalidNumber hdigit ?_
    intro literal after he hl hm
    have hrun := (numberAutomaton_run_eq_some_iff _ literal).mpr ⟨after, he, hl, hm⟩
    rw [hnone] at hrun
    cases hrun

end Fault

/-- The report of an error is about the text at its place. -/
def SourceError.Points (e : SourceError) (source : Text) (symbols : Symbols) : Prop :=
  ∃ fault passed c ahead, e.report? = some (Fault.reportAt fault (Location.after passed)) ∧
    source = passed ++ c :: ahead ∧ fault.Concerns source symbols passed c ahead

namespace SourceError.Points

theorem scan {e : ScanError} (h : Token.scan source = .error e) (symbols : Symbols) :
    (SourceError.scan e).Points source symbols := by
  obtain ⟨pieces, gap, c, tail, fault, himpasse⟩ := Impasse.exists_of_scan h
  rw [Token.scan, himpasse.tokenize] at h
  cases h
  exact ⟨fault.fault, spread pieces gap, c, tail, rfl, himpasse.source_eq,
    Fault.concerns_of_front himpasse.visible himpasse.front⟩

theorem grammar {ts : List Token} {failure : ParseFailure} (hscan : Token.scan source = .ok ts)
    (h : Tree.ofTokens ts = .error failure) (symbols : Symbols) :
    (SourceError.parse failure).Points source symbols := by
  have hne : ts ≠ [] := by
    rintro rfl
    rw [ofTokens_nil] at h
    cases h
  have hs := Token.sound_of_scan hscan
  cases Judgement.of_sound hne hs with
  | accepted s hd =>
    rw [ofTokens_of_run (s.run_program hd hs)] at h
    cases h
  | refused before t after e href =>
    obtain ⟨d, hrun⟩ := href.run_program after
    rw [ofTokens_of_run hrun] at h
    cases h
    obtain ⟨passed, c, ahead, hsource, hplace, hspelled⟩ :=
      Token.exists_spelled hscan (List.mem_append_right before List.mem_cons_self)
    cases href.blamed with
    | unexpected =>
      exact ⟨_, passed, c, ahead, by rw [← hplace]; rfl, hsource, .unexpectedToken t hspelled⟩
    | unclosed =>
      exact ⟨_, passed, c, ahead, by rw [← hplace]; rfl, hsource, .expectedClose t hspelled⟩
  | exhausted _ hex =>
    obtain ⟨e, d, hmissed, hrun⟩ := hex.run_program
    rw [ofTokens_of_run hrun] at h
    cases h
    obtain ⟨pieces, gap, hspacing, rfl⟩ := Spacing.exists_of_scan hscan
    obtain ⟨t, lead, last, -, hsource, hblank, -, hplace⟩ := hspacing.last_place hne
    rw [hplace] at hmissed
    cases hmissed with
    | operand => exact ⟨_, lead, last, gap, rfl, hsource, .unexpectedEnd hblank hspacing.blanks⟩
    | unclosed => exact ⟨_, lead, last, gap, rfl, hsource, .unclosedEnd hblank hspacing.blanks⟩

theorem unbound {ts : List Token} (hscan : Token.scan source = .ok ts) (hm : t ∈ ts)
    (ht : t.Unbound symbols) :
    (SourceError.eval (.symbolNotFound t.lexeme t.place)).Points source symbols := by
  obtain ⟨passed, c, ahead, hsource, hplace, hspelled⟩ := Token.exists_spelled hscan hm
  exact ⟨_, passed, c, ahead, by rw [← hplace]; rfl, hsource, .symbolNotFound t hspelled ht⟩

end SourceError.Points

namespace Source

/-- Whatever a source fails with is about a text of the source. -/
theorem points_of_error {e : SourceError} (h : (evaluate source symbols).1 = .error e) :
    e.Points source symbols := by
  cases hscan : Token.scan source with
  | error fault =>
    simp only [evaluate, parse, hscan] at h
    cases h
    exact .scan hscan symbols
  | ok ts =>
    cases htree : Tree.ofTokens ts with
    | error failure =>
      simp only [evaluate, parse, hscan, htree] at h
      cases h
      exact .grammar hscan htree symbols
    | ok tree =>
      have hparse : parse source = .ok tree := by simp only [parse, hscan, htree]
      rcases (ofTokens_eq_ok_iff (Token.sound_of_scan hscan) tree).mp htree with
        ⟨-, rfl⟩ | ⟨s, rfl, hd, rfl⟩
      · simp only [evaluate, hparse, run_nil] at h
        cases h
      · rcases run_statement_target hd (by decide : 197 ≤ Tree.walkLimit) symbols with
          ⟨value, hv⟩ | ⟨t, hm, ht, he⟩
        · simp only [evaluate, hparse, hv] at h
          cases h
        · simp only [evaluate, hparse, he] at h
          cases h
          exact .unbound hscan hm ht

/-- Every error of a source is at a character of the source, where the text that it is about
starts, and the mark of its report stands below that character. -/
theorem evaluate_error_marked (source : Text) (symbols : Symbols) (e : SourceError)
    (h : (evaluate source symbols).1 = .error e) :
    ∃ fault l passed c ahead row headline place margin mark,
      e.report? = some (Fault.reportAt fault l) ∧ l = Location.after passed ∧
      source = passed ++ c :: ahead ∧ fault.Concerns source symbols passed c ahead ∧
      (Text.lines source)[l.line]? = some row ∧ row[l.column]? = some c ∧
      Text.lines ((Fault.reportAt fault l).inSource source) =
        [headline, place, margin ++ row, mark] ∧
      margin = Text.alignRight 4 (Text.ofNat l.line) ++ " | ".toList ∧
      '^' ∈ mark ∧ mark.idxOf '^' = margin.length + l.column ∧
      (margin ++ row)[mark.idxOf '^']? = some c := by
  obtain ⟨fault, passed, c, ahead, hreport, rfl, hconcerns⟩ := points_of_error h
  have hc : c ≠ '\n' := by
    rintro rfl
    exact absurd hconcerns.isBlank (by decide)
  obtain ⟨row, hrow, hcolumn⟩ := Text.exists_line_at passed ahead hc
  have hlines := Report.lines_inSource hconcerns.quoting hrow
  have hmark := Report.idxOf_markLine (Location.after passed)
  refine ⟨fault, _, passed, c, ahead, row, _, _, _, _, hreport, rfl, rfl, hconcerns, hrow, hcolumn,
    hlines, rfl, ?_, hmark, ?_⟩
  · exact List.mem_append_right _ List.mem_cons_self
  · rw [hmark, List.getElem?_append_right (Nat.le_add_right _ _), Nat.add_sub_cancel_left]
    exact hcolumn

theorem evaluate_error_marked_second_line :
    (evaluate "a = (PI +\n  bc)".toList .builtin).1 =
      .error (.eval (.symbolNotFound ['b', 'c'] ⟨1, 2⟩)) ∧
    ∃ headline place mark, Text.lines ((Fault.reportAt (.symbolNotFound ['b', 'c'])
      ⟨1, 2⟩).inSource "a = (PI +\n  bc)".toList) =
        [headline, place, "   1 |   bc)".toList, mark] ∧ mark.idxOf '^' = 9 := by
  have hparse : parse "a = (PI +\n  bc)".toList = .ok (.program [.assignment ['a'] (.operation .sum
      (.identifier ['P', 'I'] ⟨0, 5⟩) (.identifier ['b', 'c'] ⟨1, 2⟩) ⟨0, 8⟩) ⟨0, 0⟩] .origin) := by
    cbv
  have herror : (evaluate "a = (PI +\n  bc)".toList .builtin).1 =
      .error (.eval (.symbolNotFound ['b', 'c'] ⟨1, 2⟩)) := by
    rw [evaluate, hparse]
    rfl
  obtain ⟨fault, ⟨line, column⟩, -, -, -, row, headline, place, margin, mark, hreport, -, -, -, hrow,
    -, hlines, rfl, -, hmark, -⟩ := evaluate_error_marked _ _ _ herror
  cases hreport
  cases hrow
  exact ⟨herror, headline, place, mark, hlines, hmark⟩

end Source

end Calculator
