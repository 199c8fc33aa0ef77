import Calculator.Proofs.Spacing

/-! Sources that are put together with blanks between them. A blank goes on with no lexeme, so the
first part is scanned as if it stood alone; the second part is scanned as if it stood alone too,
but its places count from where it starts. -/

set_option autoImplicit false

namespace Calculator

/-- The place that lies at `l` in a text which starts at `base`. Only the first line of that text
is moved to the right. -/
def Location.shift (base l : Location) : Location :=
  ⟨base.line + l.line, if l.line = 0 then base.column + l.column else l.column⟩

def Token.shift (base : Location) (t : Token) : Token :=
  { t with
    line := base.line + t.line
    column := if t.line = 0 then base.column + t.column else t.column }

def ScanError.shift (base : Location) (e : ScanError) : ScanError :=
  ⟨e.fault, base.line + e.line, if e.line = 0 then base.column + e.column else e.column⟩

theorem Location.after_append_eq_shift (passed w : Text) :
    after (passed ++ w) = (after passed).shift (after w) := by
  -- on the end of the text behind: its last character moves both places alike
  induction w using List.reverseRecOn with
  | nil => simp [shift, after]
  | append_singleton w c ih =>
    rw [← List.append_assoc]
    by_cases hc : c = '\n'
    · subst hc
      rw [after_concat_newline, after_concat_newline, ih]
      simp [shift, Nat.add_assoc]
    · rw [after_concat hc, after_concat hc, ih]
      simp only [shift, Location.mk.injEq, true_and]
      split <;> omega

theorem Token.Behind.shift {passed : Text} {t : Token} (h : t.Behind passed) (base : Text) :
    (t.shift (Location.after base)).Behind (base ++ passed) := by
  have hline := h.line
  have hcolumn := h.column
  constructor
  · rw [Location.after_append_eq_shift, Token.shift, Location.shift, hline]
    simp
  · rw [Location.after_append_eq_shift, Token.shift, Location.shift, hline, hcolumn]
    simp only [Int.natCast_eq_zero]
    split <;> simp

def shiftPieces (base : Location) (pieces : List (Text × Token)) : List (Text × Token) :=
  pieces.map fun piece => (piece.1, piece.2.shift base)

theorem spread_shiftPieces (base : Location) (pieces : List (Text × Token)) (rest : Text) :
    spread (shiftPieces base pieces) rest = spread pieces rest := by
  induction pieces with
  | nil => rfl
  | cons piece pieces ih => simpa [shiftPieces, spread, Token.shift] using ih

theorem map_snd_shiftPieces (base : Location) (pieces : List (Text × Token)) :
    (shiftPieces base pieces).map Prod.snd = (pieces.map Prod.snd).map (Token.shift base) := by
  simp [shiftPieces]

/-- A cut can be made anywhere, with its places moved. -/
theorem Cut.shift {passed rest : Text} {pieces : List (Text × Token)} (h : Cut passed pieces rest)
    (base : Text) : Cut (base ++ passed) (shiftPieces (Location.after base) pieces) rest := by
  induction h with
  | nil => exact .nil
  | @cons passed gap rest t pieces hgap hl hm hb _ ih =>
    refine .cons hgap hl ?_ ?_ ?_
    · change t.kind.Maximal t.lexeme (spread (shiftPieces _ pieces) rest)
      rw [spread_shiftPieces]
      exact hm
    · rw [List.append_assoc]
      exact hb.shift base
    · change Cut _ (shiftPieces _ pieces) rest
      simpa only [List.append_assoc, Token.shift] using ih

/-- What a scan gives where some tokens were stored before and the text starts at `base`. -/
def resumed (base : Location) (tokens : List Token) :
    Except ScanError (List Token) → Except ScanError (List Token)
  | .ok ts => .ok (tokens ++ ts.map (Token.shift base))
  | .error e => .error (e.shift base)

namespace Scanner

/-- The scanner that does behind a text, with some tokens stored before, what `s` did. -/
def moved (passed : Text) (tokens : List Token) (s : Scanner) : Scanner :=
  between (passed ++ s.behind.reverse) s.ahead
    (tokens ++ s.tokens.map (Token.shift (Location.after passed)))

theorem moved_between (passed passed' ahead : Text) (tokens tokens' : List Token) :
    (between passed' ahead tokens').moved passed tokens =
      between (passed ++ passed') ahead
        (tokens ++ tokens'.map (Token.shift (Location.after passed))) := by
  have hbehind : (between passed' ahead tokens').behind.reverse = passed' := List.reverse_reverse _
  rw [moved, hbehind]
  rfl

/-- A scanner does with the text ahead what a scanner at the start of that text does. -/
theorem tokenize_between_eq_moved (passed ahead : Text) (tokens : List Token) :
    (between passed ahead tokens).tokenize =
      (resumed (Location.after passed) tokens (Token.scan ahead),
        (ofText ahead).tokenize.2.moved passed tokens) := by
  obtain ⟨pieces, rest, rfl, hcut, hrest⟩ := Cut.exists_of_text [] ahead
  have hshift := hcut.shift passed
  rw [List.append_nil] at hshift
  have hmoved := tokenize_cut hshift tokens
  rw [spread_shiftPieces, spread_shiftPieces, map_snd_shiftPieces] at hmoved
  have hfresh := tokenize_cut hcut []
  rw [List.nil_append, List.nil_append] at hfresh
  rw [Token.scan, ofText_eq_between, hmoved, hfresh]
  rcases hrest with hblanks | ⟨gap, c, tail, fault, rfl, hgap, hc, hf⟩
  · rw [tokenize_blanks _ hblanks, tokenize_blanks _ hblanks, moved_between, List.append_assoc]
    rfl
  · rw [tokenize_fault _ hgap hc hf, tokenize_fault _ hgap hc hf, moved_between, List.append_assoc]
    simp only [errorAt, between, resumed, Location.after_append_eq_shift passed]
    rfl

theorem tokenize_between (passed ahead : Text) (tokens : List Token) :
    (between passed ahead tokens).tokenize.1 =
      resumed (Location.after passed) tokens (Token.scan ahead) :=
  congrArg Prod.fst (tokenize_between_eq_moved passed ahead tokens)

theorem tokenize_eq_of_skipBlanks {s s' : Scanner} (h : s.skipBlanks = s'.skipBlanks) :
    s.tokenize = s'.tokenize := by
  cases hs : s'.skipBlanks.ahead with
  | nil => rw [tokenize_of_nil hs, tokenize_of_nil (h ▸ hs), h]
  | cons c rest =>
    cases hf : Token.front c rest with
    | error fault => rw [tokenize_of_error hs hf, tokenize_of_error (h ▸ hs) hf, h]
    | ok cut => rw [tokenize_of_ok hs hf, tokenize_of_ok (h ▸ hs) hf, h]

theorem tokenize_append_blanks (passed : Text) {gap : Text} (hgap : Blanks gap) (ahead : Text)
    (tokens : List Token) :
    (between passed (gap ++ ahead) tokens).tokenize =
      (between (passed ++ gap) ahead tokens).tokenize := by
  have hsplit : ahead.takeWhile Text.isBlank ++ ahead.dropWhile Text.isBlank = ahead :=
    List.takeWhile_append_dropWhile
  have hmore : Blanks (ahead.takeWhile Text.isBlank) := List.all_eq_true.mp List.all_takeWhile
  have hstop : ∀ c ∈ (ahead.dropWhile Text.isBlank).head?, Text.isBlank c = false :=
    fun c hc => Text.eq_false_of_mem_head?_dropWhile hc
  have hboth : Blanks (gap ++ ahead.takeWhile Text.isBlank) :=
    List.forall_mem_append.mpr ⟨hgap, hmore⟩
  have hwhole := skipBlanks_between passed _ tokens hboth hstop
  have hbehind := skipBlanks_between (passed ++ gap) _ tokens hmore hstop
  rw [List.append_assoc, hsplit] at hwhole
  rw [hsplit, List.append_assoc] at hbehind
  exact tokenize_eq_of_skipBlanks (hwhole.trans hbehind.symm)

end Scanner

theorem spread_nil_append (pieces : List (Text × Token)) (rest : Text) :
    spread pieces [] ++ rest = spread pieces rest := by
  rw [← append_spread, List.nil_append]

section Maximal
variable {kind : TokenKind} {passed lexeme w rest rest' : Text} {pieces : List (Text × Token)}

theorem TokenKind.Maximal.of_append (hw : w ≠ []) (h : kind.Maximal lexeme (w ++ rest)) :
    kind.Maximal lexeme (w ++ rest') := by
  obtain ⟨c, w, rfl⟩ := List.exists_cons_of_ne_nil hw
  exact h

/-- Another text may follow a cut if the last lexeme ends in front of it too. -/
theorem Cut.of_maximal (h : Cut passed pieces rest)
    (hrest : ∀ (kind : TokenKind) (lexeme : Text), kind.Maximal lexeme rest →
      kind.Maximal lexeme rest') : Cut passed pieces rest' := by
  induction h with
  | nil => exact .nil
  | @cons passed gap rest t pieces hgap hl hm hb hcut ih =>
    refine .cons hgap hl ?_ hb (ih hrest)
    cases hcut with
    | nil => exact hrest _ _ hm
    | @cons _ gap' _ t' pieces' _ hl' =>
      have hne := List.append_ne_nil_of_right_ne_nil gap' (Token.lexeme_ne_nil hl')
      rw [spread, ← List.append_assoc] at hm ⊢
      exact hm.of_append hne

end Maximal

section Fault
variable {pieces : List (Text × Token)} {gap tail : Text} {c : Char} {fault : ScanFault}

theorem Scanner.tokenize_of_fault (h : Cut [] pieces (gap ++ c :: tail)) (hgap : Blanks gap)
    (hc : Text.isBlank c = false) (hf : Token.front c tail = .error fault) :
    (ofText (spread pieces (gap ++ c :: tail))).tokenize =
      (.error ⟨fault, (Location.after (spread pieces gap)).line,
        (Location.after (spread pieces gap)).column⟩,
        between (spread pieces gap) (c :: tail) (pieces.map Prod.snd)) := by
  rw [ofText_eq_between, tokenize_cut h, tokenize_fault _ hgap hc hf, List.nil_append,
    spread_nil_append]
  rfl

/-- A scan fails behind the last token that can be cut off. -/
theorem scan_of_fault (h : Cut [] pieces (gap ++ c :: tail)) (hgap : Blanks gap)
    (hc : Text.isBlank c = false) (hf : Token.front c tail = .error fault) :
    Token.scan (spread pieces (gap ++ c :: tail)) =
      .error ⟨fault, (Location.after (spread pieces gap)).line,
        (Location.after (spread pieces gap)).column⟩ :=
  congrArg Prod.fst (Scanner.tokenize_of_fault h hgap hc hf)

end Fault

section Blank
variable {c : Char} {more : Text}

theorem toNat_of_isBlank (h : Text.isBlank c) : c.toNat ≤ 32 := by
  by_contra hlarge
  rw [Text.isBlank_eq_false (by omega)] at h
  cases h

/-- The characters before the plus sign go on with no lexeme. -/
theorem not_continues_of_toNat (h : c.toNat < 43) (kind : TokenKind) (lexeme : Text) :
    ¬ kind.Continues lexeme c := by
  intro hgoes
  cases kind with
  | identifier =>
    have hword := Token.isWord_toNat hgoes
    omega
  | number =>
    obtain ⟨tail, hliteral⟩ := hgoes
    have hchar := literalChar_toNat (hliteral.literalChar c (by simp))
    omega
  | assign | less | greater =>
    obtain rfl : c = '=' := hgoes
    exact absurd h (by decide)
  | _ => exact hgoes

theorem not_continues_of_isBlank (h : Text.isBlank c) (kind : TokenKind) (lexeme : Text) :
    ¬ kind.Continues lexeme c := by
  have hc := toNat_of_isBlank h
  exact not_continues_of_toNat (by omega) kind lexeme

theorem NumberState.next_of_isBlank (h : Text.isBlank c) (s : NumberState) : s.next c = none := by
  have hnot : ¬ LiteralChar c := by
    intro hliteral
    have hchar := literalChar_toNat hliteral
    have hc := toNat_of_isBlank h
    omega
  simp only [LiteralChar, not_or, Bool.not_eq_true] at hnot
  obtain ⟨hdigit, hpoint, hmark, hsign⟩ := hnot
  cases s <;> simp [next, hdigit, hpoint, hmark, hsign]

/-- Behind what no state can follow, a walk sees nothing. -/
theorem Automaton.walk_append_of_none {σ : Type} {next : σ → Char → Option σ}
    (h : ∀ s, ∀ c ∈ more.head?, next s c = none) (s : σ) (input : Text) :
    walk next s (input ++ more) = walk next s input := by
  induction input generalizing s with
  | nil =>
    cases more with
    | nil => rfl
    | cons c more => simp only [List.nil_append, walk, h s c rfl]
  | cons c input ih =>
    cases hc : next s c with
    | none => simp only [List.cons_append, walk, hc]
    | some s' => simp only [List.cons_append, walk, hc, ih]

theorem Token.front_append {rest : Text} {fault : ScanFault} (h : front c rest = .error fault)
    (hmore : ∀ c ∈ more.head?, Text.isBlank c) : front c (rest ++ more) = .error fault := by
  have hrun : numberAutomaton.run (c :: rest ++ more) = numberAutomaton.run (c :: rest) := by
    rw [Automaton.run, Automaton.run, Automaton.walk_append_of_none]
    exact fun s d hd => NumberState.next_of_isBlank (hmore d hd) s
  rcases front_eq_error_iff.mp h with hforeign | ⟨rfl, hdigit, hnone⟩
  · exact front_eq_error_iff.mpr (Or.inl hforeign)
  · exact front_eq_error_iff.mpr (Or.inr ⟨rfl, hdigit, hrun.trans hnone⟩)

theorem TokenKind.Maximal.append {kind : TokenKind} {lexeme after : Text}
    (h : kind.Maximal lexeme after) (hmore : ∀ c ∈ more.head?, Text.isBlank c) :
    kind.Maximal lexeme (after ++ more) := by
  intro c hc
  cases after with
  | nil => exact not_continues_of_isBlank (hmore c hc) kind lexeme
  | cons d after => exact h c hc

theorem Cut.append {passed rest : Text} {pieces : List (Text × Token)} (h : Cut passed pieces rest)
    (hmore : ∀ c ∈ more.head?, Text.isBlank c) : Cut passed pieces (rest ++ more) := by
  apply h.of_maximal
  intro kind lexeme hm
  exact hm.append hmore

end Blank

/-- Blanks keep two sources apart: what stands on either side is scanned as if it stood alone,
errors included, and the places of what comes second count from where it starts. -/
theorem scan_append_blanks (a w b : Text) (hw : Blanks w) (hne : w ≠ []) :
    Token.scan (a ++ w ++ b) =
      match Token.scan a with
      | .error e => .error e
      | .ok ts =>
        match Token.scan b with
        | .error e => .error (e.shift (Location.after (a ++ w)))
        | .ok us => .ok (ts ++ us.map (Token.shift (Location.after (a ++ w)))) := by
  have hmore : ∀ c ∈ (w ++ b).head?, Text.isBlank c := by
    obtain ⟨d, w, rfl⟩ := List.exists_cons_of_ne_nil hne
    simpa using hw d List.mem_cons_self
  obtain ⟨pieces, rest, rfl, hcut, hrest⟩ := Cut.exists_of_text [] a
  have hlonger := hcut.append hmore
  rcases hrest with hblanks | ⟨gap, c, tail, fault, rfl, hgap, hc, hf⟩
  · have hfirst : Spacing (spread pieces rest) pieces rest := ⟨rfl, hcut, hblanks⟩
    have hgap : Blanks (rest ++ w) := List.forall_mem_append.mpr ⟨hblanks, hw⟩
    have hjoin : spread pieces rest ++ w ++ b = spread pieces (rest ++ w ++ b) := by
      rw [append_spread, append_spread]
    rw [← List.append_assoc] at hlonger
    rw [hfirst.scan, hjoin, Token.scan, Scanner.ofText_eq_between, Scanner.tokenize_cut hlonger,
      Scanner.tokenize_append_blanks _ hgap, Scanner.tokenize_between, List.nil_append,
      spread_nil_append, append_spread]
    cases Token.scan b <;> rfl
  · have hfault := Token.front_append hf hmore
    rw [List.append_assoc, List.cons_append] at hlonger
    rw [scan_of_fault hcut hgap hc hf, List.append_assoc, ← append_spread, List.append_assoc,
      List.cons_append, scan_of_fault hlonger hgap hc hfault]

theorem scan_append_blanks_lines :
    (Blanks " \n ".toList ∧ " \n ".toList ≠ [] ∧
      Token.scan ("x <".toList ++ " \n ".toList ++ "= 1.5\ny".toList) =
        .ok [⟨.identifier, ['x'], 0, 0⟩, ⟨.less, ['<'], 0, 2⟩, ⟨.assign, ['='], 1, 1⟩,
          ⟨.number, "1.5".toList, 1, 3⟩, ⟨.identifier, ['y'], 2, 0⟩]) ∧
    Token.scan ("2 1.".toList ++ " \n ".toList ++ "5".toList) = .error ⟨.invalidNumber, 0, 2⟩ ∧
    Token.scan ("2".toList ++ " \n ".toList ++ "x ?".toList) = .error ⟨.unrecognized '?', 1, 3⟩ := by
  have hw : Blanks " \n ".toList := by simp [Blanks, Text.isBlank]
  have hne : " \n ".toList ≠ [] := by simp
  refine ⟨⟨hw, hne, ?_⟩, ?_, ?_⟩
  · rw [scan_append_blanks _ _ _ hw hne]
    cbv
  · rw [scan_append_blanks _ _ _ hw hne]
    cbv
  · rw [scan_append_blanks _ _ _ hw hne]
    cbv

end Calculator
