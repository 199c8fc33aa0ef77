import Calculator.Proofs.Lexeme
import Calculator.Proofs.Phrase
import Calculator.Proofs.Place

/-! Spacings of sources. A source that can be scanned is a row of tokens with blanks in front of
each of them and behind the last one, in which every token is a maximal lexeme and stands where
its coordinates say. It has only one such spacing, and scanning finds it. -/

set_option autoImplicit false

namespace Calculator

/-- A text of blanks, which may be empty. -/
def Blanks (w : Text) : Prop := ∀ c ∈ w, Text.isBlank c

/-- The text of a row of tokens with the gap in front of each, and what follows the last. -/
def spread : List (Text × Token) → Text → Text
  | [], rest => rest
  | (gap, t) :: pieces, rest => gap ++ (t.lexeme ++ spread pieces rest)

/-- A token stands behind a text if the text leads to its coordinates. -/
structure Token.Behind (passed : Text) (t : Token) : Prop where
  line : t.line = (Location.after passed).line
  column : t.column = (Location.after passed).column

/-- `Cut passed pieces rest` says that `pieces` are cut off a source between a text that is
passed and the rest. -/
inductive Cut : Text → List (Text × Token) → Text → Prop
  | nil {passed rest : Text} : Cut passed [] rest
  | cons {passed gap rest : Text} {t : Token} {pieces : List (Text × Token)} :
      Blanks gap → t.kind.Lexeme t.lexeme → t.kind.Maximal t.lexeme (spread pieces rest) →
      t.Behind (passed ++ gap) → Cut (passed ++ gap ++ t.lexeme) pieces rest →
      Cut passed ((gap, t) :: pieces) rest

namespace Scanner

open TokenKind

variable {s : Scanner} {c : Char} {gap lexeme rest : Text} {kind : TokenKind} {fault : ScanFault}

theorem tokenize_of_nil (hs : s.skipBlanks.ahead = []) :
    s.tokenize = (.ok s.skipBlanks.tokens, s.skipBlanks) := by
  rw [tokenize]
  split
  · rfl
  · simp_all

theorem tokenize_of_error (hs : s.skipBlanks.ahead = c :: rest)
    (h : Token.front c rest = .error fault) :
    s.tokenize = (.error (s.skipBlanks.errorAt fault), s.skipBlanks) := by
  rw [tokenize]
  split
  · simp_all
  · rename_i hs'
    obtain ⟨rfl, rfl⟩ := List.cons.inj (hs.symm.trans hs')
    split <;> simp_all

theorem tokenize_of_ok {length : Nat} (hs : s.skipBlanks.ahead = c :: rest)
    (h : Token.front c rest = .ok (kind, length)) :
    s.tokenize = (s.skipBlanks.emit kind length).tokenize := by
  rw [tokenize]
  split
  · simp_all
  · rename_i hs'
    obtain ⟨rfl, rfl⟩ := List.cons.inj (hs.symm.trans hs')
    split <;> simp_all

theorem tokenize_blanks (passed : Text) (hgap : Blanks gap) (tokens : List Token) :
    (between passed gap tokens).tokenize = (.ok tokens, between (passed ++ gap) [] tokens) := by
  have hskip := skipBlanks_between passed [] tokens hgap (by simp)
  rw [List.append_nil] at hskip
  rw [tokenize_of_nil (by rw [hskip]; rfl), hskip]
  rfl

theorem tokenize_fault (passed : Text) (hgap : Blanks gap) (hc : Text.isBlank c = false)
    (h : Token.front c rest = .error fault) (tokens : List Token) :
    (between passed (gap ++ c :: rest) tokens).tokenize =
      (.error ((between (passed ++ gap) (c :: rest) tokens).errorAt fault),
        between (passed ++ gap) (c :: rest) tokens) := by
  have hskip := skipBlanks_between passed (c :: rest) tokens hgap (by simpa using hc)
  rw [tokenize_of_error (by rw [hskip]; rfl) h, hskip]

theorem tokenize_lexeme (passed : Text) (hgap : Blanks gap) (hl : kind.Lexeme lexeme)
    (hm : kind.Maximal lexeme rest) (tokens : List Token) :
    (between passed (gap ++ (lexeme ++ rest)) tokens).tokenize =
      (between (passed ++ gap ++ lexeme) rest (tokens ++ [⟨kind, lexeme,
        (Location.after (passed ++ gap)).line, (Location.after (passed ++ gap)).column⟩])).tokenize := by
  obtain ⟨c, w, he⟩ := List.exists_cons_of_ne_nil (Token.lexeme_ne_nil hl)
  have hc : Text.isBlank c = false := Token.isBlank_of_lexeme hl c (by simp [he])
  have hhead : lexeme ++ rest = c :: (w ++ rest) := by rw [he, List.cons_append]
  have hskip := skipBlanks_between passed (lexeme ++ rest) tokens hgap
    (by simpa [hhead] using hc)
  rw [tokenize_of_ok (by rw [hskip]; exact hhead) (Token.front_of_lexeme hl hm hhead.symm), hskip,
    emit_between]

theorem tokenize_cut {passed : Text} {pieces : List (Text × Token)} (h : Cut passed pieces rest)
    (tokens : List Token) :
    (between passed (spread pieces rest) tokens).tokenize =
      (between (passed ++ spread pieces []) rest (tokens ++ pieces.map Prod.snd)).tokenize := by
  induction h generalizing tokens with
  | nil => simp [spread]
  | @cons passed gap rest t pieces hgap hl hm hb _ ih =>
    have ht : (⟨t.kind, t.lexeme, (Location.after (passed ++ gap)).line,
        (Location.after (passed ++ gap)).column⟩ : Token) = t := by
      rw [← hb.line, ← hb.column]
    rw [spread, tokenize_lexeme passed hgap hl hm, ht, ih]
    simp [spread]

end Scanner

theorem spread_append (pieces more : List (Text × Token)) (rest : Text) :
    spread (pieces ++ more) rest = spread pieces (spread more rest) := by
  induction pieces with
  | nil => rfl
  | cons piece pieces ih => simp only [List.cons_append, spread, ih]

theorem append_spread (pieces : List (Text × Token)) (gap rest : Text) :
    spread pieces (gap ++ rest) = spread pieces gap ++ rest := by
  induction pieces with
  | nil => rfl
  | cons piece pieces ih => simp only [spread, ih, List.append_assoc]

namespace Token

variable {t : Token} {passed w : Text} {c : Char}

theorem Behind.location? (h : t.Behind passed) : t.location? = some (Location.after passed) := by
  simp [Token.location?, Location.ofInts?, h.line, h.column]

theorem Behind.endPlace (h : t.Behind passed) (hl : t.kind.Lexeme t.lexeme)
    (he : t.lexeme = w ++ [c]) : t.endPlace = Location.after (passed ++ w) := by
  have hw : ∀ d ∈ w, d ≠ '\n' := by
    intro d hd hn
    have hb := isBlank_of_lexeme hl d (by simp [he, hd])
    rw [hn] at hb
    exact absurd hb (by decide)
  rw [Location.after_append hw]
  simp [Token.endPlace, h.line, h.column, he]

theorem Behind.sound (h : t.Behind passed) (hl : t.kind.Lexeme t.lexeme) : t.Sound := by
  refine ⟨?_, ?_, fun hk => ?_⟩
  · rw [h.line]
    omega
  · rw [h.column]
    omega
  · rw [hk] at hl
    exact Numeral.read?_isSome hl

end Token

namespace Cut

variable {passed rest rest' gap : Text} {t : Token} {pieces pieces' : List (Text × Token)}

/-- Each token of a cut is a lexeme of its kind and stands behind what comes before it. -/
theorem middle {more : List (Text × Token)} (h : Cut passed (pieces ++ (gap, t) :: more) rest) :
    t.kind.Lexeme t.lexeme ∧ t.Behind (passed ++ spread pieces gap) := by
  induction pieces generalizing passed with
  | nil =>
    cases h with
    | cons _ hl _ hb _ => exact ⟨hl, hb⟩
  | cons piece pieces ih =>
    cases h with
    | cons _ _ _ _ htail => simpa only [spread, List.append_assoc] using ih htail

theorem kind_ne_endOfInput (hl : t.kind.Lexeme t.lexeme) : t.kind ≠ .endOfInput := by
  intro hk
  rw [hk] at hl
  cases hl

theorem head_unique {gap' : Text} {t' : Token} {after after' : Text} (hgap : Blanks gap)
    (hgap' : Blanks gap') (hl : t.kind.Lexeme t.lexeme) (hl' : t'.kind.Lexeme t'.lexeme)
    (hm : t.kind.Maximal t.lexeme after) (hm' : t'.kind.Maximal t'.lexeme after')
    (he : gap ++ (t.lexeme ++ after) = gap' ++ (t'.lexeme ++ after')) :
    gap = gap' ∧ t.kind = t'.kind ∧ t.lexeme = t'.lexeme ∧ after = after' := by
  obtain ⟨c, w, hc⟩ := List.exists_cons_of_ne_nil (Token.lexeme_ne_nil hl)
  obtain ⟨c', w', hc'⟩ := List.exists_cons_of_ne_nil (Token.lexeme_ne_nil hl')
  have hb := Token.isBlank_of_lexeme hl c (by simp [hc])
  have hb' := Token.isBlank_of_lexeme hl' c' (by simp [hc'])
  have hstop : ∀ d ∈ (t.lexeme ++ after).head?, Text.isBlank d = false := by simpa [hc] using hb
  have hstop' : ∀ d ∈ (t'.lexeme ++ after').head?, Text.isBlank d = false := by
    simpa [hc'] using hb'
  -- the gap is the run of blanks in front, and the lexeme is what is cut off behind it
  have hs := Text.span_append hgap hstop
  have hs' := Text.span_append hgap' hstop'
  have hg : gap = gap' := by rw [← hs.1, he, hs'.1]
  have hr : t.lexeme ++ after = t'.lexeme ++ after' := by rw [← hs.2, he, hs'.2]
  have hcons : c :: (w ++ after) = t.lexeme ++ after := by rw [hc, List.cons_append]
  have hfront := Token.front_of_lexeme hl hm hcons
  have hfront' := Token.front_of_lexeme hl' hm' (hcons.trans hr)
  rw [hfront, Except.ok.injEq, Prod.mk.injEq] at hfront'
  obtain ⟨hlex, hafter⟩ := List.append_inj hr hfront'.2
  exact ⟨hg, hfront'.1, hlex, hafter⟩

theorem not_blanks (hl : t.kind.Lexeme t.lexeme) (after : Text) :
    ¬ Blanks (gap ++ (t.lexeme ++ after)) := by
  intro hb
  obtain ⟨c, w, hc⟩ := List.exists_cons_of_ne_nil (Token.lexeme_ne_nil hl)
  have hblank := hb c (by simp [hc])
  rw [Token.isBlank_of_lexeme hl c (by simp [hc])] at hblank
  cases hblank

/-- Two cuts of one text that leave only blanks are the same. -/
theorem unique (h : Cut passed pieces rest) (h' : Cut passed pieces' rest') (hrest : Blanks rest)
    (hrest' : Blanks rest') (he : spread pieces rest = spread pieces' rest') :
    pieces = pieces' ∧ rest = rest' := by
  induction h generalizing pieces' with
  | nil =>
    cases h' with
    | nil => exact ⟨rfl, he⟩
    | cons _ hl _ _ _ =>
      rw [spread, spread] at he
      exact absurd (he ▸ hrest) (not_blanks hl _)
  | @cons passed gap rest t pieces hgap hl hm hb _ ih =>
    cases h' with
    | nil =>
      rw [spread, spread] at he
      exact absurd (he ▸ hrest') (not_blanks hl _)
    | @cons _ gap' _ t' pieces' hgap' hl' hm' hb' htail' =>
      obtain ⟨rfl, hk, hlex, hspread⟩ := head_unique hgap hgap' hl hl' hm hm' he
      have ht : t = t' := by
        cases t
        cases t'
        simp only [Token.mk.injEq]
        exact ⟨hk, hlex, hb.line.trans hb'.line.symm, hb.column.trans hb'.column.symm⟩
      subst ht
      obtain ⟨rfl, rfl⟩ := ih htail' hrest hspread
      exact ⟨rfl, rfl⟩

/-- Cutting goes on up to the end, or up to a text from which no token can be cut. -/
theorem exists_of_text (passed ahead : Text) :
    ∃ pieces rest, ahead = spread pieces rest ∧ Cut passed pieces rest ∧
      (Blanks rest ∨ ∃ gap c tail fault, rest = gap ++ c :: tail ∧ Blanks gap ∧
        Text.isBlank c = false ∧ Token.front c tail = .error fault) := by
  have hgap : Blanks (ahead.takeWhile Text.isBlank) := List.all_eq_true.mp List.all_takeWhile
  have hsplit : ahead.takeWhile Text.isBlank ++ ahead.dropWhile Text.isBlank = ahead :=
    List.takeWhile_append_dropWhile
  have hhead := List.head?_dropWhile_not Text.isBlank ahead
  cases hd : ahead.dropWhile Text.isBlank with
  | nil =>
    rw [hd, List.append_nil] at hsplit
    exact ⟨[], ahead, rfl, .nil, Or.inl (hsplit ▸ hgap)⟩
  | cons c tail =>
    rw [hd] at hsplit hhead
    have hc : Text.isBlank c = false := by simpa using hhead
    cases hf : Token.front c tail with
    | error fault =>
      exact ⟨[], ahead, rfl, .nil, Or.inr ⟨_, c, tail, fault, hsplit.symm, hgap, hc, hf⟩⟩
    | ok cut =>
      obtain ⟨kind, length⟩ := cut
      obtain ⟨lexeme, after, he, -, hl, hm⟩ := Token.exists_lexeme_of_front hf
      -- the induction is on what lies ahead, and a lexeme is never empty
      have hshort : after.length < ahead.length := by
        have hpos := List.length_pos_iff.mpr (Token.lexeme_ne_nil hl)
        have hlen := congrArg List.length hsplit
        rw [he, List.length_append, List.length_append] at hlen
        omega
      obtain ⟨pieces, rest, rfl, hcut, hrest⟩ :=
        exists_of_text (passed ++ ahead.takeWhile Text.isBlank ++ lexeme) after
      refine ⟨(ahead.takeWhile Text.isBlank, ⟨kind, lexeme, _, _⟩) :: pieces, rest, ?_,
        .cons hgap hl hm ⟨rfl, rfl⟩ hcut, hrest⟩
      rw [spread, ← he, hsplit]
termination_by ahead.length

end Cut

/-- A spacing of a source: its tokens with the gap in front of each, and the blanks behind. -/
structure Spacing (source : Text) (pieces : List (Text × Token)) (last : Text) : Prop where
  source_eq : source = spread pieces last
  cut : Cut [] pieces last
  blanks : Blanks last

namespace Spacing

variable {source last : Text} {pieces : List (Text × Token)}

theorem scan (h : Spacing source pieces last) : Token.scan source = .ok (pieces.map Prod.snd) := by
  rw [Token.scan, Scanner.ofText_eq_between, h.source_eq, Scanner.tokenize_cut h.cut,
    Scanner.tokenize_blanks _ h.blanks]
  rfl

theorem exists_of_scan {ts : List Token} (h : Token.scan source = .ok ts) :
    ∃ pieces last, Spacing source pieces last ∧ pieces.map Prod.snd = ts := by
  obtain ⟨pieces, rest, he, hcut, hrest | ⟨gap, c, tail, fault, hr, hgap, hc, hf⟩⟩ :=
    Cut.exists_of_text [] source
  · have hspacing : Spacing source pieces rest := ⟨he, hcut, hrest⟩
    refine ⟨pieces, rest, hspacing, ?_⟩
    exact Except.ok.inj (hspacing.scan.symm.trans h)
  · rw [Token.scan, Scanner.ofText_eq_between, he, Scanner.tokenize_cut hcut, hr,
      Scanner.tokenize_fault _ hgap hc hf] at h
    cases h

theorem unique (h : Spacing source pieces last) {pieces' : List (Text × Token)} {last' : Text}
    (h' : Spacing source pieces' last') : pieces = pieces' ∧ last = last' :=
  h.cut.unique h'.cut h.blanks h'.blanks (h.source_eq.symm.trans h'.source_eq)

theorem places (h : Spacing source pieces last) : ∀ t ∈ pieces.map Prod.snd,
    t.kind ≠ .endOfInput ∧ ∃ before lead c after, source = before ++ (lead ++ c :: after) ∧
      t.lexeme = lead ++ [c] ∧ t.location? = some (Location.after before) ∧
      t.endLocation? = some (Location.after (before ++ lead)) := by
  intro t ht
  obtain ⟨⟨gap, t⟩, hp, rfl⟩ := List.mem_map.mp ht
  obtain ⟨lead, more, rfl⟩ := List.append_of_mem hp
  obtain ⟨hl, hb⟩ := h.cut.middle
  have he := List.dropLast_concat_getLast (Token.lexeme_ne_nil hl)
  refine ⟨Cut.kind_ne_endOfInput hl, spread lead gap, t.lexeme.dropLast, _, spread more last, ?_,
    he.symm, hb.location?, ?_⟩
  · rw [h.source_eq, spread_append, spread, append_spread, ← List.singleton_append,
      ← List.append_assoc t.lexeme.dropLast, he]
  · rw [(hb.sound hl).endLocation?, hb.endPlace hl he.symm]
    rfl

end Spacing

/-- A source scans to a list of tokens exactly if it has a spacing with these tokens; the spacing
is the only one, and the tokens stand where they say. -/
theorem scan_eq_ok_iff_spacing (source : Text) (ts : List Token) :
    (Token.scan source = .ok ts ↔
      ∃ pieces last, Spacing source pieces last ∧ pieces.map Prod.snd = ts) ∧
    (∀ pieces last pieces' last', Spacing source pieces last → Spacing source pieces' last' →
      pieces = pieces' ∧ last = last') ∧
    (Token.scan source = .ok ts → ∀ t ∈ ts, t.kind ≠ .endOfInput ∧
      ∃ before lead c after, source = before ++ (lead ++ c :: after) ∧ t.lexeme = lead ++ [c] ∧
        t.location? = some (Location.after before) ∧
        t.endLocation? = some (Location.after (before ++ lead))) := by
  refine ⟨⟨Spacing.exists_of_scan, ?_⟩, ?_, ?_⟩
  · intro ⟨pieces, last, h, hts⟩
    rw [h.scan, hts]
  · intro pieces last pieces' last' h h'
    exact h.unique h'
  · intro h
    obtain ⟨pieces, last, hspacing, rfl⟩ := Spacing.exists_of_scan h
    exact hspacing.places

theorem scan_two_lines :
    ∃ pieces last, Spacing "x1 =\n 2.5e3 ".toList pieces last ∧
      (∀ pieces' last', Spacing "x1 =\n 2.5e3 ".toList pieces' last' →
        pieces = pieces' ∧ last = last') ∧
      pieces.map Prod.snd = [⟨.identifier, "x1".toList, 0, 0⟩, ⟨.assign, "=".toList, 0, 3⟩,
        ⟨.number, "2.5e3".toList, 1, 1⟩] ∧
      ∃ before lead c after, "x1 =\n 2.5e3 ".toList = before ++ (lead ++ c :: after) ∧
        "2.5e3".toList = lead ++ [c] ∧ some ⟨1, 1⟩ = some (Location.after before) ∧
        some ⟨1, 5⟩ = some (Location.after (before ++ lead)) := by
  have hscan : Token.scan "x1 =\n 2.5e3 ".toList = .ok [⟨.identifier, "x1".toList, 0, 0⟩,
      ⟨.assign, "=".toList, 0, 3⟩, ⟨.number, "2.5e3".toList, 1, 1⟩] := by cbv
  obtain ⟨hiff, hunique, hplaces⟩ := scan_eq_ok_iff_spacing "x1 =\n 2.5e3 ".toList
    [⟨.identifier, "x1".toList, 0, 0⟩, ⟨.assign, "=".toList, 0, 3⟩, ⟨.number, "2.5e3".toList, 1, 1⟩]
  obtain ⟨pieces, last, hspacing, hts⟩ := hiff.mp hscan
  refine ⟨pieces, last, hspacing, fun pieces' last' h' => ?_, hts, ?_⟩
  · exact hunique pieces last pieces' last' hspacing h'
  · exact (hplaces hscan ⟨.number, "2.5e3".toList, 1, 1⟩ (by simp)).2

/-- Tokens cut off a source can be parsed. -/
theorem Token.sound_of_scan {source : Text} {ts : List Token} (h : Token.scan source = .ok ts) :
    ∀ t ∈ ts, t.Sound := by
  obtain ⟨pieces, last, hspacing, rfl⟩ := Spacing.exists_of_scan h
  intro t ht
  obtain ⟨⟨gap, t⟩, hp, rfl⟩ := List.mem_map.mp ht
  obtain ⟨lead, more, rfl⟩ := List.append_of_mem hp
  obtain ⟨hl, hb⟩ := hspacing.cut.middle
  exact hb.sound hl

end Calculator
