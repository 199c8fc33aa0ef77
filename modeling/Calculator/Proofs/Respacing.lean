import Calculator.Proofs.Separation
import Calculator.Proofs.Unplaced

/-! Tokens up to the places where they stand. What is said in some words can be said at other
places: a derivation moves to other tokens with the same words, and a row of words with blanks
between them, each word maximal, is cut into tokens with these words. -/

set_option autoImplicit false

namespace Calculator

/-- What a token says, wherever it stands. -/
def Token.word (t : Token) : TokenKind × Text := (t.kind, t.lexeme)

section Word
variable {t u : Token}

theorem Token.kind_of_word (h : u.word = t.word) : u.kind = t.kind := congrArg Prod.fst h

theorem Token.lexeme_of_word (h : u.word = t.word) : u.lexeme = t.lexeme := congrArg Prod.snd h

theorem Token.value_of_word (h : u.word = t.word) : u.value = t.value := by
  rw [value, value, lexeme_of_word h]

end Word

/-- A derivation moves to other tokens with the same words. -/
theorem Phrase.exists_of_words {level : Level} (p : Phrase level) {ts : List Token}
    (h : ts.map Token.word = p.tokens.map Token.word) :
    ∃ q : Phrase level, q.tokens = ts ∧ q.depth = p.depth ∧ q.tree.unplaced = p.tree.unplaced := by
  induction p generalizing ts with
  | number t ht =>
    obtain ⟨u, us, rfl, hu, hus⟩ := List.map_eq_cons_iff.mp h
    obtain rfl := List.map_eq_nil_iff.mp hus
    refine ⟨.number u ((Token.kind_of_word hu).trans ht), rfl, rfl, ?_⟩
    simp only [tree, Tree.unplaced, Token.value_of_word hu]
  | identifier t ht =>
    obtain ⟨u, us, rfl, hu, hus⟩ := List.map_eq_cons_iff.mp h
    obtain rfl := List.map_eq_nil_iff.mp hus
    refine ⟨.identifier u ((Token.kind_of_word hu).trans ht), rfl, rfl, ?_⟩
    simp only [tree, Tree.unplaced, Token.lexeme_of_word hu]
  | enclosed opening inner closing ho hc ih =>
    obtain ⟨u, us, rfl, hu, hus⟩ := List.map_eq_cons_iff.mp h
    rw [List.map_append] at hus
    obtain ⟨vs, ws, rfl, hvs, hws⟩ := List.map_eq_append_iff.mp hus
    obtain ⟨w, rest, rfl, hw, hrest⟩ := List.map_eq_cons_iff.mp hws
    obtain rfl := List.map_eq_nil_iff.mp hrest
    obtain ⟨q, rfl, hdepth, htree⟩ := ih hvs
    refine ⟨.enclosed u q w ((Token.kind_of_word hu).trans ho) ((Token.kind_of_word hw).trans hc),
      rfl, ?_, htree⟩
    rw [depth, depth, hdepth]
  | one operand ih =>
    obtain ⟨q, hq⟩ := ih h
    exact ⟨.one q, hq⟩
  | @two tier left sign right op isSign ihl ihr =>
    rw [tokens, List.map_append] at h
    obtain ⟨us, vs, rfl, hus, hvs⟩ := List.map_eq_append_iff.mp h
    obtain ⟨v, ws, rfl, hv, hws⟩ := List.map_eq_cons_iff.mp hvs
    obtain ⟨p, rfl, hdepth, htree⟩ := ihl hus
    obtain ⟨q, rfl, hdepth', htree'⟩ := ihr hws
    have hsign : tier.table v.kind = some op := by
      rw [Token.kind_of_word hv]
      exact isSign
    refine ⟨.two p v q op hsign, rfl, ?_, ?_⟩
    · rw [depth, depth, hdepth, hdepth']
    · simp only [tree, Tree.unplaced, htree, htree']

theorem Sentence.exists_of_words (s : Sentence) {ts : List Token}
    (h : ts.map Token.word = s.tokens.map Token.word) :
    ∃ r : Sentence, r.tokens = ts ∧ r.depth = s.depth ∧ r.tree.unplaced = s.tree.unplaced := by
  cases s with
  | assignment target equals right ht he =>
    obtain ⟨u, us, rfl, hu, hus⟩ := List.map_eq_cons_iff.mp h
    obtain ⟨v, vs, rfl, hv, hvs⟩ := List.map_eq_cons_iff.mp hus
    obtain ⟨q, rfl, hdepth, htree⟩ := right.exists_of_words hvs
    refine ⟨.assignment u v q ((Token.kind_of_word hu).trans ht) ((Token.kind_of_word hv).trans he),
      rfl, hdepth, ?_⟩
    simp only [tree, Tree.unplaced, Token.lexeme_of_word hu, htree]
  | comparison phrase =>
    obtain ⟨q, hq⟩ := phrase.exists_of_words h
    exact ⟨.comparison q, hq⟩

/-- A row of maximal lexemes with blanks between them, wherever its tokens stand. -/
def Spaced : List (Text × Token) → Text → Prop
  | [], _ => True
  | (gap, t) :: pieces, rest => Blanks gap ∧ t.kind.Lexeme t.lexeme ∧
      t.kind.Maximal t.lexeme (spread pieces rest) ∧ Spaced pieces rest

theorem spaced_append {pieces more : List (Text × Token)} {rest : Text} :
    Spaced (pieces ++ more) rest ↔ Spaced pieces (spread more rest) ∧ Spaced more rest := by
  induction pieces with
  | nil => simp [Spaced]
  | cons piece pieces ih => simp only [List.cons_append, Spaced, spread_append, ih, and_assoc]

/-- The words of a row, with the gaps in front of them. -/
def wording (pieces : List (Text × Token)) : List (Text × TokenKind × Text) :=
  pieces.map fun piece => (piece.1, piece.2.word)

theorem spread_eq_of_wording {pieces pieces' : List (Text × Token)}
    (h : wording pieces = wording pieces') (rest : Text) :
    spread pieces rest = spread pieces' rest := by
  induction pieces generalizing pieces' with
  | nil =>
    obtain rfl := List.map_eq_nil_iff.mp h.symm
    rfl
  | cons piece pieces ih =>
    obtain ⟨piece', pieces', rfl, hpiece, hpieces⟩ := List.map_eq_cons_iff.mp h.symm
    obtain ⟨hgap, hword⟩ := Prod.mk.inj hpiece
    rw [spread, spread, hgap, Token.lexeme_of_word hword, ih hpieces.symm]

theorem map_word_of_wording {pieces pieces' : List (Text × Token)}
    (h : wording pieces = wording pieces') :
    (pieces.map Prod.snd).map Token.word = (pieces'.map Prod.snd).map Token.word := by
  have hsnd := congrArg (List.map Prod.snd) h
  rw [wording, wording, List.map_map, List.map_map] at hsnd
  rw [List.map_map, List.map_map]
  exact hsnd

/-- The words of a row are found where the row leads to. -/
theorem Spaced.exists_cut {pieces : List (Text × Token)} {rest : Text} (h : Spaced pieces rest)
    (passed : Text) : ∃ pieces', Cut passed pieces' rest ∧ wording pieces' = wording pieces := by
  induction pieces generalizing passed with
  | nil => exact ⟨[], .nil, rfl⟩
  | cons piece pieces ih =>
    obtain ⟨gap, t⟩ := piece
    obtain ⟨hgap, hl, hm, htail⟩ := h
    obtain ⟨pieces', hcut, hwords⟩ := ih htail (passed ++ gap ++ t.lexeme)
    rw [← spread_eq_of_wording hwords] at hm
    let moved : Token := ⟨t.kind, t.lexeme, (Location.after (passed ++ gap)).line,
      (Location.after (passed ++ gap)).column⟩
    have hbehind : moved.Behind (passed ++ gap) := ⟨rfl, rfl⟩
    refine ⟨(gap, moved) :: pieces', .cons hgap hl hm hbehind hcut, ?_⟩
    exact congrArg ((gap, t.word) :: ·) hwords

theorem Spaced.exists_spacing {pieces : List (Text × Token)} {last : Text} (h : Spaced pieces last)
    (hlast : Blanks last) : ∃ pieces', Spacing (spread pieces last) pieces' last ∧
      (pieces'.map Prod.snd).map Token.word = (pieces.map Prod.snd).map Token.word := by
  obtain ⟨pieces', hcut, hwords⟩ := h.exists_cut []
  exact ⟨pieces', ⟨(spread_eq_of_wording hwords last).symm, hcut, hlast⟩,
    map_word_of_wording hwords⟩

theorem blanks_nil : Blanks [] := List.forall_mem_nil _

theorem blanks_space : Blanks [' '] := List.forall_mem_singleton.mpr rfl

/-- A text in front of which every lexeme ends. -/
def Loose (rest : Text) : Prop := ∀ (kind : TokenKind) (lexeme : Text), kind.Maximal lexeme rest

theorem loose_nil : Loose [] := by
  intro kind lexeme c hc
  cases hc

theorem loose_cons {c : Char} (h : c.toNat < 43) (rest : Text) : Loose (c :: rest) := by
  intro kind lexeme d hd
  obtain rfl : c = d := by simpa using hd
  exact not_continues_of_toNat h kind lexeme

end Calculator
