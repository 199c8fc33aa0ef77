import Calculator.Proofs.Descent

/-! How parsers end. On tokens with places and readable numbers the parser of a level finds a
phrase, or refuses a token, or runs out of tokens. Up to the refused token, and up to the end, the
tokens could have been continued to a phrase; a refusal does not depend on what follows. -/

set_option autoImplicit false

namespace Calculator

open Cursor (between)
open Calculator.Parser

/-- The errors that blame a token. -/
inductive Token.Blamed (t : Token) : GrammarError → Prop
  | unexpected : Blamed t (.unexpectedToken t.lexeme t.place)
  | unclosed : Blamed t (.expectedClose t.lexeme t.place)

/-- The errors at the end of the tokens, which stands at a place. -/
inductive Location.Missed (l : Location) : GrammarError → Prop
  | operand : Missed l (.unexpectedEnd l)
  | unclosed : Missed l (.expectedClose endOfLine l)

/-- A parser gives up at a token, whatever follows it, and not before it has to. -/
structure Refuses (language : List Token → Prop) (parser : Parser Tree) (before : List Token)
    (t : Token) (e : GrammarError) : Prop where
  viable : ∃ more, (∀ x ∈ more, x.Sound) ∧ language (before ++ more)
  blamed : t.Blamed e
  error : ∀ passed after d, ∃ d', parser (between passed (before ++ t :: after) d) =
    .error (.grammar e) (between (passed ++ before) (t :: after) d')

/-- A parser gives up at the end of the tokens, where more were needed. -/
structure Exhausts (language : List Token → Prop) (parser : Parser Tree) (ts : List Token) :
    Prop where
  viable : ∃ more, more ≠ [] ∧ (∀ x ∈ more, x.Sound) ∧ language (ts ++ more)
  error : ∀ passed d, (∀ x ∈ passed, x.Sound) → ∃ e d', (lastPlace (passed ++ ts)).Missed e ∧
    parser (between passed ts d) = .error (.grammar e) (between (passed ++ ts) [] d')

/-- Behind the tokens of `lead`, one parser fails on `ts` as another does. -/
def FailsAs (outer parser : Parser Tree) (lead ts : List Token) : Prop :=
  ∀ passed d, ∃ d', ∀ e c, parser (between (passed ++ lead) ts d') = .error e c →
    outer (between passed (lead ++ ts) d) = .error e c

section Within
variable {language wide : List Token → Prop} {parser outer : Parser Tree}
variable {lead tail : List Token}

/-- A refusal inside a larger rule is a refusal of that rule. -/
theorem Refuses.within {before : List Token} {t : Token} {e : GrammarError}
    (h : Refuses language parser before t e)
    (hl : ∀ w, language w → wide (lead ++ w ++ tail)) (ht : ∀ x ∈ tail, x.Sound)
    (hf : ∀ after, FailsAs outer parser lead (before ++ t :: after)) :
    Refuses wide outer (lead ++ before) t e := by
  obtain ⟨⟨more, hm, hw⟩, he, hrun⟩ := h
  refine ⟨⟨more ++ tail, ?_, ?_⟩, he, ?_⟩
  · exact List.forall_mem_append.mpr ⟨hm, ht⟩
  · simpa using hl _ hw
  · intro passed after d
    obtain ⟨d', hd'⟩ := hf after passed d
    obtain ⟨d'', hd''⟩ := hrun (passed ++ lead) after d'
    exact ⟨d'', by simpa using hd' _ _ hd''⟩

theorem Exhausts.within {ts : List Token} (h : Exhausts language parser ts)
    (hl : ∀ w, language w → wide (lead ++ w ++ tail)) (ht : ∀ x ∈ tail, x.Sound)
    (hlead : ∀ x ∈ lead, x.Sound) (hf : FailsAs outer parser lead ts) :
    Exhausts wide outer (lead ++ ts) := by
  obtain ⟨⟨more, hne, hm, hw⟩, hrun⟩ := h
  refine ⟨⟨more ++ tail, by simp [hne], ?_, ?_⟩, ?_⟩
  · exact List.forall_mem_append.mpr ⟨hm, ht⟩
  · simpa using hl _ hw
  · intro passed d hp
    obtain ⟨d', hd'⟩ := hf passed d
    obtain ⟨e, d'', he, hd''⟩ := hrun (passed ++ lead) d' (List.forall_mem_append.mpr ⟨hp, hlead⟩)
    exact ⟨e, d'', by simpa using he, by simpa using hd' _ _ hd''⟩

/-- A rule around another: `lead` comes before, and `tail` may come behind. -/
structure Around (language wide : List Token → Prop) (parser outer : Parser Tree)
    (lead tail : List Token) : Prop where
  derives : ∀ w, language w → wide (lead ++ w ++ tail)
  sound : ∀ x ∈ tail, x.Sound
  fails : ∀ ts, FailsAs outer parser lead ts

theorem Around.refuses (a : Around language wide parser outer lead tail) {before : List Token}
    {t : Token} {e : GrammarError} (h : Refuses language parser before t e) :
    Refuses wide outer (lead ++ before) t e :=
  h.within a.derives a.sound fun _ => a.fails _

theorem Around.exhausts (a : Around language wide parser outer lead tail) {ts : List Token}
    (hlead : ∀ x ∈ lead, x.Sound) (h : Exhausts language parser ts) :
    Exhausts wide outer (lead ++ ts) :=
  h.within a.derives a.sound hlead (a.fails ts)

end Within

/-- The lists of tokens that a level derives with parentheses nested at most `room` deep. -/
def Derivable (level : Level) (room : Nat) (ts : List Token) : Prop :=
  ∃ p : Phrase level, p.depth ≤ room ∧ p.tokens = ts

/-- The three ways in which the parser of a level ends. -/
inductive Verdict (level : Level) (room : Nat) : List Token → Prop
  | complete (p : Phrase level) (rest : List Token) (hd : p.depth ≤ room) (hs : p.StopsAt rest) :
      Verdict level room (p.tokens ++ rest)
  | refused (before : List Token) (t : Token) (after : List Token) (e : GrammarError)
      (h : Refuses (Derivable level room) (level.parser room) before t e) :
      Verdict level room (before ++ t :: after)
  | exhausted (ts : List Token) (h : Exhausts (Derivable level room) (level.parser room) ts) :
      Verdict level room ts

namespace Verdict

def operandToken : Token := ⟨.number, ['0'], 0, 0⟩

def closingToken : Token := ⟨.rightParen, [')'], 0, 0⟩

theorem operandToken_sound : operandToken.Sound := ⟨by decide, by decide, fun _ => by rfl⟩

theorem closingToken_sound : closingToken.Sound := ⟨by decide, by decide, fun h => by cases h⟩

variable {room : Nat}

theorem derivable_operand : Derivable .factor room [operandToken] :=
  ⟨.number operandToken rfl, Nat.zero_le _, rfl⟩

theorem around_enclosed {opening : Token} (ho : opening.kind = .leftParen) :
    Around (Derivable (.tier .comparison) room) (Derivable .factor (room + 1))
      (Level.parser room (.tier .comparison)) (Level.parser (room + 1) .factor)
      [opening] [closingToken] := by
  refine ⟨?_, by simpa using closingToken_sound, ?_⟩
  · intro w h
    obtain ⟨p, hd, rfl⟩ := h
    exact ⟨.enclosed opening p closingToken ho rfl, Nat.succ_le_succ hd, rfl⟩
  · intro ts passed d
    refine ⟨d + 1, fun e c he => ?_⟩
    rw [Level.parser_factor_succ]
    exact (factorWith_leftParen ho).trans (enclosed_inner_error he)

theorem around_left (tier : Tier) :
    Around (Derivable tier.below room) (Derivable (.tier tier) room)
      (Level.parser room tier.below) (Level.parser room (.tier tier)) [] [] := by
  refine ⟨?_, by simp, ?_⟩
  · intro w h
    obtain ⟨p, hd, rfl⟩ := h
    exact ⟨.one p, hd, by simp [Phrase.tokens]⟩
  · intro ts passed d
    refine ⟨d, fun e c he => ?_⟩
    rw [Level.parser_tier]
    exact binary_left_error (by simpa using he)

theorem around_right {tier : Tier} {left : Phrase tier.below} (hd : left.depth ≤ room)
    (hl : ∀ t ∈ left.tokens, t.Sound) {sign : Token} {op : Operator}
    (hop : tier.table sign.kind = some op) :
    Around (Derivable tier.below room) (Derivable (.tier tier) room)
      (Level.parser room tier.below) (Level.parser room (.tier tier)) (left.tokens ++ [sign]) [] := by
  refine ⟨?_, by simp, ?_⟩
  · intro w h
    obtain ⟨right, hd', rfl⟩ := h
    exact ⟨.two left sign right op hop, Nat.max_le.mpr ⟨hd, hd'⟩, by simp [Phrase.tokens]⟩
  · intro ts passed d
    refine ⟨d, fun e c he => ?_⟩
    have hrun := left.run_level hd hl (left.stopsAt_sign hop ts) passed d
    rw [Level.parser_tier]
    simp only [List.append_assoc, List.singleton_append]
    exact binary_right_error hrun hop (by simpa using he)

theorem refuses_factor {t : Token} {e : GrammarError} (he : t.Blamed e)
    (h : ∀ passed after d, Level.parser room .factor (between passed (t :: after) d) =
      .error (.grammar e) (between passed (t :: after) d)) :
    Refuses (Derivable .factor room) (Level.parser room .factor) [] t e := by
  refine ⟨⟨[operandToken], ?_, derivable_operand⟩, he, ?_⟩
  · simpa using operandToken_sound
  · intro passed after d
    exact ⟨d, by simpa using h passed after d⟩

/-- No parenthesis may open where there is no room for it. -/
theorem refuses_leftParen {t : Token} (hs : t.Sound) (ht : t.kind = .leftParen) :
    Refuses (Derivable .factor 0) (Level.parser 0 .factor) [] t
      (.unexpectedToken t.lexeme t.place) :=
  refuses_factor .unexpected fun _ _ _ => factorWith_none_leftParen hs ht

theorem factor_nil : Verdict .factor room [] := by
  refine .exhausted [] ⟨⟨[operandToken], by simp, ?_, derivable_operand⟩, ?_⟩
  · simpa using operandToken_sound
  · intro passed d hp
    obtain ⟨inner?, he⟩ := Level.parser_factor room
    refine ⟨_, d, .operand, ?_⟩
    rw [he]
    simpa using factorWith_nil inner? hp

theorem factor_enclosed {opening : Token} (hs : opening.Sound) (ho : opening.kind = .leftParen)
    {ts : List Token} (hts : ∀ t ∈ ts, t.Sound) (h : Verdict (.tier .comparison) room ts) :
    Verdict .factor (room + 1) (opening :: ts) := by
  have around := @around_enclosed room opening ho
  cases h with
  | refused before t after e h => exact .refused _ t after e (around.refuses h)
  | exhausted _ h => exact .exhausted _ (around.exhausts (by simpa using hs) h)
  | complete p rest hd hstop =>
    have hp : ∀ t ∈ p.tokens, t.Sound := fun t ht => hts t (by simp [ht])
    have hrun {rest : List Token} (hstop : p.StopsAt rest) (passed : List Token) (d : Nat) :
        Level.parser room (.tier .comparison) (between (passed ++ [opening]) (p.tokens ++ rest) (d + 1)) =
          .ok p.tree (between (passed ++ [opening] ++ p.tokens) rest (d + 1)) :=
      p.run_level hd hp hstop (passed ++ [opening]) (d + 1)
    cases rest with
    | nil =>
      refine .exhausted _ ⟨⟨[closingToken], by simp, around.sound, ?_⟩, ?_⟩
      · simpa using around.derives _ ⟨p, hd, rfl⟩
      · intro passed d hpassed
        have hall : ∀ x ∈ passed ++ [opening] ++ p.tokens, x.Sound := by
          simpa only [List.forall_mem_append, List.forall_mem_singleton] using ⟨⟨hpassed, hs⟩, hp⟩
        refine ⟨_, d + 1, .unclosed, ?_⟩
        rw [Level.parser_factor_succ, factorWith_leftParen ho,
          enclosed_close_error (hrun hstop passed d) (close_nil hall)]
        simp
    | cons t after =>
      by_cases ht : t.kind = .rightParen
      · have := Verdict.complete (.enclosed opening p t ho ht) after (Nat.succ_le_succ hd) trivial
        simpa [Phrase.tokens] using this
      · have hsound : t.Sound := hts t (by simp)
        have hviable := around.derives _ ⟨p, hd, rfl⟩
        refine .refused (opening :: p.tokens) t after _
          ⟨⟨[closingToken], around.sound, by simpa using hviable⟩, .unclosed, ?_⟩
        intro passed after' d
        refine ⟨d + 1, ?_⟩
        have hstop' : p.StopsAt (t :: after') := p.stopsAt_head hstop
        rw [Level.parser_factor_succ]
        simp only [List.cons_append]
        rw [factorWith_leftParen ho,
          enclosed_close_error (hrun hstop' passed d) (close_refused hsound ht)]
        simp

theorem of_factor {ts : List Token} (hts : ∀ t ∈ ts, t.Sound)
    (hopen : ∀ t rest, ts = t :: rest → t.kind = .leftParen → Verdict .factor room ts) :
    Verdict .factor room ts := by
  cases ts with
  | nil => exact factor_nil
  | cons t rest =>
    by_cases hn : t.kind = .number
    · exact .complete (.number t hn) rest (Nat.zero_le _) trivial
    by_cases hi : t.kind = .identifier
    · exact .complete (.identifier t hi) rest (Nat.zero_le _) trivial
    by_cases hp : t.kind = .leftParen
    · exact hopen t rest rfl hp
    obtain ⟨inner?, he⟩ := Level.parser_factor room
    refine .refused [] t rest _ (refuses_factor .unexpected fun passed after d => ?_)
    rw [he]
    exact factorWith_other inner? (hts t List.mem_cons_self) hn hi hp

theorem exists_operator {table : TokenKind → Option Operator} {ts : List Token}
    (h : ¬ ∀ t ∈ ts.head?, table t.kind = none) :
    ∃ t rest op, ts = t :: rest ∧ table t.kind = some op := by
  cases ts with
  | nil => simp at h
  | cons t rest =>
    obtain ⟨op, hop⟩ := Option.ne_none_iff_exists'.mp (by simpa using h)
    exact ⟨t, rest, op, rfl, hop⟩

theorem of_below (tier : Tier) (below : ∀ ts, (∀ t ∈ ts, t.Sound) → Verdict tier.below room ts)
    {ts : List Token} (hts : ∀ t ∈ ts, t.Sound) : Verdict (.tier tier) room ts := by
  cases below ts hts with
  | refused before t after e h => exact .refused before t after e ((around_left tier).refuses h)
  | exhausted _ h => exact .exhausted ts ((around_left tier).exhausts (by simp) h)
  | complete left rest hd hstop =>
    by_cases hn : ∀ t ∈ rest.head?, tier.table t.kind = none
    · exact .complete (.one left) rest hd ⟨hstop, hn⟩
    obtain ⟨sign, ahead, op, rfl, hop⟩ := exists_operator hn
    obtain ⟨hl, hsign, hahead⟩ : (∀ x ∈ left.tokens, x.Sound) ∧ sign.Sound ∧ ∀ x ∈ ahead, x.Sound := by
      simpa only [List.forall_mem_append, List.forall_mem_cons] using hts
    have hlead : ∀ x ∈ left.tokens ++ [sign], x.Sound := by
      simpa only [List.forall_mem_append, List.forall_mem_singleton] using ⟨hl, hsign⟩
    have around := around_right hd hl hop
    cases below ahead hahead with
    | complete right rest' hd' hstop' =>
      have h := Verdict.complete (.two left sign right op hop) rest' (Nat.max_le.mpr ⟨hd, hd'⟩) hstop'
      simpa [Phrase.tokens] using h
    | refused before t after e h =>
      have h := Verdict.refused _ t after e (around.refuses h)
      simpa using h
    | exhausted _ h =>
      have h := Verdict.exhausted _ (around.exhausts hlead h)
      simpa using h

/-- Every list of sound tokens has a verdict at every level, whatever room is left. -/
theorem of_sound (level : Level) {ts : List Token} (hts : ∀ t ∈ ts, t.Sound) :
    Verdict level room ts := by
  -- the levels above factors follow from factors; those need comparisons with less room
  have lift (room : Nat) (hf : ∀ ts, (∀ t ∈ ts, t.Sound) → Verdict .factor room ts) (level : Level)
      {ts : List Token} (hts : ∀ t ∈ ts, t.Sound) : Verdict level room ts := by
    have hp : ∀ ts, (∀ t ∈ ts, t.Sound) → Verdict (.tier .product) room ts := fun _ => of_below .product hf
    have hs : ∀ ts, (∀ t ∈ ts, t.Sound) → Verdict (.tier .sum) room ts := fun _ => of_below .sum hp
    match level with
    | .factor => exact hf ts hts
    | .tier .product => exact hp ts hts
    | .tier .sum => exact hs ts hts
    | .tier .comparison => exact of_below .comparison hs hts
  refine lift room ?_ level hts
  induction room with
  | zero =>
    intro ts hts
    refine of_factor hts ?_
    rintro t rest rfl ht
    exact .refused [] t rest _ (refuses_leftParen (hts t List.mem_cons_self) ht)
  | succ room ih =>
    intro ts hts
    refine of_factor hts ?_
    rintro t rest rfl ht
    have hrest : ∀ x ∈ rest, x.Sound := fun x hx => hts x (List.mem_cons_of_mem t hx)
    exact factor_enclosed (hts t List.mem_cons_self) ht hrest (lift room ih _ hrest)

end Verdict

end Calculator
