import Calculator.Proofs.Acceptance

/-! Errors of the parser are found as early as can be. What comes before the refused token could
have been continued to a statement, and nothing that starts with it and the token is one. This
holds of the limit on nesting too: the first parenthesis that opens too deep is refused. -/

set_option autoImplicit false

namespace Calculator

open Cursor (between)
open Calculator.Parser

/-- The number of parentheses open behind some tokens, `n` of them open before, as long as it
does not exceed the room. -/
def openWithin (room : Nat) : Nat → List Token → Option Nat
  | n, [] => some n
  | n, t :: ts =>
    match t.kind with
    | .leftParen => if n < room then openWithin room (n + 1) ts else none
    | .rightParen => openWithin room (n - 1) ts
    | _ => openWithin room n ts

section OpenWithin
variable {room n : Nat} {t : Token}

theorem openWithin_append (ts us : List Token) :
    openWithin room n (ts ++ us) = (openWithin room n ts).bind fun m => openWithin room m us := by
  induction ts generalizing n with
  | nil => rfl
  | cons t ts ih =>
    simp only [List.cons_append, openWithin]
    split
    · split
      · exact ih
      · rfl
    · exact ih
    · exact ih

theorem openWithin_leftParen (h : t.kind = .leftParen) (hn : n < room) (ts : List Token) :
    openWithin room n (t :: ts) = openWithin room (n + 1) ts := by
  simp [openWithin, h, hn]

theorem openWithin_other (hl : t.kind ≠ .leftParen) (hr : t.kind ≠ .rightParen) (ts : List Token) :
    openWithin room n (t :: ts) = openWithin room n ts := by
  rw [openWithin]
  split
  · rename_i h
    exact absurd h hl
  · rename_i h
    exact absurd h hr
  · rfl

theorem openWithin_sign {tier : Tier} {op : Operator} (h : tier.table t.kind = some op)
    (ts : List Token) : openWithin room n (t :: ts) = openWithin room n ts := by
  apply openWithin_other
  · intro hk
    rw [hk] at h
    cases tier <;> cases h
  · intro hk
    rw [hk] at h
    cases tier <;> cases h

/-- A phrase closes what it opens, and opens as many as it is deep. -/
theorem openWithin_phrase {level : Level} (p : Phrase level) (h : n + p.depth ≤ room) :
    openWithin room n p.tokens = some n := by
  induction p generalizing n with
  | number t ht => exact openWithin_other (by simp [ht]) (by simp [ht]) []
  | identifier t ht => exact openWithin_other (by simp [ht]) (by simp [ht]) []
  | enclosed opening inner closing ho hc ih =>
    have hin : n + 1 + inner.depth ≤ room := by
      rw [Phrase.depth] at h
      omega
    rw [Phrase.tokens, openWithin_leftParen ho (by omega), openWithin_append, ih hin]
    simp [openWithin, hc]
  | one operand ih => exact ih h
  | two left sign right op isSign ihl ihr =>
    rw [Phrase.depth] at h
    rw [Phrase.tokens, openWithin_append, ihl (by omega), Option.bind_some, openWithin_sign isSign,
      ihr (by omega)]

theorem Phrase.depth_le_of_openWithin {level : Level} (p : Phrase level) (hn : n ≤ room)
    (h : (openWithin room n p.tokens).isSome) : n + p.depth ≤ room := by
  induction p generalizing n with
  | number | identifier => exact hn
  | enclosed opening inner closing ho hc ih =>
    by_cases hlt : n < room
    · rw [tokens, openWithin_leftParen ho hlt, openWithin_append] at h
      have hinner := ih hlt (Option.isSome_of_isSome_bind h)
      rw [depth]
      omega
    · simp [tokens, openWithin, ho, hlt] at h
  | one operand ih => exact ih hn h
  | two left sign right op isSign ihl ihr =>
    rw [tokens, openWithin_append] at h
    have hleft := ihl hn (Option.isSome_of_isSome_bind h)
    rw [openWithin_phrase left hleft, Option.bind_some, openWithin_sign isSign] at h
    have hright := ihr hn h
    rw [depth]
    omega

end OpenWithin

/-- A phrase that is too deep is refused where it opens a parenthesis for which there is no room. -/
theorem Phrase.refuses_deep {level : Level} (p : Phrase level) {room : Nat} (h : room < p.depth)
    (hs : ∀ t ∈ p.tokens, t.Sound) : ∃ before t after, p.tokens = before ++ t :: after ∧
      t.kind = .leftParen ∧ (∀ n, openWithin (n + room) n before = some (n + room)) ∧
      Refuses (Derivable level room) (level.parser room) before t
        (.unexpectedToken t.lexeme t.place) := by
  -- inside parentheses one place less is left, but one more is open
  induction p generalizing room with
  | number => cases h
  | identifier => cases h
  | enclosed opening inner closing ho hc ih =>
    obtain ⟨hopening, hinner, -⟩ :
        opening.Sound ∧ (∀ t ∈ inner.tokens, t.Sound) ∧ ∀ t ∈ [closing], t.Sound := by
      simpa only [tokens, List.forall_mem_cons, List.forall_mem_append] using hs
    cases room with
    | zero =>
      exact ⟨[], opening, inner.tokens ++ [closing], rfl, ho, fun n => rfl,
        Verdict.refuses_leftParen hopening ho⟩
    | succ room =>
      obtain ⟨before, t, after, he, ht, hopen, href⟩ := ih (Nat.lt_of_succ_lt_succ h) hinner
      refine ⟨opening :: before, t, after ++ [closing], ?_, ht, fun n => ?_, ?_⟩
      · simp [tokens, he]
      · have hn := hopen (n + 1)
        rw [Nat.add_right_comm] at hn
        rw [openWithin_leftParen ho (by omega)]
        exact hn
      · exact (Verdict.around_enclosed ho).refuses href
  | @one tier operand ih =>
    obtain ⟨before, t, after, he, ht, hopen, href⟩ := ih h hs
    exact ⟨before, t, after, he, ht, hopen, (Verdict.around_left tier).refuses href⟩
  | @two tier left sign right op isSign ihl ihr =>
    obtain ⟨hl, -, hr⟩ : (∀ t ∈ left.tokens, t.Sound) ∧ sign.Sound ∧ ∀ t ∈ right.tokens, t.Sound := by
      simpa only [tokens, List.forall_mem_cons, List.forall_mem_append] using hs
    by_cases hleft : room < left.depth
    · obtain ⟨before, t, after, he, ht, hopen, href⟩ := ihl hleft hl
      refine ⟨before, t, after ++ sign :: right.tokens, ?_, ht, hopen,
        (Verdict.around_left tier).refuses href⟩
      simp [tokens, he]
    · have hright : room < right.depth := by
        rw [depth] at h
        omega
      obtain ⟨before, t, after, he, ht, hopen, href⟩ := ihr hright hr
      refine ⟨left.tokens ++ [sign] ++ before, t, after, ?_, ht, fun n => ?_, ?_⟩
      · simp [tokens, he]
      · rw [List.append_assoc, List.singleton_append, openWithin_append,
          openWithin_phrase left (by omega), Option.bind_some, openWithin_sign isSign]
        exact hopen n
      · exact (Verdict.around_right (by omega) hl isSign).refuses href

theorem Sentence.refuses_deep (s : Sentence) (h : maxDepth < s.depth)
    (hs : ∀ t ∈ s.tokens, t.Sound) : ∃ before t after, s.tokens = before ++ t :: after ∧
      t.kind = .leftParen ∧ openWithin maxDepth 0 before = some maxDepth ∧
      Refuses Spoken wholeParser before t (.unexpectedToken t.lexeme t.place) := by
  cases s with
  | assignment target equals right ht he =>
    have hright : ∀ t ∈ right.tokens, t.Sound := fun t hm =>
      hs t (List.mem_cons_of_mem _ (List.mem_cons_of_mem _ hm))
    obtain ⟨before, t, after, hsplit, hk, hopen, href⟩ := right.refuses_deep h hright
    refine ⟨[target, equals] ++ before, t, after, ?_, hk, ?_,
      (Judgement.around_assignment ht he).refuses href⟩
    · simp [tokens, hsplit]
    · have hzero := hopen 0
      rw [Nat.zero_add] at hzero
      rw [List.cons_append, openWithin_other (by simp [ht]) (by simp [ht]), List.singleton_append,
        openWithin_other (by simp [he]) (by simp [he])]
      exact hzero
  | comparison phrase =>
    obtain ⟨before, t, after, hsplit, hk, hopen, href⟩ := phrase.refuses_deep h hs
    have ha : ¬ Assigns (before ++ t :: after) := hsplit ▸ phrase.not_assigns
    have ht : t.Sound := hs t (by simp [tokens, hsplit])
    refine ⟨before, t, after, hsplit, hk, ?_, Judgement.refuses_comparison ht ha href⟩
    have hzero := hopen 0
    rw [Nat.zero_add] at hzero
    exact hzero

/-- Parentheses nest to any depth in the grammar. -/
theorem Phrase.exists_of_depth (n : Nat) :
    ∃ p : Phrase (.tier .comparison), p.depth = n ∧ ∀ t ∈ p.tokens, t.Sound := by
  induction n with
  | zero =>
    refine ⟨.ofFactor (.number Verdict.operandToken rfl), rfl, ?_⟩
    simpa [ofFactor, toComparison_tokens, tokens] using Verdict.operandToken_sound
  | succ n ih =>
    obtain ⟨p, hd, hp⟩ := ih
    have hopening : Token.Sound ⟨.leftParen, ['('], 0, 0⟩ := ⟨by decide, by decide, fun h => by cases h⟩
    refine ⟨.ofFactor (.enclosed ⟨.leftParen, ['('], 0, 0⟩ p Verdict.closingToken rfl rfl), ?_, ?_⟩
    · rw [ofFactor, toComparison_depth]
      exact congrArg Nat.succ hd
    · rw [ofFactor, toComparison_tokens]
      simp only [tokens, List.forall_mem_cons, List.forall_mem_append]
      exact ⟨hopening, hp, Verdict.closingToken_sound, by simp⟩

/-- What is spoken is accepted. -/
theorem ofTokens_of_spoken {ts : List Token} (hs : ∀ t ∈ ts, t.Sound) (h : Spoken ts) :
    ∃ tree, Tree.ofTokens ts = .ok tree := by
  obtain ⟨s, hd, rfl⟩ := h
  exact ⟨_, ofTokens_of_run (s.run_program hd hs)⟩

/-- The last token of a source ends at the last character that is no blank. -/
theorem Spacing.last_place {source last : Text} {pieces : List (Text × Token)}
    (h : Spacing source pieces last) (hne : pieces.map Prod.snd ≠ []) :
    ∃ t lead c, (pieces.map Prod.snd).getLast? = some t ∧ source = lead ++ c :: last ∧
      Text.isBlank c = false ∧ t.endLocation? = some (Location.after lead) ∧
      lastPlace (pieces.map Prod.snd) = Location.after lead := by
  have hpieces : pieces ≠ [] := by
    intro he
    exact hne (by rw [he]; rfl)
  obtain ⟨init, ⟨gap, t⟩, rfl⟩ : ∃ init piece, pieces = init ++ [piece] :=
    ⟨_, _, (List.dropLast_concat_getLast hpieces).symm⟩
  obtain ⟨hl, hb⟩ := h.cut.middle
  have hlex := List.dropLast_concat_getLast (Token.lexeme_ne_nil hl)
  have hend := hb.endPlace hl hlex.symm
  have hlast : ((init ++ [(gap, t)]).map Prod.snd).getLast? = some t := by simp
  refine ⟨t, spread init gap ++ t.lexeme.dropLast, t.lexeme.getLast (Token.lexeme_ne_nil hl), hlast,
    ?_, ?_, ?_, ?_⟩
  · rw [h.source_eq, spread_append, spread, spread, append_spread, List.append_assoc,
      ← List.singleton_append, ← List.append_assoc t.lexeme.dropLast, hlex]
  · exact Token.isBlank_of_lexeme hl _ (List.getLast_mem (Token.lexeme_ne_nil hl))
  · rw [(hb.sound hl).endLocation?, hend]
    rfl
  · rw [lastPlace, hlast, Option.map_some, hend]
    rfl

theorem Refuses.earliest {before : List Token} {t : Token} {e : GrammarError}
    (h : Refuses Spoken wholeParser before t e) (hs : ∀ x ∈ before, x.Sound) :
    (∃ more tree, Tree.ofTokens (before ++ more) = .ok tree) ∧
      ∀ more, Tree.ofTokens (before ++ t :: more) = .error (.grammar e) := by
  obtain ⟨more, hm, hspoken⟩ := h.viable
  refine ⟨⟨more, ofTokens_of_spoken (List.forall_mem_append.mpr ⟨hs, hm⟩) hspoken⟩, fun more => ?_⟩
  obtain ⟨d, hrun⟩ := h.run_program more
  exact ofTokens_of_run hrun

/-- Errors are reported at the earliest token, or at the end of a source that could go on. -/
theorem ofTokens_error_earliest :
    (∀ (source : Text) (ts : List Token) (failure : ParseFailure) (c : Cursor),
      Token.scan source = .ok ts → ts ≠ [] →
      (Cursor.ofTokens ts).run (fromHere program) = (.error failure, c) →
      ∃ e, failure = .grammar e ∧
        (∀ t, ts[c.position]? = some t → t.Blamed e ∧ t.location? = some t.place ∧
          (∃ more tree, Tree.ofTokens (ts.take c.position ++ more) = .ok tree) ∧
          ∀ more, Tree.ofTokens (ts.take (c.position + 1) ++ more) = .error (.grammar e)) ∧
        (ts[c.position]? = none → ∃ t lead last gap, ts.getLast? = some t ∧
          source = lead ++ last :: gap ∧ Text.isBlank last = false ∧ Blanks gap ∧
          t.endLocation? = some (Location.after lead) ∧ (Location.after lead).Missed e ∧
          ∃ more tree, more ≠ [] ∧ Tree.ofTokens (ts ++ more) = .ok tree)) ∧
    ∀ s : Sentence, (∀ t ∈ s.tokens, t.Sound) → 64 < s.depth →
      ∃ before t after, s.tokens = before ++ t :: after ∧ t.kind = .leftParen ∧
        openWithin 64 0 before = some 64 ∧
        (∃ more tree, Tree.ofTokens (before ++ more) = .ok tree) ∧
        ∀ more, Tree.ofTokens (before ++ t :: more) =
          .error (.grammar (.unexpectedToken t.lexeme t.place)) := by
  constructor
  · intro source ts failure c hscan hne h
    have hs := Token.sound_of_scan hscan
    cases Judgement.of_sound hne hs with
    | accepted s hd =>
      rw [s.run_program hd hs] at h
      cases h
    | refused before t after e href =>
      obtain ⟨hbefore, ht, -⟩ :
          (∀ x ∈ before, x.Sound) ∧ t.Sound ∧ ∀ x ∈ after, x.Sound := by
        simpa only [List.forall_mem_append, List.forall_mem_cons] using hs
      obtain ⟨d, hrun⟩ := href.run_program after
      rw [hrun] at h
      cases h
      have hat : (before ++ t :: after)[before.length]? = some t := by simp
      have htake : (before ++ t :: after).take (before.length + 1) = before ++ [t] :=
        List.take_length_add_append 1
      refine ⟨e, rfl, fun x hx => ?_, fun hx => ?_⟩
      · obtain rfl : t = x := Option.some.inj (hat.symm.trans hx)
        obtain ⟨hviable, hsame⟩ := href.earliest hbefore
        refine ⟨href.blamed, ht.location?, ?_, fun more => ?_⟩
        · simpa [between] using hviable
        · simpa [between, htake] using hsame more
      · exact absurd (hat.symm.trans hx) (by simp)
    | exhausted _ hex =>
      obtain ⟨e, d, hmissed, hrun⟩ := hex.run_program
      rw [hrun] at h
      cases h
      obtain ⟨pieces, gap, hspacing, rfl⟩ := Spacing.exists_of_scan hscan
      obtain ⟨t, lead, last, hlast, hsource, hblank, hend, hplace⟩ := hspacing.last_place hne
      refine ⟨e, rfl, fun x hx => ?_, fun _ => ?_⟩
      · simp [between] at hx
      · obtain ⟨more, hmore, hm, hspoken⟩ := hex.viable
        obtain ⟨tree, htree⟩ := ofTokens_of_spoken (List.forall_mem_append.mpr ⟨hs, hm⟩) hspoken
        exact ⟨t, lead, last, gap, hlast, hsource, hblank, hspacing.blanks, hend, hplace ▸ hmissed,
          more, tree, hmore, htree⟩
  · intro s hs hdeep
    obtain ⟨before, t, after, hsplit, ht, hopen, href⟩ := s.refuses_deep hdeep hs
    have hbefore : ∀ x ∈ before, x.Sound := fun x hx => hs x (by simp [hsplit, hx])
    exact ⟨before, t, after, hsplit, ht, hopen, href.earliest hbefore⟩

theorem ofTokens_error_two_operands :
    (∃ more tree, Tree.ofTokens ([⟨.leftParen, ['('], 0, 0⟩, ⟨.identifier, ['x'], 0, 1⟩] ++ more) =
      .ok tree) ∧
    (∀ more, Tree.ofTokens ([⟨.leftParen, ['('], 0, 0⟩, ⟨.identifier, ['x'], 0, 1⟩,
      ⟨.identifier, ['y'], 0, 3⟩] ++ more) = .error (.grammar (.expectedClose ['y'] ⟨0, 3⟩))) ∧
    (∃ more tree, more ≠ [] ∧ Tree.ofTokens ([⟨.identifier, ['x'], 0, 0⟩, ⟨.plus, ['+'], 0, 1⟩] ++
      more) = .ok tree) ∧
    ∃ before t, openWithin 64 0 before = some 64 ∧ ∀ more,
      Tree.ofTokens (before ++ t :: more) = .error (.grammar (.unexpectedToken t.lexeme t.place)) := by
  obtain ⟨hearliest, hdeep⟩ := ofTokens_error_earliest
  obtain ⟨e, he, htoken, -⟩ := hearliest "(x y".toList [⟨.leftParen, ['('], 0, 0⟩,
    ⟨.identifier, ['x'], 0, 1⟩, ⟨.identifier, ['y'], 0, 3⟩] (.grammar (.expectedClose ['y'] ⟨0, 3⟩))
    ⟨[⟨.leftParen, ['('], 0, 0⟩, ⟨.identifier, ['x'], 0, 1⟩, ⟨.identifier, ['y'], 0, 3⟩], 2, 1⟩
    (by cbv) (by simp) (by cbv)
  obtain ⟨_, -, -, hend⟩ := hearliest "x+ ".toList [⟨.identifier, ['x'], 0, 0⟩, ⟨.plus, ['+'], 0, 1⟩]
    (.grammar (.unexpectedEnd ⟨0, 1⟩)) ⟨[⟨.identifier, ['x'], 0, 0⟩, ⟨.plus, ['+'], 0, 1⟩], 2, 0⟩
    (by cbv) (by simp) (by cbv)
  obtain ⟨p, hp, hsound⟩ := Phrase.exists_of_depth 65
  obtain ⟨before, t, after, -, -, hopen, -, hsame⟩ :=
    hdeep (.comparison p) hsound (by simp [Sentence.depth, hp])
  obtain ⟨-, -, hviable, hrefused⟩ := htoken ⟨.identifier, ['y'], 0, 3⟩ rfl
  obtain ⟨_, _, _, _, -, -, -, -, -, -, hmore⟩ := hend rfl
  cases he
  exact ⟨hviable, hrefused, hmore, before, t, hopen, hsame⟩

end Calculator
