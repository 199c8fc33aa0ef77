import Calculator.Proofs.Verdict

/-! Statements and programs. Two tokens decide between an assignment and a comparison, and a
program is one statement up to the last token. So every list of sound tokens is a statement, or
is refused at a token, or ends too early. -/

set_option autoImplicit false

namespace Calculator

open Cursor (between)
open Calculator.Parser

section Runs
variable {factor : Parser Tree} {passed ts rest after : List Token} {target equals t : Token} {d : Nat}
variable {c : Cursor} {right tree : Tree} {e : ParseFailure}

theorem statement_assign (ht : target.kind = .identifier) (he : equals.kind = .assign) :
    statement factor (between passed (target :: equals :: rest) d) =
      (do let right ← comparison factor
          let l ← placed target.location?
          return .assignment target.lexeme right l : Parser Tree)
        (between (passed ++ [target, equals]) rest d) := by
  have h₀ : (passed ++ target :: equals :: rest)[passed.length]? = some target := by simp
  have h₁ : (passed ++ target :: equals :: rest)[passed.length + 1]? = some equals := by simp
  rw [statement, get_bind]
  simp only [between, h₀, h₁, ht, he, and_self, if_true]
  change (advance >>= _) (between passed (target :: equals :: rest) d) = _
  rw [bind_ok advance_between, bind_ok advance_between]
  simp [between]

theorem statement_comparison (h : ¬ Assigns ts) :
    statement factor (between passed ts d) = comparison factor (between passed ts d) := by
  rw [statement, get_bind]
  match ts with
  | [] => simp [between]
  | [t] => simp [between]
  | t :: u :: rest =>
    have h₀ : (passed ++ t :: u :: rest)[passed.length]? = some t := by simp
    have h₁ : (passed ++ t :: u :: rest)[passed.length + 1]? = some u := by simp
    simp only [between, h₀, h₁]
    rw [if_neg fun hk => h ⟨t, u, rest, rfl, hk⟩]

theorem program_eq (hne : passed ++ ts ≠ []) :
    program factor (between passed ts d) =
      (do let tree ← statement factor
          match ← current? with
          | some trailing => unexpected trailing
          | none => return .program [tree] .origin : Parser Tree) (between passed ts d) := by
  rw [program, get_bind]
  have hempty : (between passed ts d).tokens.isEmpty = false := by
    simpa [between, List.isEmpty_eq_false_iff] using hne
  simp only [hempty]
  rfl

theorem program_ok (hne : passed ++ ts ≠ [])
    (h : statement factor (between passed ts d) = .ok tree (between rest [] d)) :
    program factor (between passed ts d) = .ok (.program [tree] .origin) (between rest [] d) := by
  rw [program_eq hne, bind_ok h, bind_ok current?_between]
  rfl

theorem program_trailing (hne : passed ++ ts ≠ []) (ht : t.Sound)
    (h : statement factor (between passed ts d) = .ok tree (between rest (t :: after) d)) :
    program factor (between passed ts d) =
      .error (.grammar (.unexpectedToken t.lexeme t.place)) (between rest (t :: after) d) := by
  rw [program_eq hne, bind_ok h, bind_ok current?_between]
  exact unexpected_eq ht _

theorem program_error (hne : passed ++ ts ≠ [])
    (h : statement factor (between passed ts d) = .error e c) :
    program factor (between passed ts d) = .error e c := by
  rw [program_eq hne, bind_error h]

end Runs

abbrev wholeParser : Parser Tree := program (Parser.factor maxDepth)

theorem comparison_eq : comparison (Parser.factor maxDepth) = Level.parser maxDepth (.tier .comparison) :=
  rfl

def Spoken (ts : List Token) : Prop := ∃ s : Sentence, s.depth ≤ maxDepth ∧ s.tokens = ts

namespace Sentence

def StopsAt : Sentence → List Token → Prop
  | .assignment _ _ right _ _, rest => right.StopsAt rest
  | .comparison phrase, rest => phrase.StopsAt rest ∧ ¬ Assigns (phrase.tokens ++ rest)

theorem tokens_ne_nil (s : Sentence) : s.tokens ≠ [] := by
  cases s with
  | assignment => exact List.cons_ne_nil _ _
  | comparison phrase => exact phrase.tokens_ne_nil

theorem stopsAt_nil (s : Sentence) : s.StopsAt [] := by
  cases s with
  | assignment target equals right => exact right.stopsAt_nil
  | comparison phrase => exact ⟨phrase.stopsAt_nil, by simpa using phrase.not_assigns⟩

theorem stopsAt_head (s : Sentence) {t : Token} {rest rest' : List Token}
    (h : s.StopsAt (t :: rest)) : s.StopsAt (t :: rest') := by
  cases s with
  | assignment target equals right => exact right.stopsAt_head h
  | comparison phrase =>
    exact ⟨phrase.stopsAt_head h.1, fun ha => h.2 (assigns_append_cons phrase.tokens_ne_nil ha)⟩

/-- A statement that ends where it can is read to its tree. -/
theorem run_statement (s : Sentence) (hd : s.depth ≤ maxDepth) (hs : ∀ t ∈ s.tokens, t.Sound)
    {rest : List Token} (hstop : s.StopsAt rest) (passed : List Token) (d : Nat) :
    statement (Parser.factor maxDepth) (between passed (s.tokens ++ rest) d) =
      .ok s.tree (between (passed ++ s.tokens) rest d) := by
  cases s with
  | assignment target equals right ht he =>
    obtain ⟨htarget, hequals, hright⟩ :
        target.Sound ∧ equals.Sound ∧ ∀ t ∈ right.tokens, t.Sound := by
      simpa only [tokens, List.forall_mem_cons] using hs
    have hrun := right.run_level hd hright hstop (passed ++ [target, equals]) d
    simp only [tokens, List.cons_append]
    rw [statement_assign ht he, comparison_eq, bind_ok hrun, bind_ok (placed_location htarget _)]
    simp only [List.append_assoc, List.cons_append, List.nil_append]
    rfl
  | comparison phrase =>
    exact (statement_comparison hstop.2).trans (phrase.run_level hd hs hstop.1 passed d)

theorem refuses_trailing (s : Sentence) (hd : s.depth ≤ maxDepth) (hs : ∀ t ∈ s.tokens, t.Sound)
    {t : Token} (ht : t.Sound) {rest : List Token} (hstop : s.StopsAt (t :: rest)) :
    Refuses Spoken wholeParser s.tokens t (.unexpectedToken t.lexeme t.place) := by
  refine ⟨⟨[], by simp, s, hd, by simp⟩, .unexpected, ?_⟩
  intro passed after d
  refine ⟨d, program_trailing ?_ ht (s.run_statement hd hs (s.stopsAt_head hstop) passed d)⟩
  simp

end Sentence

/-- What becomes of a list of tokens. -/
inductive Judgement : List Token → Prop
  | accepted (s : Sentence) (hd : s.depth ≤ maxDepth) : Judgement s.tokens
  | refused (before : List Token) (t : Token) (after : List Token) (e : GrammarError)
      (h : Refuses Spoken wholeParser before t e) : Judgement (before ++ t :: after)
  | exhausted (ts : List Token) (h : Exhausts Spoken wholeParser ts) : Judgement ts

namespace Judgement

theorem of_sentence (s : Sentence) (hd : s.depth ≤ maxDepth) {rest : List Token}
    (hs : ∀ t ∈ s.tokens ++ rest, t.Sound) (hstop : s.StopsAt rest) :
    Judgement (s.tokens ++ rest) := by
  cases rest with
  | nil => simpa using accepted s hd
  | cons t after =>
    obtain ⟨hs, ht, -⟩ : (∀ t ∈ s.tokens, t.Sound) ∧ t.Sound ∧ ∀ t ∈ after, t.Sound := by
      simpa only [List.forall_mem_append, List.forall_mem_cons] using hs
    exact .refused s.tokens t after _ (s.refuses_trailing hd hs ht hstop)

theorem around_assignment {target equals : Token} (ht : target.kind = .identifier)
    (he : equals.kind = .assign) :
    Around (Derivable (.tier .comparison) maxDepth) Spoken
      (Level.parser maxDepth (.tier .comparison)) wholeParser [target, equals] [] := by
  refine ⟨?_, by simp, ?_⟩
  · intro w h
    obtain ⟨p, hd, rfl⟩ := h
    exact ⟨.assignment target equals p ht he, hd, by simp [Sentence.tokens]⟩
  · intro ts passed d
    refine ⟨d, fun e c h => program_error (by simp) ?_⟩
    exact (statement_assign ht he).trans (bind_error h)

theorem of_assignment {target equals : Token} {ts : List Token} (ht : target.kind = .identifier)
    (he : equals.kind = .assign) (hs : ∀ t ∈ target :: equals :: ts, t.Sound) :
    Judgement (target :: equals :: ts) := by
  have hlead : ∀ t ∈ [target, equals], t.Sound := fun t h => hs t (List.mem_append_left ts h)
  have hts : ∀ t ∈ ts, t.Sound := fun t h => hs t (List.mem_append_right [target, equals] h)
  cases Verdict.of_sound (.tier .comparison) hts with
  | complete p rest hd hstop => exact of_sentence (.assignment target equals p ht he) hd hs hstop
  | refused before t after e h => exact .refused _ t after e ((around_assignment ht he).refuses h)
  | exhausted _ h => exact .exhausted _ ((around_assignment ht he).exhausts hlead h)

/-- A comparison is never refused at an identifier in front. -/
theorem not_refuses_identifier {t : Token} (hs : t.Sound) (ht : t.kind = .identifier)
    {language : List Token → Prop} {e : GrammarError} :
    ¬ Refuses language (Level.parser maxDepth (.tier .comparison)) [] t e := by
  intro h
  obtain ⟨d, hd⟩ := h.error [] [] 0
  have hok := (Phrase.ofFactor (.identifier t ht)).run_level (Nat.zero_le maxDepth)
    (by simpa [Phrase.ofFactor, Phrase.toComparison_tokens, Phrase.tokens] using hs)
    (Phrase.stopsAt_nil _) [] 0
  have hsame : (Phrase.ofFactor (.identifier t ht)).tokens ++ [] = [] ++ [t] := rfl
  rw [hsame, hd] at hok
  cases hok

theorem spoken_comparison {w : List Token} (h : Derivable (.tier .comparison) maxDepth w) :
    Spoken ([] ++ w ++ []) := by
  obtain ⟨p, hd, rfl⟩ := h
  exact ⟨.comparison p, hd, by simp [Sentence.tokens]⟩

theorem failsAs_comparison {ts : List Token} (hne : ts ≠ []) (ha : ¬ Assigns ts) :
    FailsAs wholeParser (Level.parser maxDepth (.tier .comparison)) [] ts := by
  intro passed d
  refine ⟨d, fun e c h => program_error (by simp [hne]) ?_⟩
  rw [List.append_nil] at h
  exact (statement_comparison ha).trans h

theorem refuses_comparison {before after : List Token} {t : Token} {e : GrammarError}
    (hs : t.Sound) (ha : ¬ Assigns (before ++ t :: after))
    (h : Refuses (Derivable (.tier .comparison) maxDepth) (Level.parser maxDepth (.tier .comparison))
      before t e) : Refuses Spoken wholeParser before t e := by
  -- the two tokens that decide are not behind the refused one
  have hna : ∀ after', ¬ Assigns (before ++ t :: after') := by
    intro after' h'
    cases before with
    | nil =>
      obtain ⟨target, equals, rest, he, hk, -⟩ := h'
      obtain ⟨rfl, -⟩ := List.cons.inj he
      exact not_refuses_identifier hs hk h
    | cons x before => exact ha (assigns_append_cons (List.cons_ne_nil x before) h')
  exact h.within (fun _ => spoken_comparison) (by simp) fun _ => failsAs_comparison (by simp) (hna _)

theorem of_comparison {ts : List Token} (hne : ts ≠ []) (ha : ¬ Assigns ts)
    (hs : ∀ t ∈ ts, t.Sound) : Judgement ts := by
  cases Verdict.of_sound (.tier .comparison) hs with
  | complete p rest hd hstop => exact of_sentence (.comparison p) hd hs ⟨hstop, ha⟩
  | refused before t after e h =>
    exact .refused before t after e (refuses_comparison (hs t (by simp)) ha h)
  | exhausted _ h =>
    exact .exhausted ts
      (h.within (fun _ => spoken_comparison) (by simp) (by simp) (failsAs_comparison hne ha))

/-- Every list of sound tokens but the empty one is judged. -/
theorem of_sound {ts : List Token} (hne : ts ≠ []) (hs : ∀ t ∈ ts, t.Sound) : Judgement ts := by
  by_cases ha : Assigns ts
  · obtain ⟨target, equals, rest, rfl, ht, he⟩ := ha
    exact of_assignment ht he hs
  · exact of_comparison hne ha hs

end Judgement

section Whole

theorem run_ofTokens (ts : List Token) :
    (Cursor.ofTokens ts).run (fromHere program) = (between [] ts 0).run wholeParser := by
  have hroom : maxDepth - (Cursor.ofTokens ts).depth = maxDepth := Nat.sub_zero maxDepth
  have hstart : fromHere program (Cursor.ofTokens ts) = wholeParser (between [] ts 0) := by
    rw [fromHere, get_bind, hroom]
    rfl
  rw [Cursor.run, Cursor.run, hstart]

/-- A statement is accepted, and the cursor ends behind its last token with no parenthesis open. -/
theorem Sentence.run_program (s : Sentence) (hd : s.depth ≤ maxDepth)
    (hs : ∀ t ∈ s.tokens, t.Sound) :
    (Cursor.ofTokens s.tokens).run (fromHere program) =
      (.ok (.program [s.tree] .origin), between s.tokens [] 0) := by
  have h := s.run_statement hd hs s.stopsAt_nil [] 0
  rw [List.append_nil, List.nil_append] at h
  have hrun : wholeParser (between [] s.tokens 0) = _ := program_ok s.tokens_ne_nil h
  rw [run_ofTokens, Cursor.run, hrun]

theorem Refuses.run_program {before : List Token} {t : Token} {e : GrammarError}
    (h : Refuses Spoken wholeParser before t e) (after : List Token) :
    ∃ d, (Cursor.ofTokens (before ++ t :: after)).run (fromHere program) =
      (.error (.grammar e), between before (t :: after) d) := by
  obtain ⟨d, hd⟩ := h.error [] after 0
  exact ⟨d, by rw [run_ofTokens, Cursor.run, hd, List.nil_append]⟩

theorem Exhausts.run_program {ts : List Token} (h : Exhausts Spoken wholeParser ts) :
    ∃ e d, (lastPlace ts).Missed e ∧ (Cursor.ofTokens ts).run (fromHere program) =
      (.error (.grammar e), between ts [] d) := by
  obtain ⟨e, d, he, hd⟩ := h.error [] 0 (by simp)
  exact ⟨e, d, he, by rw [run_ofTokens, Cursor.run, hd, List.nil_append]⟩

theorem ofTokens_nil : Tree.ofTokens [] = .ok (.program [] .origin) := rfl

end Whole

end Calculator
