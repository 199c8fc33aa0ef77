import Calculator.Proofs.Parallel
import Calculator.Source

/-! Sources in another layout. The blanks around the tokens of a source can be exchanged for other
blanks, as long as tokens that were kept apart stay apart. The new source has the same tokens, it
has the same tree or is refused at the same token, and it gives the same results; only places
differ. -/

set_option autoImplicit false

namespace Calculator

/-- Other gaps for the tokens of a row. A gap between two tokens may be empty only if the old gap
there was empty. -/
structure Respaces (pieces : List (Text × Token)) (gaps : List Text) : Prop where
  length_eq : gaps.length = pieces.length
  blanks : ∀ gap ∈ gaps, Blanks gap
  apart : ∀ i, 0 < i → gaps[i]? = some [] → (pieces.map Prod.fst)[i]? = some []

section Maximal
variable {kind : TokenKind} {lexeme gap rest : Text}

theorem TokenKind.Maximal.behind_blanks (hgap : Blanks gap)
    (h : gap = [] → kind.Maximal lexeme rest) : kind.Maximal lexeme (gap ++ rest) := by
  cases gap with
  | nil => exact h rfl
  | cons c gap =>
    intro d hd
    obtain rfl : c = d := Option.some.inj hd
    exact not_continues_of_isBlank (hgap c List.mem_cons_self) kind lexeme

end Maximal

section Gaps
variable {passed rest last last' : Text} {pieces : List (Text × Token)} {gaps : List Text}

theorem Cut.maximal_zip {kind : TokenKind} {lexeme : Text} (hcut : Cut passed pieces rest)
    (hm : kind.Maximal lexeme (spread pieces rest)) (hlength : gaps.length = pieces.length)
    (hblanks : ∀ gap ∈ gaps, Blanks gap) (hlast : Blanks last)
    (hfirst : gaps[0]? = some [] → (pieces.map Prod.fst)[0]? = some []) :
    kind.Maximal lexeme (spread (gaps.zip (pieces.map Prod.snd)) last) := by
  -- what follows is the end, or the next gap, or the next lexeme where it followed before
  cases hcut with
  | nil =>
    obtain rfl := List.length_eq_zero_iff.mp hlength
    have hend : kind.Maximal lexeme (last ++ []) := .behind_blanks hlast fun _ => loose_nil _ _
    rw [List.append_nil] at hend
    exact hend
  | @cons _ gap _ t pieces _ hl _ _ _ =>
    obtain ⟨next, gaps, rfl⟩ := List.exists_cons_of_length_eq_add_one hlength
    refine .behind_blanks (hblanks next List.mem_cons_self) fun hnext => ?_
    subst hnext
    obtain rfl : gap = [] := Option.some.inj (hfirst rfl)
    exact .of_append (Token.lexeme_ne_nil hl) hm

/-- The tokens of a row stay maximal behind other gaps. -/
theorem Respaces.spaced (hcut : Cut passed pieces rest) (h : Respaces pieces gaps)
    (hlast : Blanks last) : Spaced (gaps.zip (pieces.map Prod.snd)) last := by
  induction hcut generalizing gaps with
  | nil =>
    obtain rfl := List.length_eq_zero_iff.mp h.length_eq
    trivial
  | @cons passed gap rest t pieces _ hl hm _ hcut ih =>
    obtain ⟨hlength, hblanks, hapart⟩ := h
    obtain ⟨first, gaps, rfl⟩ := List.exists_cons_of_length_eq_add_one hlength
    obtain ⟨hfirst, hgaps⟩ := List.forall_mem_cons.mp hblanks
    have hinner (i : Nat) (hi : gaps[i]? = some []) : (pieces.map Prod.fst)[i]? = some [] :=
      hapart (i + 1) (Nat.succ_pos i) hi
    have htail : Respaces pieces gaps := ⟨Nat.succ_inj.mp hlength, hgaps, fun i _ => hinner i⟩
    exact ⟨hfirst, hl, hcut.maximal_zip hm htail.length_eq hgaps hlast (hinner 0), ih htail⟩

/-- A row with other gaps is scanned to the same words. -/
theorem Respaces.exists_scan {source : Text} (hspacing : Spacing source pieces last)
    (h : Respaces pieces gaps) (hlast : Blanks last') :
    ∃ us, Token.scan (spread (gaps.zip (pieces.map Prod.snd)) last') = .ok us ∧
      us.map Token.word = (pieces.map Prod.snd).map Token.word := by
  obtain ⟨pieces', hspacing', hwords⟩ := (h.spaced hspacing.cut hlast).exists_spacing hlast
  refine ⟨pieces'.map Prod.snd, hspacing'.scan, ?_⟩
  rw [hwords, List.map_snd_zip]
  rw [List.length_map, h.length_eq]

end Gaps

def SourceError.unplaced : SourceError → SourceError
  | .scan e => .scan ⟨e.fault, 0, 0⟩
  | .parse (.grammar e) => .parse (.grammar e.unplaced)
  | .parse failure => .parse failure
  | .eval e => .eval e.unplaced

namespace Source

variable {source source' : Text} {tree tree' : Tree}

theorem parse_eq_of_scan {ts : List Token} (h : Token.scan source = .ok ts) :
    parse source = (Tree.ofTokens ts).mapError .parse := by
  rw [parse, h]
  cases ht : Tree.ofTokens ts <;> simp only [ht] <;> rfl

theorem evaluate_of_parse (h : parse source = .ok tree) (symbols : Symbols) :
    evaluate source symbols = ((symbols.run (tree.run Tree.walkLimit)).1.mapError .eval,
      (symbols.run (tree.run Tree.walkLimit)).2) := by
  simp only [evaluate, h]
  cases symbols.run (tree.run Tree.walkLimit) with
  | mk result symbols' => cases result <;> rfl

theorem evaluate_unplaced_of_parse (h : parse source = .ok tree) (h' : parse source' = .ok tree')
    (hsame : tree.unplaced = tree'.unplaced) (symbols : Symbols) :
    (evaluate source symbols).1.mapError SourceError.unplaced =
        (evaluate source' symbols).1.mapError SourceError.unplaced ∧
      (evaluate source symbols).2 = (evaluate source' symbols).2 := by
  have heval (result : Except EvalError (List Float)) :
      (result.mapError SourceError.eval).mapError SourceError.unplaced =
        (result.mapError EvalError.unplaced).mapError SourceError.eval := by
    cases result <;> rfl
  obtain ⟨hresult, htable⟩ := Tree.run_eq_of_unplaced hsame Tree.walkLimit symbols
  rw [evaluate_of_parse h, evaluate_of_parse h', heval, heval, hresult]
  exact ⟨rfl, htable⟩

/-- A source in another layout has the same tokens, tree or error, and results, up to places. -/
theorem respaced_same_up_to_places (ts : List Token) (h : Token.scan source = .ok ts) :
    ∃ pieces last, Spacing source pieces last ∧ pieces.map Prod.snd = ts ∧
      ∀ gaps last', Respaces pieces gaps → Blanks last' →
        ∃ us, Token.scan (spread (gaps.zip ts) last') = .ok us ∧
          us.map Token.word = ts.map Token.word ∧
          ((∃ tree tree', parse source = .ok tree ∧
              parse (spread (gaps.zip ts) last') = .ok tree' ∧ tree.unplaced = tree'.unplaced) ∨
            ∃ e e' n, parse source = .error (.parse (.grammar e)) ∧
              parse (spread (gaps.zip ts) last') = .error (.parse (.grammar e')) ∧
              e.unplaced = e'.unplaced ∧ e.Between (ts.take n) (ts.drop n) ∧
              e'.Between (us.take n) (us.drop n)) ∧
          ∀ symbols,
            (evaluate source symbols).1.mapError SourceError.unplaced =
              (evaluate (spread (gaps.zip ts) last') symbols).1.mapError SourceError.unplaced ∧
            (evaluate source symbols).2 = (evaluate (spread (gaps.zip ts) last') symbols).2 := by
  obtain ⟨pieces, last, hspacing, rfl⟩ := Spacing.exists_of_scan h
  refine ⟨pieces, last, hspacing, rfl, fun gaps last' hgaps hlast => ?_⟩
  obtain ⟨us, hscan, hwords⟩ := hgaps.exists_scan hspacing hlast
  refine ⟨us, hscan, hwords, ?_⟩
  have hecho : Echo (pieces.map Prod.snd) us :=
    .of_words hwords (Token.sound_of_scan h) (Token.sound_of_scan hscan)
  have hparse := parse_eq_of_scan h
  have hparse' := parse_eq_of_scan hscan
  rcases hecho.ofTokens with ⟨tree, tree', ht, ht', hsame⟩ | ⟨e, e', n, he, he', hsame, hat, hat'⟩
  · rw [ht] at hparse
    rw [ht'] at hparse'
    exact ⟨Or.inl ⟨tree, tree', hparse, hparse', hsame⟩,
      evaluate_unplaced_of_parse hparse hparse' hsame⟩
  · rw [he] at hparse
    rw [he'] at hparse'
    refine ⟨Or.inr ⟨e, e', n, hparse, hparse', hsame, hat, hat'⟩, fun symbols => ?_⟩
    simp only [evaluate, hparse, hparse']
    refine ⟨?_, rfl⟩
    exact congrArg (fun e => Except.error (SourceError.parse (.grammar e))) hsame

theorem respaced_unbound_comparison :
    Token.scan "z<=PI".toList = .ok [⟨.identifier, ['z'], 0, 0⟩, ⟨.lessEqual, ['<', '='], 0, 1⟩,
      ⟨.identifier, ['P', 'I'], 0, 3⟩] ∧
    (∃ us, Token.scan "\n z\t<= \n PI ".toList = .ok us ∧ us.map Token.word =
      [(.identifier, ['z']), (.lessEqual, ['<', '=']), (.identifier, ['P', 'I'])]) ∧
    (evaluate "\n z\t<= \n PI ".toList .builtin).1.mapError SourceError.unplaced =
      .error (.eval (.symbolNotFound ['z'] .origin)) := by
  have hscan : Token.scan "z<=PI".toList = .ok [⟨.identifier, ['z'], 0, 0⟩,
      ⟨.lessEqual, ['<', '='], 0, 1⟩, ⟨.identifier, ['P', 'I'], 0, 3⟩] := by cbv
  have hparse : parse "z<=PI".toList = .ok (.program [.operation .lessEqual
      (.identifier ['z'] ⟨0, 0⟩) (.identifier ['P', 'I'] ⟨0, 3⟩) ⟨0, 1⟩] .origin) := by cbv
  have hold : (evaluate "z<=PI".toList .builtin).1.mapError SourceError.unplaced =
      .error (.eval (.symbolNotFound ['z'] .origin)) := by
    rw [evaluate, hparse]
    rfl
  obtain ⟨pieces, last, -, htokens, hall⟩ := respaced_same_up_to_places _ hscan
  have hgaps : Respaces pieces ["\n ".toList, "\t".toList, " \n ".toList] := by
    refine ⟨?_, by simp [Blanks, Text.isBlank], ?_⟩
    · rw [← List.length_map Prod.snd, htokens]
      rfl
    · intro i _ hi
      rcases i with _ | _ | _ | i <;> cases hi
  obtain ⟨us, hus, hwords, -, heval⟩ := hall _ " ".toList hgaps blanks_space
  exact ⟨hscan, ⟨us, hus, hwords⟩, (heval .builtin).1.symm.trans hold⟩

end Source

end Calculator
