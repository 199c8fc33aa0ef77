import Calculator.Proofs.ScannerCalls
import Calculator.Proofs.Separation

/-! Scanning from where a scanner stands. The rounds of a scan come to an end, since each of them
passes a token or is the last one. What they give depends on the text ahead only: it is what a new
scanner gives for that text, moved to where the scanner stands and put behind the tokens that it
holds. A scanner that has come to an end, be it at a fault, stays there if it scans again. -/

set_option autoImplicit false

namespace Calculator

namespace Scanner

/-- What a scan has come to if it is broken off after a number of rounds: nothing yet, or its end.
A round passes some blanks and stores a token, unless there is none. -/
def rounds : Nat → Scanner → Option (Except ScanError (List Token) × Scanner)
  | 0, _ => none
  | n + 1, s =>
    match s.skipBlanks.ahead with
    | [] => some (.ok s.skipBlanks.tokens, s.skipBlanks)
    | c :: rest =>
      match Token.front c rest with
      | .error fault => some (.error (s.skipBlanks.errorAt fault), s.skipBlanks)
      | .ok (kind, length) => rounds n (s.skipBlanks.emit kind length)

/-- A scan needs at most one round for each character ahead, and one to see that it is at the
end. -/
theorem rounds_eq_tokenize {s : Scanner} {n : Nat} (h : s.ahead.length < n) :
    s.rounds n = some s.tokenize := by
  induction n generalizing s with
  | zero => omega
  | succ n ih =>
    rw [rounds]
    cases hs : s.skipBlanks.ahead with
    | nil => rw [tokenize_of_nil hs]
    | cons c rest =>
      cases hf : Token.front c rest with
      | error fault => simp only [hf, tokenize_of_error hs hf]
      | ok cut =>
        obtain ⟨kind, length⟩ := cut
        have hless := length_ahead_lt hs hf
        have hrest := @ih (s.skipBlanks.emit kind length) (by omega)
        simp only [hf, tokenize_of_ok hs hf, hrest]

theorem ahead_step (s : Scanner) : s.step.ahead = s.ahead.tail := by
  unfold step
  split
  · rename_i hs
    rw [hs]
    rfl
  · rename_i hs
    rw [hs]
    split <;> rfl

theorem ahead_steps (n : Nat) (s : Scanner) : (steps n s).ahead = s.ahead.drop n := by
  induction n generalizing s with
  | zero => rfl
  | succ n ih => rw [steps, ih, ahead_step, List.drop_tail]

theorem ahead_skipBlanks (s : Scanner) : s.skipBlanks.ahead = s.ahead.dropWhile Text.isBlank := by
  have hsplit : s.ahead.takeWhile Text.isBlank ++ s.ahead.dropWhile Text.isBlank = s.ahead :=
    List.takeWhile_append_dropWhile
  rw [skipBlanks, ahead_steps]
  nth_rewrite 2 [← hsplit]
  exact List.drop_left

theorem skipBlanks_skipBlanks (s : Scanner) : s.skipBlanks.skipBlanks = s.skipBlanks := by
  have hstop : ∀ c ∈ s.skipBlanks.ahead.head?, Text.isBlank c = false := by
    intro c hc
    rw [ahead_skipBlanks] at hc
    exact Text.eq_false_of_mem_head?_dropWhile hc
  have hnone : s.skipBlanks.ahead.takeWhile Text.isBlank = [] :=
    (Text.span_append (List.forall_mem_nil _) hstop).1
  rw [skipBlanks, hnone]
  rfl

theorem tokenize_skipBlanks (s : Scanner) : s.skipBlanks.tokenize = s.tokenize :=
  tokenize_eq_of_skipBlanks (skipBlanks_skipBlanks s)

/-- After the end of a scan another one ends at once and in the same way. -/
theorem tokenize_tokenize (s : Scanner) : s.tokenize.2.tokenize = s.tokenize := by
  -- the last round alone counts, and it leaves the scanner behind the blanks
  induction s using tokenize.induct with
  | case1 s hs =>
    have hend : s.tokenize.2 = s.skipBlanks := congrArg Prod.snd (tokenize_of_nil hs)
    rw [hend, tokenize_skipBlanks]
  | case2 s c rest hs fault hf =>
    have hend : s.tokenize.2 = s.skipBlanks := congrArg Prod.snd (tokenize_of_error hs hf)
    rw [hend, tokenize_skipBlanks]
  | case3 s c rest hs kind length hf _ ih =>
    rw [tokenize_of_ok hs hf]
    exact ih

/-- A scan that succeeds leaves nothing ahead. -/
theorem ahead_of_tokenize {s : Scanner} {ts : List Token} (h : s.tokenize.1 = .ok ts) :
    s.tokenize.2.ahead = [] := by
  induction s using tokenize.induct with
  | case1 s hs =>
    rw [tokenize_of_nil hs]
    exact hs
  | case2 s c rest hs fault hf =>
    rw [tokenize_of_error hs hf] at h
    cases h
  | case3 s c rest hs kind length hf _ ih =>
    rw [tokenize_of_ok hs hf] at h ⊢
    exact ih h

section Reached
variable {source : Text} {s : Scanner}

theorem recorded_afterAll (source : Text) (calls : List Call) :
    Recorded source ((ofText source).afterAll calls) ((ofText source).storesAll calls) := by
  have hstart : Recorded source (ofText source) [] := ⟨aligned_ofText source, .nil⟩
  exact hstart.afterAll calls

theorem offset_between (passed ahead : Text) (tokens : List Token) :
    (between passed ahead tokens).offset = passed.length := List.length_reverse

theorem Aligned.offset_add_length (h : Aligned source s) :
    s.offset + s.ahead.length = source.length := by
  rw [← h.text_eq, text, List.length_append, List.length_reverse, offset]

theorem Aligned.eq_between (h : Aligned source s) :
    s = between (source.take s.offset) (source.drop s.offset) s.tokens := by
  have htake : source.take s.offset = s.behind.reverse := h.text_eq ▸ take_offset s
  have hdrop : source.drop s.offset = s.ahead := h.text_eq ▸ drop_offset s
  rw [between, h.place, htake, hdrop, List.reverse_reverse]

theorem Aligned.tokenize_eq (h : Aligned source s) :
    s.tokenize = (resumed ⟨s.line, s.column⟩ s.tokens (Token.scan (source.drop s.offset)),
      (ofText (source.drop s.offset)).tokenize.2.moved (source.take s.offset) s.tokens) := by
  have hmoved := tokenize_between_eq_moved (source.take s.offset) (source.drop s.offset) s.tokens
  rw [← h.eq_between, h.place] at hmoved
  exact hmoved

end Reached

/-- Wherever calls have led a scanner, scanning comes to an end there within one round for each
character ahead and one more. It gives what a new scanner gives for the text ahead, moved to the
place of the cursor and put behind the tokens stored before: on success it is at the end of the
source, and a fault is found where the new scanner finds it. Scanning again gives the same and
changes nothing. -/
theorem tokenize_resumes_and_repeats (source : Text) (calls : List Call) :
    let s := (ofText source).afterAll calls
    let fresh := (ofText (source.drop s.offset)).tokenize
    (∀ n, source.length - s.offset < n → s.rounds n = some s.tokenize) ∧
    (∀ ts, fresh.1 = .ok ts →
      s.tokenize.1 = .ok (s.tokens ++ ts.map (Token.shift ⟨s.line, s.column⟩)) ∧
      s.tokenize.2.offset = source.length) ∧
    (∀ e, fresh.1 = .error e → s.tokenize.1 = .error (e.shift ⟨s.line, s.column⟩)) ∧
    s.tokenize.2.offset = s.offset + fresh.2.offset ∧
    s.tokenize.2.tokens = s.tokens ++ fresh.2.tokens.map (Token.shift ⟨s.line, s.column⟩) ∧
    s.tokenize.2.tokenize = s.tokenize := by
  intro s fresh
  have hrecorded := recorded_afterAll source calls
  have haligned : Aligned source s := hrecorded.aligned
  have hend : Aligned source s.tokenize.2 := hrecorded.tokenize.aligned
  have hresult : s.tokenize.1 = resumed ⟨s.line, s.column⟩ s.tokens fresh.1 :=
    congrArg Prod.fst haligned.tokenize_eq
  have hstate : s.tokenize.2 = fresh.2.moved (source.take s.offset) s.tokens :=
    congrArg Prod.snd haligned.tokenize_eq
  refine ⟨?_, ?_, ?_, ?_, ?_, tokenize_tokenize s⟩
  · intro n hn
    apply rounds_eq_tokenize
    have hlength := haligned.offset_add_length
    omega
  · intro ts hts
    rw [hts] at hresult
    refine ⟨hresult, ?_⟩
    have hlength := hend.offset_add_length
    rw [ahead_of_tokenize hresult] at hlength
    exact hlength
  · intro e he
    rw [he] at hresult
    exact hresult
  · rw [hstate, moved, offset_between, List.length_append, List.length_take, List.length_reverse,
      Nat.min_eq_left haligned.offset_le]
    rfl
  · rw [hstate, moved, haligned.place]
    rfl

/-- Inside a lexeme, behind a token that no scan would store; and inside a number that has stopped a
scan before. -/
theorem tokenize_resumes_inside_lexeme :
    (∃ s, (ofText "ab =\n 1.5".toList).afterAll [.emit .plus 1] = s ∧
      s.rounds 9 = some s.tokenize ∧ s.tokenize.2.offset = 9 ∧
      s.tokenize.1 = .ok [⟨.plus, ['a'], 0, 0⟩, ⟨.identifier, ['b'], 0, 1⟩,
        ⟨.assign, ['='], 0, 3⟩, ⟨.number, "1.5".toList, 1, 1⟩]) ∧
    ∃ s, (ofText "x\n 3.y ?".toList).afterAll [.tokenize, .advance 2] = s ∧
      s.tokenize.1 = .error ⟨.unrecognized '?', 1, 5⟩ ∧
      s.tokenize.2.tokens = [⟨.identifier, ['x'], 0, 0⟩, ⟨.identifier, ['y'], 1, 3⟩] ∧
      s.tokenize.2.tokenize = s.tokenize := by
  obtain ⟨hs, hfresh, hs', hfresh'⟩ :
      (ofText "ab =\n 1.5".toList).afterAll [.emit .plus 1] =
        ⟨['a'], "b =\n 1.5".toList, 0, 1, [⟨.plus, ['a'], 0, 0⟩]⟩ ∧
      (ofText "b =\n 1.5".toList).tokenize.1 = .ok [⟨.identifier, ['b'], 0, 0⟩,
        ⟨.assign, ['='], 0, 2⟩, ⟨.number, "1.5".toList, 1, 1⟩] ∧
      (ofText "x\n 3.y ?".toList).afterAll [.tokenize, .advance 2] =
        ⟨"x\n 3.".toList.reverse, "y ?".toList, 1, 3, [⟨.identifier, ['x'], 0, 0⟩]⟩ ∧
      (ofText "y ?".toList).tokenize = (.error ⟨.unrecognized '?', 0, 2⟩,
        ⟨"y ".toList.reverse, ['?'], 0, 2, [⟨.identifier, ['y'], 0, 0⟩]⟩) := by
    refine ⟨?_, ?_, ?_, ?_⟩ <;> cbv
  obtain ⟨hends, hok, -⟩ := tokenize_resumes_and_repeats "ab =\n 1.5".toList [.emit .plus 1]
  obtain ⟨-, -, herror, -, htokens, hagain⟩ :=
    tokenize_resumes_and_repeats "x\n 3.y ?".toList [.tokenize, .advance 2]
  rw [hs] at hends hok
  rw [hs'] at herror htokens hagain
  obtain ⟨hresult, hoffset⟩ := hok _ hfresh
  refine ⟨⟨_, hs, hends 9 (by decide), hoffset, hresult⟩, _, hs', ?_, ?_, hagain⟩
  · exact herror _ (congrArg Prod.fst hfresh')
  · rw [htokens]
    exact congrArg _ (congrArg _ (congrArg (·.2.tokens) hfresh'))

end Scanner

end Calculator
