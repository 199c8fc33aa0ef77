import Calculator.Proofs.Spacing

/-! A scanner that is driven call by call. Whatever is called, with whatever counts, the cursor only
moves step by step, and a step moves offset, line and column together. So line and column are always
those of the offset, and a token carries the place of the offset at which it was stored. -/

set_option autoImplicit false

namespace Calculator

namespace Scanner

inductive Call
  | current
  | peek (distance : Int)
  | advance (count : Int)
  | skipBlanks
  | identifierLength
  | numberLength
  | emit (kind : TokenKind) (length : Int)
  | tokenize

/-- The scanner after a call, also after one that failed. Four of the operations only look. -/
def after (s : Scanner) : Call → Scanner
  | .advance count => s.advance count
  | .skipBlanks => s.skipBlanks
  | .emit kind length => s.emit kind length
  | .tokenize => s.tokenize.2
  | .current | .peek _ | .identifierLength | .numberLength => s

def afterAll (s : Scanner) (calls : List Call) : Scanner := calls.foldl after s

/-- The offsets at which the rest of a source is cut into tokens. -/
def cuts (s : Scanner) : List Nat :=
  match hs : s.skipBlanks.ahead with
  | [] => []
  | c :: rest =>
    match h : Token.front c rest with
    | .error _ => []
    | .ok (kind, length) =>
      have := length_ahead_lt hs h
      s.skipBlanks.offset :: cuts (s.skipBlanks.emit kind length)
termination_by s.ahead.length
decreasing_by assumption

/-- The offsets of the cursor at the moments at which a call stores a token. -/
def stores (s : Scanner) : Call → List Nat
  | .emit _ _ => [s.offset]
  | .tokenize => s.cuts
  | .advance _ | .skipBlanks | .current | .peek _ | .identifierLength | .numberLength => []

def storesAll (s : Scanner) : List Call → List Nat
  | [] => []
  | call :: rest => s.stores call ++ (s.after call).storesAll rest

section Cuts
variable {s : Scanner} {c : Char} {rest : Text} {kind : TokenKind} {fault : ScanFault}

theorem cuts_of_nil (hs : s.skipBlanks.ahead = []) : s.cuts = [] := by
  rw [cuts]
  split
  · rfl
  · simp_all

theorem cuts_of_error (hs : s.skipBlanks.ahead = c :: rest)
    (h : Token.front c rest = .error fault) : s.cuts = [] := by
  rw [cuts]
  split
  · rfl
  · rename_i hs'
    obtain ⟨rfl, rfl⟩ := List.cons.inj (hs.symm.trans hs')
    split <;> simp_all

theorem cuts_of_ok {length : Nat} (hs : s.skipBlanks.ahead = c :: rest)
    (h : Token.front c rest = .ok (kind, length)) :
    s.cuts = s.skipBlanks.offset :: (s.skipBlanks.emit kind length).cuts := by
  rw [cuts]
  split
  · simp_all
  · rename_i hs'
    obtain ⟨rfl, rfl⟩ := List.cons.inj (hs.symm.trans hs')
    split <;> simp_all

end Cuts

/-- A scanner of a source whose line and column are those of its offset. -/
structure Aligned (source : Text) (s : Scanner) : Prop where
  text_eq : s.text = source
  place : Location.after (source.take s.offset) = ⟨s.line, s.column⟩

/-- A token with a lexeme that stands at an offset of a source, and with the place of the offset. -/
structure StoredAt (source : Text) (t : Token) (offset : Nat) : Prop where
  offset_le : offset ≤ source.length
  lexeme : t.lexeme <+: source.drop offset
  location? : t.location? = some (.after (source.take offset))

variable {source : Text} {s : Scanner}

theorem take_offset (s : Scanner) : s.text.take s.offset = s.behind.reverse := by
  rw [text, offset, ← List.length_reverse, List.take_left]

theorem drop_offset (s : Scanner) : s.text.drop s.offset = s.ahead := by
  rw [text, offset, ← List.length_reverse, List.drop_left]

theorem aligned_iff : Aligned source s ↔
    s.text = source ∧ Location.after s.behind.reverse = ⟨s.line, s.column⟩ := by
  constructor
  · rintro ⟨rfl, hplace⟩
    rw [take_offset] at hplace
    exact ⟨rfl, hplace⟩
  · rintro ⟨rfl, hplace⟩
    rw [← take_offset] at hplace
    exact ⟨rfl, hplace⟩

theorem aligned_ofText (source : Text) : Aligned source (ofText source) := ⟨rfl, rfl⟩

namespace Aligned

theorem offset_le (h : Aligned source s) : s.offset ≤ source.length := by
  rw [← h.text_eq, text, List.length_append, List.length_reverse, offset]
  exact Nat.le_add_right _ _

theorem step (h : Aligned source s) : Aligned source s.step := by
  obtain ⟨htext, hplace⟩ := aligned_iff.mp h
  refine aligned_iff.mpr ⟨(text_step s).trans htext, ?_⟩
  unfold Scanner.step
  split
  · exact hplace
  · split
    · rename_i hc
      rw [List.reverse_cons, hc, Location.after_concat_newline, hplace]
    · rename_i hc
      rw [List.reverse_cons, Location.after_concat hc, hplace]

theorem steps (h : Aligned source s) (n : Nat) : Aligned source (steps n s) := by
  induction n generalizing s with
  | zero => exact h
  | succ n ih => exact ih h.step

theorem advance (h : Aligned source s) (count : Int) : Aligned source (s.advance count) := h.steps _

theorem withTokens (h : Aligned source s) (tokens : List Token) :
    Aligned source { s with tokens := tokens } := ⟨h.text_eq, h.place⟩

theorem emit (h : Aligned source s) (kind : TokenKind) (length : Int) :
    Aligned source (s.emit kind length) := (h.withTokens _).advance length

theorem storedAt (h : Aligned source s) (kind : TokenKind) (length : Int) :
    StoredAt source ⟨kind, s.slice length, s.line, s.column⟩ s.offset := by
  refine ⟨h.offset_le, ?_, ?_⟩
  · rw [← h.text_eq, drop_offset, slice]
    split
    · exact List.take_prefix _ _
    · exact List.take_prefix _ _
  · rw [h.place]
    simp [Token.location?, Location.ofInts?]

end Aligned

theorem tokens_step (s : Scanner) : s.step.tokens = s.tokens := by
  unfold step
  split
  · rfl
  · split <;> rfl

theorem tokens_steps (n : Nat) (s : Scanner) : (steps n s).tokens = s.tokens := by
  induction n generalizing s with
  | zero => rfl
  | succ n ih => rw [steps, ih, tokens_step]

theorem tokens_emit (s : Scanner) (kind : TokenKind) (length : Int) :
    (s.emit kind length).tokens = s.tokens ++ [⟨kind, s.slice length, s.line, s.column⟩] :=
  tokens_steps _ _

/-- A scanner in line with its source, whose tokens were stored at the given offsets. -/
structure Recorded (source : Text) (s : Scanner) (offsets : List Nat) : Prop where
  aligned : Aligned source s
  stored : List.Forall₂ (StoredAt source) s.tokens offsets

namespace Recorded

variable {offsets : List Nat}

theorem steps (h : Recorded source s offsets) (n : Nat) :
    Recorded source (Scanner.steps n s) offsets := by
  refine ⟨h.aligned.steps n, ?_⟩
  rw [tokens_steps]
  exact h.stored

theorem emit (h : Recorded source s offsets) (kind : TokenKind) (length : Int) :
    Recorded source (s.emit kind length) (offsets ++ [s.offset]) := by
  refine ⟨h.aligned.emit kind length, ?_⟩
  rw [tokens_emit]
  exact List.rel_append h.stored (.cons (h.aligned.storedAt kind length) .nil)

theorem tokenize (h : Recorded source s offsets) :
    Recorded source s.tokenize.2 (offsets ++ s.cuts) := by
  -- along the recursion: blanks are skipped, and a token is stored unless the scanner stops there
  induction s using Scanner.tokenize.induct generalizing offsets with
  | case1 s hs =>
    rw [tokenize_of_nil hs, cuts_of_nil hs, List.append_nil]
    exact h.steps _
  | case2 s c rest hs fault hfront =>
    rw [tokenize_of_error hs hfront, cuts_of_error hs hfront, List.append_nil]
    exact h.steps _
  | case3 s c rest hs kind length hfront _ ih =>
    rw [tokenize_of_ok hs hfront, cuts_of_ok hs hfront, ← List.singleton_append,
      ← List.append_assoc]
    have hskip : Recorded source s.skipBlanks offsets := h.steps _
    exact ih (hskip.emit kind length)

theorem after (h : Recorded source s offsets) (call : Call) :
    Recorded source (s.after call) (offsets ++ s.stores call) := by
  cases call with
  | emit kind length => exact h.emit kind length
  | tokenize => exact h.tokenize
  | advance count =>
    rw [stores, List.append_nil]
    exact h.steps _
  | skipBlanks =>
    rw [stores, List.append_nil]
    exact h.steps _
  | current | peek | identifierLength | numberLength =>
    rw [stores, List.append_nil]
    exact h

theorem afterAll (h : Recorded source s offsets) (calls : List Call) :
    Recorded source (s.afterAll calls) (offsets ++ s.storesAll calls) := by
  induction calls generalizing s offsets with
  | nil =>
    rw [storesAll, List.append_nil]
    exact h
  | cons call rest ih =>
    rw [storesAll, ← List.append_assoc]
    exact ih (h.after call)

end Recorded

/-- After any calls the scanner stands at an offset of its source, with the line and column of that
offset. Each token it holds has its lexeme at the offset at which it was stored, and the place of
that offset. -/
theorem calls_keep_places (source : Text) (calls : List Call) :
    let s := (ofText source).afterAll calls
    s.text = source ∧ s.offset ≤ source.length ∧
    s.line = (source.take s.offset).count '\n' ∧
    s.column = ((source.take s.offset).reverse.takeWhile (· != '\n')).length ∧
    List.Forall₂ (fun t offset => offset ≤ source.length ∧ t.lexeme <+: source.drop offset ∧
      t.location? = some (.after (source.take offset))) s.tokens
      ((ofText source).storesAll calls) := by
  intro s
  have hstart : Recorded source (ofText source) [] := ⟨aligned_ofText source, .nil⟩
  obtain ⟨haligned, hstored⟩ := hstart.afterAll calls
  refine ⟨haligned.text_eq, haligned.offset_le, ?_, ?_, ?_⟩
  · exact (congrArg Location.line haligned.place).symm
  · exact (congrArg Location.column haligned.place).symm
  · exact hstored.imp fun t offset h => ⟨h.offset_le, h.lexeme, h.location?⟩

example : ((ofText "a\nb".toList).afterAll
    [.emit .plus (-1), .advance 2, .emit .identifier 9, .advance (-4)]).tokens =
      [⟨.plus, ['a', '\n'], 0, 0⟩, ⟨.identifier, ['b'], 1, 0⟩] := by
  decide

end Scanner

end Calculator
