import Calculator.Decimal.Numeral
import Calculator.Proofs.NumberGrammar

/-! Number literals are numerals: each of them is read as a float. -/

set_option autoImplicit false

namespace Calculator

open NumberState

def LiteralChar (c : Char) : Prop := Text.isDigit c ∨ c = '.' ∨ isMark c ∨ isSign c

theorem NumberLiteral.literalChar {w : Text} (h : NumberLiteral w) : ∀ c ∈ w, LiteralChar c := by
  obtain ⟨whole, fraction, exponent, hw, hf, he, rfl⟩ := h
  simp only [List.forall_mem_append]
  refine ⟨⟨fun c hc => Or.inl (hw.2 c hc), ?_⟩, ?_⟩
  · rcases hf with rfl | ⟨ds, hd, rfl⟩
    · simp
    · exact List.forall_mem_cons.mpr ⟨Or.inr (Or.inl rfl), fun c hc => Or.inl (hd.2 c hc)⟩
  · rcases he with rfl | ⟨mark, sign, ds, hm, hs, hd, rfl⟩
    · simp
    · simp only [List.forall_mem_cons, List.forall_mem_append]
      refine ⟨Or.inr (Or.inr (Or.inl hm)), ?_, fun c hc => Or.inl (hd.2 c hc)⟩
      rcases hs with rfl | ⟨c, hc, rfl⟩
      · simp
      · exact List.forall_mem_singleton.mpr (Or.inr (Or.inr (Or.inr hc)))

theorem literalChar_toNat {c : Char} (h : LiteralChar c) : 43 ≤ c.toNat ∧ c.toNat ≤ 101 ∧ c.toNat ≠ 95 := by
  rcases h with h | rfl | h | h
  · have := (Text.isDigit_iff c).mp h
    omega
  · decide
  · simp only [isMark, Bool.or_eq_true, beq_iff_eq] at h
    rcases h with rfl | rfl <;> decide
  · simp only [isSign, Bool.or_eq_true, beq_iff_eq] at h
    rcases h with rfl | rfl <;> decide

namespace Numeral

theorem plain_of_literalChar {c : Char} (h : LiteralChar c) : plain c = c := by
  have hn := literalChar_toNat h
  rw [plain, if_pos (by omega)]

theorem dropWhile_isBlank {t : Text} (h : ∀ c ∈ t, LiteralChar c) : t.dropWhile Text.isBlank = t := by
  cases t with
  | nil => rfl
  | cons c t =>
    have hn := literalChar_toNat (h c List.mem_cons_self)
    have hb := Text.isBlank_eq_false (by omega : 32 < c.toNat)
    simp [hb]

theorem strip_of_literalChar {t : Text} (h : ∀ c ∈ t, LiteralChar c) : strip t = t := by
  have hr : ∀ c ∈ t.reverse, LiteralChar c := fun c hc => h c (List.mem_reverse.mp hc)
  rw [strip, dropWhile_isBlank h, dropWhile_isBlank hr, List.reverse_reverse]

theorem joined_of_literalChar {t : Text} (h : ∀ c ∈ t, LiteralChar c) (after : Bool) :
    joined after t = some t := by
  induction t generalizing after with
  | nil => rfl
  | cons c t ih =>
    obtain ⟨hc, ht⟩ := List.forall_mem_cons.mp h
    have hne : c ≠ '_' := by
      intro he
      have hn := literalChar_toNat hc
      subst he
      exact absurd hn (by decide)
    rw [joined.eq_3 _ _ _ hne, ih ht]
    rfl

theorem splitSign_of_digits {ds : Text} (h : Digits ds) (rest : Text) :
    splitSign (ds ++ rest) = (false, ds ++ rest) := by
  obtain ⟨hne, hd⟩ := h
  cases ds with
  | nil => exact absurd rfl hne
  | cons c ds =>
    have hs := isSign_of_isDigit (hd c List.mem_cons_self)
    simp only [isSign, Bool.or_eq_false_iff, beq_eq_false_iff_ne] at hs
    exact splitSign.eq_3 _ (by simpa using hs.2) (by simpa using hs.1)

theorem exponent?_mark {mark : Char} {ds rest : Text} {negative : Bool} (hm : isMark mark)
    (hd : Digits ds) (hs : splitSign rest = (negative, ds)) :
    exponent? (mark :: rest) = some (if negative then -(value ds : Int) else value ds) := by
  have hdigits : ds.isEmpty = false ∧ ds.all Text.isDigit = true := by
    simpa [Digits] using hd
  have hmark : (mark == 'e' || mark == 'E') = true := hm
  simp [exponent?, hs, hdigits, hmark]

theorem exponent?_isSome {e : Text} (h : ExponentPart e) : (exponent? e).isSome := by
  rcases h with rfl | ⟨mark, sign, ds, hm, hs, hd, rfl⟩
  · rfl
  · have hsplit : ∃ negative, splitSign (sign ++ ds) = (negative, ds) := by
      rcases hs with rfl | ⟨c, hc, rfl⟩
      · exact ⟨false, by simpa using splitSign_of_digits hd []⟩
      · simp only [isSign, Bool.or_eq_true, beq_iff_eq] at hc
        rcases hc with rfl | rfl
        · exact ⟨false, rfl⟩
        · exact ⟨true, rfl⟩
    obtain ⟨negative, hsplit⟩ := hsplit
    rw [exponent?_mark hm hd hsplit, Option.isSome_some]

theorem exponentPart_head {e : Text} (h : ExponentPart e) :
    ∀ c ∈ e.head?, Text.isDigit c = false ∧ c ≠ '.' := by
  intro c hc
  cases e with
  | nil => simp at hc
  | cons d e =>
    obtain rfl : d = c := by simpa using hc
    have hm := (exponentPart_cons.mp h).1
    simp only [isMark, Bool.or_eq_true, beq_iff_eq] at hm
    rcases hm with rfl | rfl <;> decide

/-- The decimal of a literal, from its parts. The point is not one of the digits behind it. -/
theorem decimal?_append {whole fraction exponent : Text} (hw : Digits whole)
    (hf : FractionPart fraction) (he : ExponentPart exponent) :
    decimal? (whole ++ fraction ++ exponent) = (exponent? exponent).map fun e =>
      ⟨value (whole ++ fraction.drop 1), e - (fraction.drop 1).length⟩ := by
  have hne : whole.isEmpty = false := by simpa using hw.1
  have hhead := exponentPart_head he
  rcases hf with rfl | ⟨ds, hd, rfl⟩
  · obtain ⟨ht, hdrop⟩ := Text.span_append hw.2 fun c hc => (hhead c hc).1
    simp only [List.append_nil, decimal?, ht, hdrop]
    split
    · exact absurd rfl (hhead '.' rfl).2
    · simp [hne]
  · have hpoint : ∀ c ∈ ('.' :: (ds ++ exponent)).head?, Text.isDigit c = false := by
      intro c hc
      obtain rfl : '.' = c := by simpa using hc
      rfl
    obtain ⟨ht, hdrop⟩ := Text.span_append hw.2 hpoint
    obtain ⟨ht', hdrop'⟩ := Text.span_append hd.2 fun c hc => (hhead c hc).1
    simp only [List.append_assoc, List.cons_append, decimal?, ht, hdrop, ht', hdrop']
    simp [hne]

theorem decimal?_isSome {w : Text} (h : NumberLiteral w) : (decimal? w).isSome := by
  obtain ⟨whole, fraction, exponent, hw, hf, he, rfl⟩ := h
  rw [decimal?_append hw hf he, Option.isSome_map]
  exact exponent?_isSome he

theorem toLower_of_isDigit {c : Char} (h : Text.isDigit c) : c.toLower = c := by
  have hc := (Text.isDigit_iff c).mp h
  simp only [Char.toLower]
  split
  · rename_i hu
    have hA : 65 ≤ c.toNat := hu.1
    omega
  · rfl

theorem magnitude?_of_literal {w : Text} (h : NumberLiteral w) :
    magnitude? w = (decimal? w).map Decimal.toFloat := by
  -- the words for infinity and for no number start with a letter
  have hword : ∀ c rest, Text.isDigit c = false → w.map Char.toLower ≠ c :: rest := by
    obtain ⟨whole, fraction, exponent, hw, -, -, rfl⟩ := h
    intro c rest hc he
    cases whole with
    | nil => exact hw.1 rfl
    | cons d whole =>
      have hd := hw.2 d List.mem_cons_self
      rw [List.cons_append, List.cons_append, List.map_cons, toLower_of_isDigit hd] at he
      rw [(List.cons.inj he).1, hc] at hd
      cases hd
  have hinf : w.map Char.toLower ≠ "inf".toList := hword 'i' ['n', 'f'] rfl
  have hinfinity : w.map Char.toLower ≠ "infinity".toList :=
    hword 'i' ['n', 'f', 'i', 'n', 'i', 't', 'y'] rfl
  have hnan : w.map Char.toLower ≠ "nan".toList := hword 'n' ['a', 'n'] rfl
  have hcond : (decide (w.map Char.toLower = "inf".toList)
      || decide (w.map Char.toLower = "infinity".toList)) = false := by
    rw [decide_eq_false hinf, decide_eq_false hinfinity, Bool.or_false]
  unfold magnitude?
  dsimp only
  rw [hcond, if_neg Bool.false_ne_true, if_neg hnan]

/-- A number literal is read as the float of its decimal. -/
theorem read?_of_literal {w : Text} (h : NumberLiteral w) :
    read? w = (decimal? w).map Decimal.toFloat := by
  have hc := h.literalChar
  have hplain : w.map plain = w := by
    rw [List.map_congr_left fun c h => plain_of_literalChar (hc c h), List.map_id']
  have hsplit : splitSign w = (false, w) := by
    obtain ⟨whole, fraction, exponent, hw, -, -, rfl⟩ := h
    rw [List.append_assoc]
    exact splitSign_of_digits hw _
  obtain ⟨d, hd⟩ := Option.isSome_iff_exists.mp (decimal?_isSome h)
  simp [read?, hplain, strip_of_literalChar hc, joined_of_literalChar hc, hsplit,
    magnitude?_of_literal h, hd]

theorem read?_isSome {w : Text} (h : NumberLiteral w) : (read? w).isSome := by
  rw [read?_of_literal h, Option.isSome_map]
  exact decimal?_isSome h

end Numeral

end Calculator
