import Calculator.Proofs.Place
import Calculator.Report

/-! Lines and marks. The place behind the front part of a text is a line of the text and a column
of that line, and a report in a source has four lines: the fault, the place in words, the source
line, and a mark below the character at the place. -/

set_option autoImplicit false

namespace Calculator

namespace Text

theorem lines_newline (t : Text) : lines ('\n' :: t) = [] :: lines t := by
  rw [lines, List.splitOn_cons_eq_if_modifyHead, if_pos (BEq.rfl)]
  rfl

theorem lines_cons {c : Char} (hc : c ≠ '\n') (t : Text) :
    lines (c :: t) = (lines t).modifyHead (c :: ·) := by
  rw [lines, List.splitOn_cons_eq_if_modifyHead, if_neg (by simpa using hc)]
  rfl

theorem mem_of_mem_lines {t row : Text} (h : row ∈ lines t) : ∀ c ∈ row, c ∈ t ∧ c ≠ '\n' := by
  induction t generalizing row with
  | nil =>
    rw [List.mem_singleton.mp h]
    exact List.forall_mem_nil _
  | cons c t ih =>
    have hrest {part : Text} (hpart : part ∈ lines t) : ∀ d ∈ part, d ∈ c :: t ∧ d ≠ '\n' := by
      intro d hd
      exact ⟨List.mem_cons_of_mem c (ih hpart d hd).1, (ih hpart d hd).2⟩
    obtain ⟨first, more, ht⟩ := List.exists_cons_of_ne_nil (List.splitOn_ne_nil '\n' t)
    change lines t = first :: more at ht
    by_cases hc : c = '\n'
    · subst hc
      rw [lines_newline] at h
      rcases List.mem_cons.mp h with rfl | h
      · exact List.forall_mem_nil _
      · exact hrest h
    · rw [lines_cons hc, ht, List.modifyHead_cons] at h
      rcases List.mem_cons.mp h with rfl | h
      · have hfirst := hrest (ht ▸ List.mem_cons_self)
        exact List.forall_mem_cons.mpr ⟨⟨List.mem_cons_self, hc⟩, hfirst⟩
      · exact hrest (ht ▸ List.mem_cons_of_mem first h)

theorem newline_notMem_of_mem_lines {t row : Text} (h : row ∈ lines t) : '\n' ∉ row := by
  intro hmem
  exact (mem_of_mem_lines h '\n' hmem).2 rfl

/-- What is passed of a text is whole lines and the start of the next one, as many and as long as
the place behind it says. -/
theorem exists_lines_append (passed : Text) :
    ∃ rows start, Location.after passed = ⟨rows.length, start.length⟩ ∧
      ∀ t, lines (passed ++ t) = rows ++ (lines t).modifyHead (start ++ ·) := by
  induction passed using List.reverseRecOn with
  | nil => exact ⟨[], [], rfl, fun t => (congrFun List.modifyHead_id _).symm⟩
  | append_singleton passed c ih =>
    obtain ⟨rows, start, hplace, hlines⟩ := ih
    by_cases hc : c = '\n'
    · subst hc
      refine ⟨rows ++ [start], [], ?_, fun t => ?_⟩
      · rw [Location.after_concat_newline, hplace, List.length_append]
        rfl
      · have hstart : (lines t).modifyHead ([] ++ ·) = lines t := congrFun List.modifyHead_id _
        rw [List.append_assoc, List.singleton_append, hlines, lines_newline, hstart]
        simp
    · refine ⟨rows, start ++ [c], ?_, fun t => ?_⟩
      · rw [Location.after_concat hc, hplace, List.length_append]
        rfl
      · rw [List.append_assoc, List.singleton_append, hlines, lines_cons hc,
          List.modifyHead_modifyHead]
        simp [Function.comp_def]

/-- The character behind what is passed stands in the line and the column of that place. -/
theorem exists_line_at (passed ahead : Text) {c : Char} (hc : c ≠ '\n') :
    ∃ row, (lines (passed ++ c :: ahead))[(Location.after passed).line]? = some row ∧
      row[(Location.after passed).column]? = some c := by
  obtain ⟨rows, start, hplace, hlines⟩ := exists_lines_append passed
  obtain ⟨first, more, hahead⟩ : ∃ first more, lines ahead = first :: more :=
    List.exists_cons_of_ne_nil (List.splitOn_ne_nil '\n' ahead)
  refine ⟨start ++ c :: first, ?_, ?_⟩
  · rw [hlines, lines_cons hc, hahead, hplace]
    simp
  · rw [hplace]
    simp

/-- A text without control characters, line ends among them. -/
def Visible (t : Text) : Prop := t.all fun c => 0x20 ≤ c.toNat

instance : DecidablePred Visible := fun _ => inferInstanceAs (Decidable (_ = true))

section Visible

theorem visible_iff {t : Text} : t.Visible ↔ ∀ c ∈ t, 0x20 ≤ c.toNat := by
  rw [Visible, List.all_eq_true]
  simp only [decide_eq_true_eq]

theorem Visible.notMem {t : Text} {c : Char} (h : t.Visible) (hc : c.toNat < 0x20) : c ∉ t := by
  intro hmem
  have hle := visible_iff.mp h c hmem
  omega

theorem Visible.subset {t u : Text} (h : t.Visible) (hsub : u ⊆ t) : u.Visible := by
  rw [visible_iff] at h ⊢
  intro c hc
  exact h c (hsub hc)

theorem Visible.append {t u : Text} (ht : t.Visible) (hu : u.Visible) : (t ++ u).Visible := by
  rw [visible_iff] at ht hu ⊢
  exact List.forall_mem_append.mpr ⟨ht, hu⟩

theorem Visible.cons {c : Char} {t : Text} (hc : 0x20 ≤ c.toNat) (ht : t.Visible) :
    Visible (c :: t) := by
  rw [visible_iff] at ht ⊢
  exact List.forall_mem_cons.mpr ⟨hc, ht⟩

theorem visible_replicate {c : Char} (hc : 0x20 ≤ c.toNat) (n : Nat) :
    Visible (List.replicate n c) := by
  rw [visible_iff]
  intro d hd
  rw [List.eq_of_mem_replicate hd]
  exact hc

theorem visible_digitChar (n : Nat) : 0x20 ≤ n.digitChar.toNat := by
  by_cases hn : n < 16
  · have hall : ∀ k < 16, 0x20 ≤ k.digitChar.toNat := by decide
    exact hall n hn
  · rw [Nat.digitChar_eq_star.mpr (by omega)]
    decide

theorem visible_toDigits {b : Nat} (hb : 1 < b) (n : Nat) : Visible (Nat.toDigits b n) := by
  induction n using Nat.strongRecOn with
  | ind n ih =>
    rw [Nat.toDigits_eq_if hb]
    split
    · exact .cons (visible_digitChar n) rfl
    · exact (ih (n / b) (Nat.div_lt_self (by omega) hb)).append (.cons (visible_digitChar _) rfl)

theorem visible_ofNat (n : Nat) : Visible (ofNat n) := visible_toDigits (by omega) n

theorem visible_ofInt (i : Int) : Visible (ofInt i) := by
  cases i with
  | ofNat n => exact visible_ofNat n
  | negSucc n => exact .cons (by decide) (visible_ofNat (n + 1))

theorem Visible.alignRight {t : Text} (h : t.Visible) (width : Nat) :
    Visible (alignRight width t) :=
  (visible_replicate (by decide) _).append h

theorem Visible.zeroPad {t : Text} (h : t.Visible) (width : Nat) : Visible (zeroPad width t) :=
  (visible_replicate (by decide) _).append h

theorem visible_hex (width n : Nat) : Visible (hex width n) :=
  (visible_toDigits (by omega) n).zeroPad width

theorem visible_of_isPrintable {c : Char} (h : isPrintable c) : 0x20 ≤ c.toNat := by
  unfold isPrintable at h
  split at h
  · exact of_decide_eq_true h
  · omega

theorem visible_escape {quote : Char} (hq : 0x20 ≤ quote.toNat) (c : Char) :
    Visible (escape quote c) := by
  unfold escape
  split_ifs with hquote hn hr ht hprintable hx hu
  · rw [Bool.or_eq_true, beq_iff_eq, beq_iff_eq] at hquote
    rcases hquote with rfl | rfl
    · exact .cons (by decide) (.cons hq rfl)
    · decide
  · decide
  · decide
  · decide
  · exact .cons (visible_of_isPrintable hprintable) rfl
  · exact .cons (by decide) (.cons (by decide) (visible_hex 2 _))
  · exact .cons (by decide) (.cons (by decide) (visible_hex 4 _))
  · exact .cons (by decide) (.cons (by decide) (visible_hex 8 _))

/-- A quoted text stays on one line. -/
theorem visible_quoted (t : Text) : Visible (quoted t) := by
  have hq : 0x20 ≤ (quoteOf t).toNat := by
    unfold quoteOf
    split <;> decide
  have hbody : Visible (t.flatMap (escape (quoteOf t))) := by
    rw [visible_iff]
    intro c hc
    obtain ⟨d, -, hd⟩ := List.mem_flatMap.mp hc
    exact visible_iff.mp (visible_escape hq d) c hd
  exact .cons hq (hbody.append (.cons hq rfl))

end Visible

end Text

/-- The faults that quote the source, and do not bring a text of their own. -/
def Fault.Quoting : Fault → Prop
  | .plain _ _ | .unimplemented _ => False
  | _ => True

theorem Fault.visible_kind (fault : Fault) : fault.kind.Visible := by
  unfold kind
  split <;> decide

theorem Fault.Quoting.visible_message {fault : Fault} (h : fault.Quoting) :
    fault.message.Visible := by
  cases fault with
  | plain => cases h
  | unimplemented => cases h
  | invalidNumber | unexpectedEnd | nestingTooDeep => decide
  | unrecognizedCharacter | unexpectedToken | expectedClose =>
    exact .append (by decide) (Text.visible_quoted _)
  | symbolNotFound name =>
    exact .append (.append (by decide) (Text.visible_quoted name)) (by decide)

namespace Report

/-- The line with the mark below a place. -/
def markLine (l : Location) : Text :=
  List.replicate ((Context.ofLocation l).margin.length + l.column) ' ' ++ "^^^".toList

theorem idxOf_markLine (l : Location) :
    (markLine l).idxOf '^' = (Context.ofLocation l).margin.length + l.column := by
  rw [markLine, List.idxOf_append_of_notMem (by simp), List.length_replicate]
  rfl

/-- A shown source line stands between the place in words and the mark. -/
theorem text_of_snippet (l : Location) (row : Text) :
    { Context.ofLocation l with snippet := some row }.text = (Context.ofLocation l).text ++
      '\n' :: ((Context.ofLocation l).margin ++ row ++ '\n' :: markLine l) := by
  have hblanks : ((Context.ofLocation l).margin.length + (Context.ofLocation l).column).toNat =
      (Context.ofLocation l).margin.length + l.column := Int.toNat_natCast _
  have hmarked : (Context.ofLocation l).marked row =
      (Context.ofLocation l).margin ++ row ++ '\n' :: markLine l := by
    rw [Context.marked, hblanks, List.append_assoc]
    rfl
  rw [← hmarked]
  rfl

theorem visible_margin (c : Context) : c.margin.Visible :=
  ((Text.visible_ofInt c.line).alignRight 4).append (by decide)

theorem visible_place (l : Location) : (Context.ofLocation l).text.Visible := by
  have hline := Text.visible_ofInt (Context.ofLocation l).line
  have hcolumn := Text.visible_ofInt (Context.ofLocation l).column
  exact .append (.append (.append (by decide) hline) (by decide)) hcolumn

theorem visible_headline {fault : Fault} (h : fault.Quoting) (l : Location) :
    (fault.reportAt l).headline.Visible :=
  .append (.append fault.visible_kind (by decide)) h.visible_message

theorem visible_markLine (l : Location) : (markLine l).Visible :=
  (Text.visible_replicate (by decide) _).append (by decide)

section InSource
variable {fault : Fault} {l : Location} {source row : Text}

theorem inSource_eq (hrow : (Text.lines source)[l.line]? = some row) :
    (fault.reportAt l).inSource source = Text.join ['\n']
      [(fault.reportAt l).headline, (Context.ofLocation l).text,
        (Context.ofLocation l).margin ++ row, markLine l] := by
  have hfound : (Context.ofLocation l).lineIn? source = some row := by
    rw [Context.lineIn?, if_neg (by simp [Context.ofLocation])]
    exact hrow
  simp only [inSource, Fault.reportAt, hfound, text_of_snippet]
  simp [Text.join, List.intercalate]

/-- The four lines of a report in a source. -/
theorem lines_inSource (hfault : fault.Quoting) (hrow : (Text.lines source)[l.line]? = some row) :
    Text.lines ((fault.reportAt l).inSource source) =
      [(fault.reportAt l).headline, (Context.ofLocation l).text,
        (Context.ofLocation l).margin ++ row, markLine l] := by
  rw [inSource_eq hrow, Text.join, Text.lines,
    List.splitOn_intercalate '\n' ?_ (List.cons_ne_nil _ _)]
  simp only [List.forall_mem_cons]
  refine ⟨?_, ?_, ?_, ?_, List.forall_mem_nil _⟩
  · exact (visible_headline hfault l).notMem (by decide)
  · exact (visible_place l).notMem (by decide)
  · exact List.not_mem_append ((visible_margin _).notMem (by decide))
      (Text.newline_notMem_of_mem_lines (List.mem_of_getElem? hrow))
  · exact (visible_markLine l).notMem (by decide)

/-- Control characters in a report come from the source line. -/
theorem notMem_inSource {c : Char} (hfault : fault.Quoting)
    (hrow : (Text.lines source)[l.line]? = some row) (hc : c.toNat < 0x20) (hne : c ≠ '\n')
    (hsource : c ∉ source) : c ∉ (fault.reportAt l).inSource source := by
  have hheadline := (visible_headline hfault l).notMem hc
  have hplace := (visible_place l).notMem hc
  have hmargin := (visible_margin (Context.ofLocation l)).notMem hc
  have hmark := (visible_markLine l).notMem hc
  have hline : c ∉ row := by
    intro hmem
    exact hsource (Text.mem_of_mem_lines (List.mem_of_getElem? hrow) c hmem).1
  rw [inSource_eq hrow]
  simp [Text.join, List.intercalate, hheadline, hplace, hmargin, hmark, hline, hne]

end InSource

end Report

end Calculator
