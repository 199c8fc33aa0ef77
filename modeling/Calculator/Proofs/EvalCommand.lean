import Calculator.Command
import Calculator.Proofs.Marking
import Calculator.Proofs.ReadBack

/-! How evaluation on the command line ends, once its settings are accepted. It prints one line for
each result or reports the error of the source. There is one more way: the settings accept every
precision, but a result can only be written with one that fits into a signed word of 32 bits. -/

set_option autoImplicit false

namespace Calculator

section Written

theorem NumberLiteral.visible {w : Text} (h : NumberLiteral w) : w.Visible := by
  rw [Text.visible_iff]
  intro c hc
  have hbounds := literalChar_toNat (h.literalChar c hc)
  omega

theorem Layout.visible_signed {t : Text} (h : t.Visible) (negative : Bool) :
    (Layout.signed negative t).Visible := by
  unfold Layout.signed
  split
  · exact .cons (by decide) h
  · exact h

theorem Layout.visible_shown (x : Float) : (Layout.shown.write x).Visible := by
  unfold Layout.write
  split
  · decide
  · split <;> decide
  · apply Layout.visible_signed
    split
    · decide
    · exact (denotes_writeDecimal Layout.shown _).1.visible

theorem visible_fixedMagnitude (places mantissa : Nat) (exponent : Int) :
    (fixedMagnitude places mantissa exponent).Visible := by
  have hdigits (n : Nat) := (Text.visible_ofNat n).zeroPad (places + 1)
  unfold fixedMagnitude
  apply Text.Visible.append
  · exact (hdigits _).subset (List.take_subset _ _)
  · split
    · rfl
    · exact .cons (by decide) ((hdigits _).subset (List.drop_subset _ _))

theorem visible_fixedPlaces (places : Nat) (x : Float) : (fixedPlaces places x).Visible := by
  unfold fixedPlaces
  split
  · decide
  · exact Layout.visible_signed (by decide) _
  · exact Layout.visible_signed (visible_fixedMagnitude _ _ _) _

end Written

namespace Settings

/-- The precision fits into a signed word of 32 bits, if there is one. -/
def Fits (s : Settings) : Prop := ∀ p ∈ s.precision, p < 2 ^ 31

theorem not_isLong {p : Nat} (h : p < 2 ^ 63) : Value.isLong p = false := by
  have hlarge : 2 ^ 63 ≤ Nat.pow 10 Value.digitLimit := by decide +kernel
  rw [Value.isLong, decide_eq_false_iff_not, Int.natAbs_natCast]
  omega

theorem formatNumber_natCast {p : Nat} (h : p < 2 ^ 63) (x : Float) :
    formatNumber (some p) x =
      if 2 ^ 31 ≤ p then .error .precisionTooBig else .ok (fixedPlaces p x) := by
  have hword : ¬ wordBound ≤ (p : Int) := by
    unfold wordBound
    omega
  rw [formatNumber, not_isLong h, if_neg Bool.false_ne_true, if_neg (by omega), if_neg hword,
    Int.toNat_natCast]
  apply ite_congr
  · rw [eq_iff_iff]
    omega
  · intro _
    rfl
  · intro _
    rfl

theorem format_of_fits {s : Settings} (h : s.Fits) (x : Float) :
    ∃ row, s.format x = .ok row ∧ row.Visible := by
  obtain ⟨constants, precision⟩ := s
  cases precision with
  | none => exact ⟨_, rfl, Layout.visible_shown x⟩
  | some p =>
    have hp : p < 2 ^ 31 := h p rfl
    refine ⟨fixedPlaces p x, ?_, visible_fixedPlaces p x⟩
    exact (formatNumber_natCast (by omega) x).trans (if_neg (by omega))

theorem format_of_not_fits {s : Settings} (h : ¬ s.Fits) (x : Float) :
    ∃ e, s.format x = .error e := by
  obtain ⟨constants, precision⟩ := s
  cases precision with
  | none =>
    refine absurd ?_ h
    intro p hp
    cases hp
  | some p =>
    have hp : ¬ p < 2 ^ 31 := by
      intro hlt
      apply h
      intro q hq
      cases hq
      exact hlt
    change ∃ e, formatNumber (some (p : Int)) x = .error e
    unfold formatNumber
    dsimp only
    split
    · exact ⟨_, rfl⟩
    · rw [if_neg (by omega)]
      split
      · exact ⟨_, rfl⟩
      · rw [if_pos (by omega)]
        exact ⟨_, rfl⟩

end Settings

/-- A source has at most one result. -/
theorem Source.values_of_evaluate {source : Text} {symbols : Symbols} {values : List Float}
    (h : (evaluate source symbols).1 = .ok values) : values = [] ∨ ∃ x, values = [x] := by
  rcases parse_cases source with ⟨e, he, -⟩ | ⟨-, hparse⟩ | ⟨s, hd, -, hparse⟩
  · simp only [evaluate, he] at h
    cases h
  · simp only [evaluate, hparse, run_nil] at h
    exact Or.inl (Except.ok.inj h).symm
  · rcases run_statement hd (by decide : 197 ≤ Tree.walkLimit) symbols with
      ⟨value, symbols', hv⟩ | ⟨name, l, he⟩
    · simp only [evaluate, hparse, hv] at h
      exact Or.inr ⟨value, (Except.ok.inj h).symm⟩
    · simp only [evaluate, hparse, he] at h
      cases h

namespace Command

section ResultLines
variable {s : Settings}

theorem resultLines_of_fits (h : s.Fits) (values : List Float) :
    ∃ rows, List.Forall₂ (fun x row => s.format x = .ok row ∧ '\n' ∉ row) values rows ∧
      resultLines s values = .ok (rows.flatMap (· ++ ['\n'])) := by
  induction values with
  | nil => exact ⟨[], .nil, rfl⟩
  | cons x values ih =>
    obtain ⟨row, hrow, hvisible⟩ := Settings.format_of_fits h x
    obtain ⟨rows, hrows, hlines⟩ := ih
    refine ⟨row :: rows, .cons ⟨hrow, hvisible.notMem (by decide)⟩ hrows, ?_⟩
    rw [resultLines, hrow, hlines, List.flatMap_cons, List.append_assoc]
    rfl

theorem resultLines_of_error {x : Float} {e : FormatError} (h : s.format x = .error e)
    (values : List Float) : resultLines s (x :: values) = .error e := by
  rw [resultLines, h]
  rfl

end ResultLines

/-- How the evaluation of a source ends under settings. The log stands in front of a report. -/
inductive Ends (settings : Settings) (source log : Text) : Outcome → Prop
  | printed {values : List Float} {rows : List Text} :
      (Source.evaluate source settings.symbols).1 = .ok values →
      List.Forall₂ (fun x row => settings.format x = .ok row ∧ '\n' ∉ row) values rows →
      Ends settings source log ⟨0, rows.flatMap (· ++ ['\n']), log, none⟩
  | reported {e : SourceError} {r : Report} {message : Text} :
      (Source.evaluate source settings.symbols).1 = .error e → e.report? = some r →
      message = Text.withoutControls (r.inSource source) →
      ('\x1b' ∉ source → message = r.inSource source) →
      Ends settings source log ⟨1, [], log ++ message ++ ['\n'], none⟩
  | broken {x : Float} {e : FormatError} :
      (Source.evaluate source settings.symbols).1 = .ok [x] → ¬ settings.Fits →
      settings.format x = .error e → Ends settings source log ⟨1, [], log, some (.format e)⟩

section Ends
variable {settings : Settings} {source : Text}

/-- Every error of a source has a report. Escape characters in it come from the source. -/
theorem ends_ofSourceError {e : SourceError} (log : Text)
    (h : (Source.evaluate source settings.symbols).1 = .error e) :
    Ends settings source log (.ofSourceError log source e) := by
  obtain ⟨fault, passed, c, ahead, hreport, hsource, hconcerns⟩ := Source.points_of_error h
  rw [Outcome.ofSourceError, hreport]
  refine .reported h hreport rfl ?_
  intro hescape
  have hc : c ≠ '\n' := by
    rintro rfl
    exact absurd hconcerns.isBlank (by decide)
  obtain ⟨row, hrow, -⟩ := Text.exists_line_at passed ahead hc
  rw [← hsource] at hrow
  apply Text.withoutControls_of_notMem
  exact Report.notMem_inSource hconcerns.quoting hrow (by decide) (by decide) hescape

theorem ends_evaluate {path : Text} {content : FileContent} (verbose : Bool) (source : Text)
    (h : content.settings path = .ok settings) :
    Ends settings source (logOf verbose (Event.ofSettings path content settings ++
      Event.ofEvaluate source settings.symbols)) (evaluate verbose path content source) := by
  simp only [evaluate, h]
  split
  · rename_i e he
    exact ends_ofSourceError _ he
  · rename_i values hvalues
    by_cases hfits : settings.Fits
    · obtain ⟨rows, hrows, hlines⟩ := resultLines_of_fits hfits values
      rw [hlines]
      exact .printed hvalues hrows
    · rcases Source.values_of_evaluate hvalues with rfl | ⟨x, rfl⟩
      · exact .printed hvalues .nil
      · obtain ⟨e, he⟩ := Settings.format_of_not_fits hfits x
        rw [resultLines_of_error he]
        exact .broken hvalues hfits he

theorem Ends.escape_isSome_iff {log : Text} {outcome : Outcome}
    (h : Ends settings source log outcome) : outcome.escape.isSome ↔
      ¬ settings.Fits ∧ ∃ x, (Source.evaluate source settings.symbols).1 = .ok [x] := by
  cases h with
  | printed hvalues hrows =>
    refine iff_of_false Bool.false_ne_true ?_
    rintro ⟨hfits, x, hx⟩
    obtain rfl := Except.ok.inj (hvalues.symm.trans hx)
    obtain ⟨row, -, ⟨hrow, -⟩, -⟩ := List.forall₂_cons_left_iff.mp hrows
    obtain ⟨e, he⟩ := Settings.format_of_not_fits hfits x
    rw [hrow] at he
    cases he
  | reported he =>
    refine iff_of_false Bool.false_ne_true ?_
    rintro ⟨-, x, hx⟩
    rw [he] at hx
    cases hx
  | broken hx hfits => exact iff_of_true rfl ⟨hfits, _, hx⟩

end Ends

/-- With settings that are accepted, evaluation prints each result on a line of its own, or reports
the error of the source and prints nothing. It breaks off exactly if there is a result and the
precision does not fit into a signed word of 32 bits. -/
theorem eval_prints_reports_or_breaks (verbose : Bool) (directory : Text)
    (found : Option Text → FileContent) (given : Option Text) (words : List Text)
    (settings : Settings) (h : (found given).settings (settingsPath directory given) = .ok settings) :
    ∃ log, (verbose = false → log = []) ∧
      Ends settings ([' '].intercalate words) log
        ((Command.eval given words).run verbose directory found) ∧
      (((Command.eval given words).run verbose directory found).escape.isSome ↔
        ¬ settings.Fits ∧
          ∃ x, (Source.evaluate ([' '].intercalate words) settings.symbols).1 = .ok [x]) := by
  have hends := ends_evaluate verbose (sourceOf words) h
  refine ⟨_, ?_, hends, hends.escape_isSome_iff⟩
  rintro rfl
  rfl

/-- A constant is printed, and an unknown name is reported. -/
theorem eval_prints_constant :
    FileContent.missing.settings (settingsPath [] none) = .ok .default ∧
    Ends .default "x = PI".toList []
      ((Command.eval none [['x'], ['='], ['P', 'I']]).run false [] fun _ => .missing) ∧
    ((Command.eval none [['x'], ['='], ['P', 'I']]).run false [] fun _ => .missing).output =
      "3.141592653589793\n".toList ∧
    Ends .default "y".toList [] ((Command.eval none [['y']]).run false [] fun _ => .missing) ∧
    ((Command.eval none [['y']]).run false [] fun _ => .missing).exitCode = 1 := by
  have hsettings : FileContent.missing.settings (settingsPath [] none) = .ok .default := rfl
  obtain ⟨log, hlog, hprinted, -⟩ := eval_prints_reports_or_breaks false [] (fun _ => .missing) none
    [['x'], ['='], ['P', 'I']] .default hsettings
  obtain ⟨log', hlog', hreported, -⟩ := eval_prints_reports_or_breaks false [] (fun _ => .missing)
    none [['y']] .default hsettings
  rw [hlog rfl] at hprinted
  rw [hlog' rfl] at hreported
  exact ⟨hsettings, hprinted, by decide +kernel, hreported, by decide +kernel⟩

/-- The settings accept a precision with which not even infinity can be written. -/
theorem eval_breaks_at_wide_precision :
    (FileContent.bytes "[output]\nprecision = 2147483648\n".toUTF8).settings
      (settingsPath [] none) = .ok ⟨[], some 2147483648⟩ ∧
    (Command.eval none ["1e999".toList]).run false []
      (fun _ => .bytes "[output]\nprecision = 2147483648\n".toUTF8) =
        .broken [] (.format .precisionTooBig) := by
  have hsettings : (FileContent.bytes "[output]\nprecision = 2147483648\n".toUTF8).settings
      (settingsPath [] none) = .ok ⟨[], some 2147483648⟩ := by
    -- failures cannot be compared, settings can
    have hread : ((FileContent.bytes "[output]\nprecision = 2147483648\n".toUTF8).settings
        (settingsPath [] none)).toOption = some ⟨[], some 2147483648⟩ := by decide +kernel
    cases hs : (FileContent.bytes "[output]\nprecision = 2147483648\n".toUTF8).settings
        (settingsPath [] none) with
    | error failure =>
      rw [hs] at hread
      cases hread
    | ok settings =>
      rw [hs] at hread
      exact congrArg Except.ok (Option.some.inj hread)
  have hvalues : (Source.evaluate "1e999".toList (Settings.symbols ⟨[], some 2147483648⟩)).1 =
      .ok [Operator.infinity] := by decide +kernel
  have hformat : Settings.format ⟨[], some 2147483648⟩ Operator.infinity =
      .error .precisionTooBig := Settings.formatNumber_natCast (by decide) Operator.infinity
  have hsource : sourceOf ["1e999".toList] = "1e999".toList := by
    rw [sourceOf, Text.join, List.intercalate_singleton]
  refine ⟨hsettings, ?_⟩
  simp only [run, evaluate, hsource, hsettings, hvalues, resultLines_of_error hformat, logOf,
    if_neg Bool.false_ne_true]

end Command

end Calculator
