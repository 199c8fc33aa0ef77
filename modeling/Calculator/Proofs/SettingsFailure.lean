import Calculator.Proofs.ConstantNames
import Calculator.Proofs.Obstacle
import Calculator.Proofs.Overflow

/-! What becomes of settings documents. A document has settings, or something in it is wrong and
that is reported. There are two exceptions: an integer constant that is too large for a float, and
a wrong value that cannot be shown. -/

set_option autoImplicit false

namespace Calculator

namespace Settings

/-- The constants that a document sets: none, or those of an accepted table. -/
inductive ConstantsRead (document : Table) : List (Text × Float) → Prop
  | missing : Table.find? document "constants".toList = none → ConstantsRead document []
  | table {t : Table} {constants : List (Text × Float)} :
      Table.find? document "constants".toList = some (.table t) → constantsOf t = .ok constants →
      ConstantsRead document constants

/-- The precision that a document sets: none, or a natural number. -/
inductive PrecisionRead (document : Table) : Option Nat → Prop
  | missing : Table.find? document "output".toList = none → PrecisionRead document none
  | unset {t : Table} : Table.find? document "output".toList = some (.table t) →
      Table.find? t "precision".toList = none → PrecisionRead document none
  | set {t : Table} {n : Nat} : Table.find? document "output".toList = some (.table t) →
      Table.find? t "precision".toList = some (.integer n) → PrecisionRead document (some n)

/-- An entry in the table of constants, behind others that are accepted. -/
def Reaches (document : Table) (name : Text) (v : Value) : Prop :=
  ∃ lead rest constants, constantsOf lead = .ok constants ∧
    Table.find? document "constants".toList = some (.table (lead ++ (name, v) :: rest))

/-- The first thing that is wrong with a document. -/
inductive Wrong (document : Table) : SettingsError → Prop
  | constantsNoTable {v : Value} : Table.find? document "constants".toList = some v →
      (∀ t, v ≠ .table t) → Wrong document (.constantsNoTable v)
  | badName {name : Text} {v : Value} : Reaches document name v →
      ¬ TokenKind.identifier.Lexeme name → Wrong document (.badName name)
  | noNumber {name : Text} {v : Value} : Reaches document name v →
      TokenKind.identifier.Lexeme name → (∀ n, v ≠ .integer n) → (∀ x, v ≠ .float x) →
      Wrong document (.noNumber name v)
  | outputNoTable {v : Value} {constants : List (Text × Float)} :
      ConstantsRead document constants → Table.find? document "output".toList = some v →
      (∀ t, v ≠ .table t) → Wrong document (.outputNoTable v)
  | badPrecision {v : Value} {t : Table} {constants : List (Text × Float)} :
      ConstantsRead document constants → Table.find? document "output".toList = some (.table t) →
      Table.find? t "precision".toList = some v → (∀ n : Nat, v ≠ .integer n) →
      Wrong document (.badPrecision v)

/-- The first thing that is wrong with a document is an integer that no float comes near. -/
def Overflows (document : Table) : Prop :=
  ∃ name n, Reaches document name (.integer n) ∧ TokenKind.identifier.Lexeme name ∧
    2 ^ 1024 - 2 ^ 970 ≤ n.natAbs

/-- How the loading of a document may end. -/
inductive Ends (document : Table) : Except LoadFailure Settings → Prop
  | settings {s : Settings} : ConstantsRead document s.constants →
      PrecisionRead document s.precision →
      (∀ constant ∈ s.constants, TokenKind.identifier.Lexeme constant.1) → Ends document (.ok s)
  | reported {e : SettingsError} : Wrong document e →
      (∀ v, e.subject? = some v → v.nesting ≤ Value.showLimit ∧ ∀ n ∈ v.integers, ¬ Value.isLong n) →
      Ends document (.error (.invalid e))
  | overflow : Overflows document → Ends document (.error .integerOverflow)
  | longInteger {e : SettingsError} {v : Value} {n : Int} : Wrong document e →
      e.subject? = some v → n ∈ v.integers → Value.isLong n →
      Ends document (.error (.longInteger none))
  | tooDeep {e : SettingsError} {v : Value} : Wrong document e → e.subject? = some v →
      Value.showLimit < v.nesting → Ends document (.error .tooDeep)

variable {document : Table}

theorem floatOfInt?_eq_none_iff (n : Int) :
    floatOfInt? n = none ↔ 2 ^ 1024 - 2 ^ 970 ≤ n.natAbs := by
  rw [← nearestBits_eq_infinityBits_iff, floatOfInt?]
  simp

/-- Something wrong is reported, unless the value to blame cannot be shown. -/
theorem Ends.of_refuse {e : SettingsError} (h : Wrong document e) : Ends document (refuse e) := by
  unfold refuse
  cases hsubject : e.subject? with
  | none =>
    refine .reported h ?_
    intro v hv
    rw [hsubject] at hv
    cases hv
  | some v =>
    have hexplains := v.explains_obstacle? Value.showLimit
    rw [Option.bind_some]
    generalize v.obstacle? Value.showLimit = obstacle at hexplains
    cases hexplains with
    | clear hnesting hintegers =>
      refine .reported h ?_
      intro w hw
      rw [hsubject] at hw
      cases hw
      exact ⟨hnesting, fun n hn => Bool.eq_false_iff.mp (hintegers n hn)⟩
    | tooDeep hdeep => exact .tooDeep h hsubject hdeep
    | longInteger n hn hlong => exact .longInteger h hsubject hn hlong

section Entries

variable {lead table : Table} {constants : List (Text × Float)}

theorem constantsOf_append (h : constantsOf lead = .ok constants) (rest : Table) :
    constantsOf (lead ++ rest) = (constantsOf rest).map (constants ++ ·) := by
  induction lead generalizing constants with
  | nil =>
    cases h
    rw [List.nil_append]
    cases constantsOf rest <;> rfl
  | cons entry lead ih =>
    obtain ⟨key, value⟩ := entry
    obtain ⟨⟨_, x⟩, others, ⟨hkey, rfl, hx⟩, hlead, rfl⟩ :=
      List.forall₂_cons_left_iff.mp (constantsOf_eq_ok_iff.mp h)
    rw [List.cons_append, constantsOf_cons, if_pos hkey, hx, ih (constantsOf_eq_ok_iff.mpr hlead)]
    cases constantsOf rest <;> rfl

/-- The first value that is no number decides. -/
theorem constantsOf_of_failure {name : Text} {v : Value} {failure : LoadFailure}
    (hlead : constantsOf lead = .ok constants) (hname : isName name)
    (h : number name v = .error failure) (rest : Table) :
    constantsOf (lead ++ (name, v) :: rest) = .error failure := by
  rw [constantsOf_append hlead, constantsOf_cons, if_pos hname, h]
  rfl

theorem lexeme_of_constantsOf (h : constantsOf table = .ok constants) :
    ∀ constant ∈ constants, TokenKind.identifier.Lexeme constant.1 := by
  have hentries := constantsOf_eq_ok_iff.mp h
  clear h
  induction hentries with
  | nil => exact List.forall_mem_nil _
  | cons hentry _ ih =>
    obtain ⟨hname, hsame, -⟩ := hentry
    exact List.forall_mem_cons.mpr ⟨hsame ▸ isName_iff.mp hname, ih⟩

/-- A table is accepted, or there is a first entry that is not. -/
theorem constantsOf_cases (table : Table) : (∃ constants, constantsOf table = .ok constants) ∨
    ∃ lead name v rest constants, table = lead ++ (name, v) :: rest ∧
      constantsOf lead = .ok constants ∧ (isName name → ∀ x, number name v ≠ .ok x) := by
  induction table with
  | nil => exact Or.inl ⟨[], rfl⟩
  | cons entry rest ih =>
    obtain ⟨key, value⟩ := entry
    by_cases hentry : isName key ∧ ∃ x, number key value = .ok x
    · obtain ⟨hkey, x, hx⟩ := hentry
      have hcons (others : List (Text × Float)) (more : Table) (h : constantsOf more = .ok others) :
          constantsOf ((key, value) :: more) = .ok ((key, x) :: others) := by
        rw [constantsOf_cons, if_pos hkey, hx, h]
      rcases ih with ⟨others, h⟩ | ⟨lead, name, v, more, constants, rfl, hlead, hfail⟩
      · exact Or.inl ⟨_, hcons others rest h⟩
      · exact Or.inr ⟨(key, value) :: lead, name, v, more, _, rfl, hcons constants lead hlead, hfail⟩
    · exact Or.inr ⟨[], key, value, rest, [], rfl, rfl, fun hkey x hx => hentry ⟨hkey, x, hx⟩⟩

/-- A value is a number, or too large for one, or something else. -/
theorem number_cases (name : Text) (v : Value) : (∃ x, number name v = .ok x) ∨
    (∃ n, v = .integer n ∧ 2 ^ 1024 - 2 ^ 970 ≤ n.natAbs ∧
      number name v = .error .integerOverflow) ∨
    ((∀ n, v ≠ .integer n) ∧ (∀ x, v ≠ .float x) ∧ number name v = refuse (.noNumber name v)) := by
  cases v with
  | integer n =>
    cases hn : floatOfInt? n with
    | some x => exact Or.inl ⟨x, by rw [number, hn]⟩
    | none =>
      refine Or.inr (Or.inl ⟨n, rfl, (floatOfInt?_eq_none_iff n).mp hn, ?_⟩)
      rw [number, hn]
  | float x => exact Or.inl ⟨x, rfl⟩
  | text | boolean | date | clock | moment | array | table =>
    refine Or.inr (Or.inr ⟨?_, ?_, rfl⟩)
    · intro n h
      cases h
    · intro x h
      cases h

/-- A table of constants is accepted, or it fails as its first entry that is not accepted does. -/
theorem constantsOf_ends (hfind : Table.find? document "constants".toList = some (.table table)) :
    (∃ constants, constantsOf table = .ok constants) ∨
    (∃ e, Wrong document e ∧ constantsOf table = refuse e) ∨
    (Overflows document ∧ constantsOf table = .error .integerOverflow) := by
  rcases constantsOf_cases table with haccepted | ⟨lead, name, v, rest, constants, rfl, hlead, hfail⟩
  · exact Or.inl haccepted
  · have hreaches : Reaches document name v := ⟨lead, rest, constants, hlead, hfind⟩
    by_cases hname : isName name
    · have hl := isName_iff.mp hname
      rcases number_cases name v with ⟨x, hx⟩ | ⟨n, rfl, hn, hnumber⟩ | ⟨hint, hfloat, hnumber⟩
      · exact absurd hx (hfail hname x)
      · have hoverflows : Overflows document := ⟨name, n, hreaches, hl, hn⟩
        exact Or.inr (Or.inr ⟨hoverflows, constantsOf_of_failure hlead hname hnumber rest⟩)
      · obtain ⟨failure, hrefuse⟩ := exists_refuse_eq (.noNumber name v)
        refine Or.inr (Or.inl ⟨_, .noNumber hreaches hl hint hfloat, ?_⟩)
        rw [hrefuse] at hnumber ⊢
        exact constantsOf_of_failure hlead hname hnumber rest
    · obtain ⟨failure, hrefuse⟩ := exists_refuse_eq (.badName name)
      refine Or.inr (Or.inl ⟨_, .badName hreaches (mt isName_iff.mpr hname), ?_⟩)
      rw [constantsOf_append hlead, constantsOf_cons, if_neg hname, hrefuse]
      rfl

end Entries

/-- The constants of a document, before its output is looked at. -/
def constantsIn (document : Table) : Except LoadFailure (List (Text × Float)) :=
  match Table.find? document "constants".toList with
  | none => pure []
  | some (.table t) => constantsOf t
  | some v => refuse (.constantsNoTable v)

/-- The precision of a document, once its constants are accepted. -/
def precisionIn (document : Table) : Except LoadFailure (Option Nat) :=
  match Table.find? document "output".toList with
  | none => pure none
  | some (.table t) => precisionOf t
  | some v => refuse (.outputNoTable v)

theorem ofDocument_eq (document : Table) : ofDocument document =
    constantsIn document >>= fun constants =>
      precisionIn document >>= fun precision => pure ⟨constants, precision⟩ := by
  have houtput (constants : List (Text × Float)) :
      (match Table.find? document "output".toList with
        | none => pure none >>= fun precision => pure (Settings.mk constants precision)
        | some (.table t) => precisionOf t >>= fun precision => pure (.mk constants precision)
        | some v => refuse (.outputNoTable v) >>= fun precision => pure (.mk constants precision)) =
      precisionIn document >>= fun precision => pure (Settings.mk constants precision) := by
    unfold precisionIn
    split <;> rfl
  unfold ofDocument constantsIn
  generalize Table.find? document "constants".toList = found
  cases found with
  | none => exact houtput []
  | some v => cases v <;> exact congrArg (_ >>= ·) (funext houtput)

theorem constantsIn_ends (document : Table) :
    (∃ constants, ConstantsRead document constants ∧ constantsIn document = .ok constants) ∨
    (∃ e, Wrong document e ∧ constantsIn document = refuse e) ∨
    (Overflows document ∧ constantsIn document = .error .integerOverflow) := by
  unfold constantsIn
  split
  · rename_i hfind
    exact Or.inl ⟨[], .missing hfind, rfl⟩
  · rename_i t hfind
    rcases constantsOf_ends hfind with ⟨constants, h⟩ | hwrong | hoverflow
    · exact Or.inl ⟨constants, .table hfind h, h⟩
    · exact Or.inr (Or.inl hwrong)
    · exact Or.inr (Or.inr hoverflow)
  · rename_i v hv hfind
    exact Or.inr (Or.inl ⟨_, .constantsNoTable hfind hv, rfl⟩)

theorem precisionIn_ends {constants : List (Text × Float)} (h : ConstantsRead document constants) :
    (∃ precision, PrecisionRead document precision ∧ precisionIn document = .ok precision) ∨
    ∃ e, Wrong document e ∧ precisionIn document = refuse e := by
  unfold precisionIn
  split
  · rename_i hfind
    exact Or.inl ⟨none, .missing hfind, rfl⟩
  · rename_i t hfind
    unfold precisionOf
    split
    · rename_i hnone
      exact Or.inl ⟨none, .unset hfind hnone, rfl⟩
    · rename_i n hn
      split
      · rename_i hpos
        obtain ⟨k, rfl⟩ := Int.eq_ofNat_of_zero_le hpos
        exact Or.inl ⟨some k, .set hfind hn, rfl⟩
      · rename_i hneg
        refine Or.inr ⟨_, .badPrecision h hfind hn ?_, rfl⟩
        rintro k hk
        cases hk
        exact hneg (Int.natCast_nonneg k)
    · rename_i v hv hfound
      exact Or.inr ⟨_, .badPrecision h hfind hfound fun k => hv k, rfl⟩
  · rename_i v hv hfind
    exact Or.inr ⟨_, .outputNoTable h hfind hv, rfl⟩

theorem ConstantsRead.lexeme {constants : List (Text × Float)} (h : ConstantsRead document constants) :
    ∀ constant ∈ constants, TokenKind.identifier.Lexeme constant.1 := by
  cases h with
  | missing => exact List.forall_mem_nil _
  | table _ h => exact lexeme_of_constantsOf h

theorem refuse_bind {α β : Type} (e : SettingsError) (f : α → Except LoadFailure β) :
    refuse e >>= f = refuse e := by
  obtain ⟨failure, hrefuse⟩ := exists_refuse_eq e
  rw [hrefuse, hrefuse]
  rfl

theorem ofDocument_ends (document : Table) : Ends document (ofDocument document) := by
  rw [ofDocument_eq]
  rcases constantsIn_ends document with ⟨constants, hread, h⟩ | ⟨e, hwrong, h⟩ | ⟨hoverflow, h⟩
  · rcases precisionIn_ends hread with ⟨precision, hprecision, h'⟩ | ⟨e, hwrong, h'⟩
    · rw [h, h']
      exact .settings hread hprecision hread.lexeme
    · rw [h, h']
      change Ends document (refuse e >>= _)
      rw [refuse_bind]
      exact .of_refuse hwrong
  · rw [h, refuse_bind]
    exact .of_refuse hwrong
  · rw [h]
    exact .overflow hoverflow

theorem ofDocument_of_overflows (h : Overflows document) :
    ofDocument document = .error .integerOverflow := by
  obtain ⟨name, n, ⟨lead, rest, constants, hlead, hfind⟩, hl, hn⟩ := h
  have hnumber : number name (.integer n) = .error .integerOverflow := by
    rw [number, (floatOfInt?_eq_none_iff n).mpr hn]
  have hconstants : constantsIn document = .error .integerOverflow := by
    simp only [constantsIn, hfind]
    exact constantsOf_of_failure hlead (isName_iff.mpr hl) hnumber rest
  rw [ofDocument_eq, hconstants]
  rfl

/-- Loading a document gives well-formed settings or a report of the first thing that is wrong.
Beyond that it fails exactly on constants that are too large for a float, and on wrong values that
hold a long integer or nest too deep to be shown. -/
theorem ofDocument_reports_or_overflows (document : Table) :
    Ends document (ofDocument document) ∧
    (Overflows document → ofDocument document = .error .integerOverflow) ∧
    ∀ path content source, String.fromUTF8? content = some source →
      Table.read (FileContent.unifyLineEnds source.toList) = .ok document →
      FileContent.settings path (.bytes content) = ofDocument document := by
  refine ⟨ofDocument_ends document, ofDocument_of_overflows, ?_⟩
  intro path content source hsource hdocument
  simp only [FileContent.settings, hsource, hdocument]

theorem ofDocument_overflow_behind_constant :
    (Overflows [("constants".toList, .table [(['E'], .float 2), (['X'], .integer (-2 ^ 1024))])] ∧
      ofDocument [("constants".toList, .table [(['E'], .float 2), (['X'], .integer (-2 ^ 1024))])] =
        .error .integerOverflow) ∧
    String.fromUTF8? "output = true".toUTF8 = some "output = true" ∧
    Table.read (FileContent.unifyLineEnds "output = true".toList) =
      .ok [("output".toList, .boolean true)] ∧
    FileContent.settings [] (.bytes "output = true".toUTF8) =
      ofDocument [("output".toList, .boolean true)] := by
  have hoverflows :
      Overflows [("constants".toList, .table [(['E'], .float 2), (['X'], .integer (-2 ^ 1024))])] := by
    refine ⟨['X'], -2 ^ 1024, ⟨[(['E'], .float 2)], [], [(['E'], 2)], rfl, rfl⟩, ?_, ?_⟩
    · exact ⟨'X', [], rfl, List.forall_mem_nil _, rfl⟩
    · decide +kernel
  have hsource : String.fromUTF8? "output = true".toUTF8 = some "output = true" := by
    have hvalid : "output = true".toUTF8.IsValidUTF8 := String.isValidUTF8 _
    rw [String.fromUTF8?, dif_pos hvalid]
    rfl
  have hread : Table.read (FileContent.unifyLineEnds "output = true".toList) =
      .ok [("output".toList, .boolean true)] := rfl
  have hloaded := (ofDocument_reports_or_overflows [("output".toList, .boolean true)]).2.2
  exact ⟨⟨hoverflows, (ofDocument_reports_or_overflows _).2.1 hoverflows⟩, hsource, hread,
    hloaded _ _ _ hsource hread⟩

/-- An integer too large for a float is not reported. -/
theorem ofDocument_large_constant :
    ofDocument [("constants".toList, .table [(['X'], .integer (10 ^ 309))])] =
      .error .integerOverflow := by
  refine ofDocument_of_overflows ⟨['X'], 10 ^ 309, ⟨[], [], [], rfl, rfl⟩, ?_, ?_⟩
  · exact ⟨'X', [], rfl, List.forall_mem_nil _, rfl⟩
  · decide +kernel

end Settings

end Calculator
