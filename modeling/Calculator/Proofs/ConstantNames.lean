import Calculator.Proofs.IdentifierGrammar
import Calculator.Proofs.ReadNames
import Calculator.Settings

/-! Names of constants. The settings accept exactly the names that a source can read: those that
are scanned to one identifier. So every constant that is set can be read, and no other name could
have been. -/

set_option autoImplicit false

namespace Calculator

def Sentence.ofName (name : Text) : Sentence :=
  .comparison (.ofFactor (.identifier ⟨.identifier, name, 0, 0⟩ rfl))

namespace Settings

open Source (evaluate parse)

variable {name : Text} {table : Table} {constants : List (Text × Float)}

theorem run_eq_some_self : identifierAutomaton.run name = some name ↔ Identifier name := by
  rw [identifierAutomaton_run_eq_some_iff]
  constructor
  · intro h
    exact h.identifier
  · intro h
    exact ⟨List.prefix_rfl, h, fun q hq _ => hq.length_le⟩

/-- The names of constants are the lexemes of identifiers. -/
theorem isName_iff : isName name ↔ TokenKind.identifier.Lexeme name := by
  rw [isName, Bool.and_eq_true, beq_iff_eq, run_eq_some_self]
  constructor
  · rintro ⟨hidentifier, hhead⟩
    cases name with
    | nil => cases hhead
    | cons c w =>
      have hc : Text.isLetter c := hhead
      exact ⟨c, w, hc, (identifier_cons.mp hidentifier).2, rfl⟩
  · rintro ⟨c, w, hc, hw, rfl⟩
    exact ⟨identifier_cons.mpr ⟨Or.inl hc, hw⟩, hc⟩

/-- An identifier alone is scanned to itself. -/
theorem scan_eq_identifier_iff :
    Token.scan name = .ok [⟨.identifier, name, 0, 0⟩] ↔ TokenKind.identifier.Lexeme name := by
  constructor
  · intro h
    exact Token.lexeme_of_scan h _ (List.mem_singleton_self _)
  · intro hl
    have hcut : Cut [] [([], ⟨.identifier, name, 0, 0⟩)] [] :=
      .cons blanks_nil hl (loose_nil _ _) ⟨rfl, rfl⟩ .nil
    have hspacing : Spacing name [([], ⟨.identifier, name, 0, 0⟩)] [] :=
      ⟨(List.append_nil name).symm, hcut, blanks_nil⟩
    exact hspacing.scan

theorem evaluate_identifier (hl : TokenKind.identifier.Lexeme name) {symbols : Symbols}
    {v : Float} (hv : symbols.find? name = some v) : evaluate name symbols = (.ok [v], symbols) := by
  have hscan : Token.scan name = .ok (Sentence.ofName name).tokens := scan_eq_identifier_iff.mpr hl
  have hparse : parse name = .ok (.program [.identifier name ⟨0, 0⟩] .origin) :=
    Source.parse_of_scan hscan (Nat.zero_le maxDepth)
  have hnode : (Tree.identifier name ⟨0, 0⟩).evaluate Tree.walkLimit symbols = .ok v symbols := by
    change (Tree.identifier name ⟨0, 0⟩).evaluate (999 + 1) symbols = _
    rw [Tree.evaluate_identifier, hv]
  have hvalue : (Tree.identifier name ⟨0, 0⟩).evaluateStatement Tree.walkLimit symbols =
      .ok v symbols := by
    rw [Tree.evaluateStatement, hnode]
  rw [Source.evaluate_of_parse hparse, Symbols.run, Tree.run, Tree.evaluateAll, bind_ok hvalue]
  rfl

section Constants

theorem find?_foldl_bind {s : Symbols} {entries : List (Text × Float)}
    (h : name ∉ entries.map Prod.fst) :
    (entries.foldl (fun s (name, value) => s.bind name value) s).find? name = s.find? name := by
  induction entries generalizing s with
  | nil => rfl
  | cons entry entries ih =>
    obtain ⟨key, value⟩ := entry
    obtain ⟨hkey, hrest⟩ := not_or.mp (mt List.mem_cons.mpr h)
    rw [List.foldl_cons, ih hrest, Symbols.find?_bind, if_neg (Ne.symm hkey)]

/-- Of the constants of one name the last is bound. -/
theorem find?_withConstants {lead rest : List (Text × Float)} {v : Float}
    (h : name ∉ rest.map Prod.fst) :
    (Symbols.withConstants (lead ++ (name, v) :: rest)).find? name = some v := by
  rw [Symbols.withConstants, List.foldl_append, List.foldl_cons, find?_foldl_bind h,
    Symbols.find?_bind, if_pos rfl]

theorem exists_refuse_eq (e : SettingsError) :
    ∃ failure, ∀ α : Type, (refuse e : Except LoadFailure α) = .error failure := by
  unfold refuse
  split
  · exact ⟨_, fun _ => rfl⟩
  · exact ⟨_, fun _ => rfl⟩
  · exact ⟨_, fun _ => rfl⟩

theorem constantsOf_cons (key : Text) (value : Value) (rest : Table) :
    constantsOf ((key, value) :: rest) =
      if isName key then
        match number key value with
        | .error failure => .error failure
        | .ok x =>
          match constantsOf rest with
          | .error failure => .error failure
          | .ok others => .ok ((key, x) :: others)
      else refuse (.badName key) := by
  rw [constantsOf]
  cases number key value with
  | error failure => rfl
  | ok x => cases constantsOf rest <;> rfl

/-- What is accepted of a table: every name and the number of every value. -/
theorem constantsOf_eq_ok_iff : constantsOf table = .ok constants ↔
    List.Forall₂ (fun entry constant => isName entry.1 ∧ entry.1 = constant.1 ∧
      number entry.1 entry.2 = .ok constant.2) table constants := by
  induction table generalizing constants with
  | nil =>
    rw [List.forall₂_nil_left_iff, constantsOf]
    exact ⟨fun h => (Except.ok.inj h).symm, fun h => congrArg Except.ok h.symm⟩
  | cons entry rest ih =>
    obtain ⟨key, value⟩ := entry
    rw [constantsOf_cons, List.forall₂_cons_left_iff]
    constructor
    · intro h
      split at h
      · rename_i hname
        cases hx : number key value with
        | error failure =>
          rw [hx] at h
          cases h
        | ok x =>
          cases hrest : constantsOf rest with
          | error failure =>
            rw [hx, hrest] at h
            cases h
          | ok others =>
            rw [hx, hrest] at h
            cases h
            exact ⟨(key, x), others, ⟨hname, rfl, rfl⟩, ih.mp hrest, rfl⟩
      · obtain ⟨failure, hrefuse⟩ := exists_refuse_eq (.badName key)
        rw [hrefuse] at h
        cases h
    · rintro ⟨⟨_, x⟩, others, ⟨hname, rfl, hx⟩, hrest, rfl⟩
      rw [if_pos hname, hx, ih.mpr hrest]

theorem map_fst_of_constantsOf (h : constantsOf table = .ok constants) :
    constants.map Prod.fst = table.map Prod.fst := by
  have hsame : List.Forall₂ (· = ·) (constants.map Prod.fst) (table.map Prod.fst) := by
    rw [List.forall₂_map_left_iff, List.forall₂_map_right_iff]
    exact .flip ((constantsOf_eq_ok_iff.mp h).imp fun _ _ hentry => hentry.2.1.symm)
  rw [List.forall₂_eq_eq_eq] at hsame
  exact hsame

/-- A float in an accepted table is a constant, in the same place. -/
theorem exists_of_constantsOf_append {lead rest : Table} {v : Float}
    (h : constantsOf (lead ++ (name, .float v) :: rest) = .ok constants) :
    isName name ∧ ∃ lead' rest', constants = lead' ++ (name, v) :: rest' ∧
      rest'.map Prod.fst = rest.map Prod.fst := by
  have hentries := List.forall₂_drop lead.length (constantsOf_eq_ok_iff.mp h)
  rw [List.drop_left] at hentries
  obtain ⟨⟨_, x⟩, rest', ⟨hname, rfl, hx⟩, hrest, hdrop⟩ := List.forall₂_cons_left_iff.mp hentries
  obtain rfl : v = x := Except.ok.inj hx
  refine ⟨hname, constants.take lead.length, rest', ?_, ?_⟩
  · rw [← hdrop, List.take_append_drop]
  · exact map_fst_of_constantsOf (constantsOf_eq_ok_iff.mpr hrest)

theorem constantsOf_float (hname : isName name) (v : Float) :
    constantsOf [(name, .float v)] = .ok [(name, v)] := by
  rw [constantsOf_cons, if_pos hname]
  rfl

theorem constantsOf_badName (hname : ¬ isName name) (value : Value) (rest : Table) :
    constantsOf ((name, value) :: rest) = .error (.invalid (.badName name)) := by
  rw [constantsOf_cons, if_neg hname]
  rfl

end Constants

/-- The settings accept a name exactly if it is scanned to one identifier. Then a source can read
the constant under its name; a name that is refused cannot be read by any source. -/
theorem constant_names_readable :
    (∀ (name : Text) (v : Float),
      (constantsOf [(name, .float v)] = .ok [(name, v)] ↔
        Token.scan name = .ok [⟨.identifier, name, 0, 0⟩]) ∧
      ∀ failure, constantsOf [(name, .float v)] = .error failure →
        failure = .invalid (.badName name) ∧
        (∀ source ts, Token.scan source = .ok ts →
          ∀ t ∈ ts, t.kind = .identifier → t.lexeme ≠ name) ∧
        ∀ source symbols symbols', (∀ key, key ≠ name → symbols.find? key = symbols'.find? key) →
          (evaluate source symbols).1 = (evaluate source symbols').1) ∧
    ∀ table constants precision, constantsOf table = .ok constants →
      ∀ lead name v rest, table = lead ++ (name, .float v) :: rest → name ∉ rest.map Prod.fst →
        evaluate name (symbols ⟨constants, precision⟩) =
          (.ok [v], symbols ⟨constants, precision⟩) := by
  refine ⟨fun name v => ⟨?_, fun failure h => ?_⟩, ?_⟩
  · rw [scan_eq_identifier_iff, ← isName_iff]
    constructor
    · intro h
      obtain ⟨_, _, ⟨hname, -⟩, -⟩ := List.forall₂_cons_left_iff.mp (constantsOf_eq_ok_iff.mp h)
      exact hname
    · intro hname
      exact constantsOf_float hname v
  · have hname : ¬ isName name := by
      intro hname
      rw [constantsOf_float hname] at h
      cases h
    rw [constantsOf_badName hname] at h
    refine ⟨(Except.error.inj h).symm, fun source ts hscan t ht hk he => ?_,
      fun source symbols symbols' hagree => ?_⟩
    · have hl := Token.lexeme_of_scan hscan t ht
      rw [hk, he] at hl
      exact hname (isName_iff.mpr hl)
    · refine Source.evaluate_fst_of_agree source fun n hn => hagree n ?_
      rintro rfl
      exact hname (isName_iff.mpr hn)
  · rintro _ constants precision h lead name v rest rfl hrest
    obtain ⟨hname, lead', rest', rfl, hkeys⟩ := exists_of_constantsOf_append h
    exact evaluate_identifier (isName_iff.mp hname) (find?_withConstants (hkeys ▸ hrest))

theorem constant_names_rebound :
    constantsOf [(['E'], .float 2), (['P', 'I'], .float 3)] =
      .ok [(['E'], 2), (['P', 'I'], 3)] ∧
    evaluate ['P', 'I'] (symbols ⟨[(['E'], 2), (['P', 'I'], 3)], none⟩) =
      (.ok [3], symbols ⟨[(['E'], 2), (['P', 'I'], 3)], none⟩) ∧
    constantsOf [(['_', 'x'], .float 1)] = .error (.invalid (.badName ['_', 'x'])) ∧
    Token.scan ['_', 'x'] ≠ .ok [⟨.identifier, ['_', 'x'], 0, 0⟩] ∧
    (evaluate "2 * _x".toList (Symbols.builtin.bind ['_', 'x'] 1)).1 =
      (evaluate "2 * _x".toList .builtin).1 := by
  obtain ⟨hnames, htables⟩ := constant_names_readable
  have haccepted : constantsOf [(['E'], .float 2), (['P', 'I'], .float 3)] =
      .ok [(['E'], 2), (['P', 'I'], 3)] := rfl
  have hrefused : constantsOf [(['_', 'x'], .float 1)] = .error (.invalid (.badName ['_', 'x'])) :=
    rfl
  obtain ⟨hiff, hnone⟩ := hnames ['_', 'x'] 1
  refine ⟨haccepted, ?_, hrefused, fun hscan => ?_, ?_⟩
  · exact htables _ _ none haccepted [(['E'], .float 2)] ['P', 'I'] 3 [] rfl List.not_mem_nil
  · have hok := hiff.mpr hscan
    rw [hrefused] at hok
    cases hok
  · refine (hnone _ hrefused).2.2 _ _ _ fun key hkey => ?_
    rw [Symbols.find?_bind, if_neg (Ne.symm hkey)]

end Settings

end Calculator
