import Calculator.Proofs.Closure

/-! Sessions: sources that are evaluated one after another, each with the table that the one
before it left. A source that fails leaves the table as it was, and so does a source that is no
assignment; therefore such sources can be left out without effect on the others. -/

set_option autoImplicit false

namespace Calculator

theorem Phrase.tree_ne_assignment {level : Level} (p : Phrase level) (name : Text) (right : Tree)
    (l : Location) : p.tree ≠ .assignment name right l := by
  induction p with
  | number | identifier | two =>
    intro h
    cases h
  | enclosed opening inner closing ho hc ih => exact ih
  | one operand ih => exact ih

def select {α : Type} : List Bool → List α → List α
  | true :: mask, x :: xs => x :: select mask xs
  | false :: mask, _ :: xs => select mask xs
  | _, _ => []

namespace Source

/-- The name that a source assigns to, if it is an assignment. -/
def target? (source : Text) : Option Text :=
  match parse source with
  | .ok (.program [.assignment name _ _] _) => some name
  | _ => none

/-- What each source of a session gives, with the table after it. -/
def session : List Text → Symbols → List (Except SourceError (List Float) × Symbols)
  | [], _ => []
  | source :: rest, symbols => evaluate source symbols :: session rest (evaluate source symbols).2

def sessionEnd : List Text → Symbols → Symbols
  | [], symbols => symbols
  | source :: rest, symbols => sessionEnd rest (evaluate source symbols).2

theorem target?_of_parse {source : Text} {s : Sentence}
    (h : parse source = .ok (.program [s.tree] .origin)) : target? source = s.target? := by
  cases s with
  | assignment target equals right => rw [target?, h]; rfl
  | comparison phrase =>
    rw [target?, h]
    split
    · rename_i name right l l' he
      have htree : phrase.tree = .assignment name right l := by
        simp only [Except.ok.injEq, Tree.program.injEq, List.cons.injEq, and_true] at he
        exact he.1
      exact absurd htree (phrase.tree_ne_assignment name right l)
    · rfl

/-- The three ways in which a source ends: it fails, or it is no assignment, or it binds its
target to its only value. -/
theorem evaluate_cases (source : Text) (symbols : Symbols) :
    (∃ e, evaluate source symbols = (.error e, symbols)) ∨
    (∃ values, target? source = none ∧ evaluate source symbols = (.ok values, symbols)) ∨
    ∃ name value, target? source = some name ∧
      evaluate source symbols = (.ok [value], symbols.bind name value) := by
  rcases parse_cases source with ⟨e, he, -⟩ | ⟨-, hparse⟩ | ⟨s, hd, -, hparse⟩
  · exact Or.inl ⟨e, by rw [evaluate, he]⟩
  · refine Or.inr (Or.inl ⟨[], by rw [target?, hparse], ?_⟩)
    simp only [evaluate, hparse, run_nil]
  · have htarget := target?_of_parse hparse
    rcases run_statement_target hd (by decide : 197 ≤ Tree.walkLimit) symbols with
      ⟨value, hv⟩ | ⟨t, -, -, he⟩
    · have heval : evaluate source symbols =
          (.ok [value], symbols.bindTarget s.target? value) := by
        simp only [evaluate, hparse, hv]
      rw [← htarget] at heval
      cases htarget' : target? source with
      | none =>
        rw [htarget'] at heval
        exact Or.inr (Or.inl ⟨[value], rfl, heval⟩)
      | some name =>
        rw [htarget'] at heval
        exact Or.inr (Or.inr ⟨name, value, rfl, heval⟩)
    · refine Or.inl ⟨.eval (.symbolNotFound t.lexeme t.place), ?_⟩
      simp only [evaluate, hparse, he]

/-- Whether a source may be left out of a session: it fails, or it is no assignment. -/
def Idle (source : Text) (result : Except SourceError (List Float)) : Prop :=
  (∃ e, result = .error e) ∨ target? source = none

theorem Idle.evaluate_snd {source : Text} {symbols : Symbols}
    (h : Idle source (evaluate source symbols).1) : (evaluate source symbols).2 = symbols := by
  rcases evaluate_cases source symbols with ⟨e, he⟩ | ⟨values, -, hv⟩ | ⟨name, value, ht, hv⟩
  · rw [he]
  · rw [hv]
  · rcases h with ⟨e, he⟩ | hnone
    · rw [hv] at he
      cases he
    · rw [ht] at hnone
      cases hnone

theorem session_append (lead rest : List Text) (symbols : Symbols) :
    session (lead ++ rest) symbols =
      session lead symbols ++ session rest (sessionEnd lead symbols) := by
  induction lead generalizing symbols with
  | nil => rfl
  | cons source lead ih =>
    rw [List.cons_append, session, session, sessionEnd, ih, List.cons_append]

theorem sessionEnd_concat (lead : List Text) (source : Text) (symbols : Symbols) :
    sessionEnd (lead ++ [source]) symbols = (evaluate source (sessionEnd lead symbols)).2 := by
  induction lead generalizing symbols with
  | nil => rfl
  | cons first lead ih => rw [List.cons_append, sessionEnd, sessionEnd, ih]

theorem length_session (sources : List Text) (symbols : Symbols) :
    (session sources symbols).length = sources.length := by
  induction sources generalizing symbols with
  | nil => rfl
  | cons source rest ih => rw [session, List.length_cons, List.length_cons, ih]

/-- Idle sources can be left out. -/
theorem session_select {sources : List Text} {symbols : Symbols} {mask : List Bool}
    (hlength : mask.length = sources.length)
    (hidle : ∀ (i : Nat) source result after, sources[i]? = some source → mask[i]? = some false →
      (session sources symbols)[i]? = some (result, after) → Idle source result) :
    session (select mask sources) symbols = select mask (session sources symbols) ∧
      sessionEnd (select mask sources) symbols = sessionEnd sources symbols := by
  induction sources generalizing mask symbols with
  | nil =>
    obtain rfl := List.length_eq_zero_iff.mp hlength
    exact ⟨rfl, rfl⟩
  | cons source rest ih =>
    obtain ⟨keep, mask, rfl⟩ : ∃ keep rest, mask = keep :: rest :=
      List.exists_cons_of_length_eq_add_one hlength
    have hlength' : mask.length = rest.length := Nat.succ_inj.mp hlength
    have hrest := @ih (evaluate source symbols).2 mask hlength'
      fun i source' result after hs hm hr => hidle (i + 1) source' result after hs hm hr
    cases keep with
    | true =>
      obtain ⟨hsteps, hend⟩ := hrest
      rw [select, session, session, select, sessionEnd, sessionEnd, hsteps, hend]
      exact ⟨rfl, rfl⟩
    | false =>
      have hsame : (evaluate source symbols).2 = symbols :=
        (hidle 0 source _ _ rfl rfl rfl).evaluate_snd
      rw [select, session, select, sessionEnd]
      rw [hsame] at hrest ⊢
      exact hrest

/-- A session changes its table by whole assignments only. At every point of it a source that
fails leaves the table as it is, and one that succeeds changes at most the binding of its target;
sources that failed or are no assignments can be left out. -/
theorem session_changes_by_assignments (sources : List Text) (symbols : Symbols) :
    (∀ lead source rest, sources = lead ++ source :: rest →
      ∃ result after, (session sources symbols)[lead.length]? = some (result, after) ∧
        sessionEnd (lead ++ [source]) symbols = after ∧
        (∀ e, result = .error e → after = sessionEnd lead symbols) ∧
        (∀ values, result = .ok values → target? source = none → after = sessionEnd lead symbols) ∧
        ∀ values name, result = .ok values → target? source = some name →
          ∃ value, values = [value] ∧ after = (sessionEnd lead symbols).bind name value ∧
            after.find? name = some value ∧
            ∀ key, key ≠ name → after.find? key = (sessionEnd lead symbols).find? key) ∧
    ∀ mask : List Bool, mask.length = sources.length →
      (∀ (i : Nat) source result after, sources[i]? = some source → mask[i]? = some false →
        (session sources symbols)[i]? = some (result, after) →
        (∃ e, result = .error e) ∨ target? source = none) →
      session (select mask sources) symbols = select mask (session sources symbols) ∧
        sessionEnd (select mask sources) symbols = sessionEnd sources symbols := by
  refine ⟨?_, fun mask hlength hidle => session_select hlength hidle⟩
  rintro lead source rest rfl
  have hstep : (session (lead ++ source :: rest) symbols)[lead.length]? =
      some (evaluate source (sessionEnd lead symbols)) := by
    have hlength := length_session lead symbols
    rw [session_append, List.getElem?_append_right (Nat.le_of_eq hlength), hlength, Nat.sub_self]
    rfl
  refine ⟨(evaluate source (sessionEnd lead symbols)).1,
    (evaluate source (sessionEnd lead symbols)).2, hstep, sessionEnd_concat lead source symbols, ?_⟩
  rcases evaluate_cases source (sessionEnd lead symbols) with
    ⟨e, he⟩ | ⟨values, hnone, hv⟩ | ⟨name, value, hsome, hv⟩
  · rw [he]
    exact ⟨fun _ _ => rfl, fun _ h => (by cases h), fun _ _ h => (by cases h)⟩
  · rw [hv, hnone]
    exact ⟨fun _ h => (by cases h), fun _ _ _ => rfl, fun _ _ _ h => (by cases h)⟩
  · rw [hv, hsome]
    refine ⟨fun _ h => (by cases h), fun _ _ h => (by cases h), ?_⟩
    intro values name' hvalues hname
    cases hvalues
    cases hname
    refine ⟨value, rfl, rfl, by simp [Symbols.find?_bind], ?_⟩
    intro key hkey
    rw [Symbols.find?_bind, if_neg (Ne.symm hkey)]

theorem session_without_idle_sources :
    let sources := ["x = PI".toList, "x = z".toList, "x + ".toList, "x".toList, "y = x".toList]
    let mask := [true, false, false, false, true]
    let symbols : Symbols := ⟨[(['P', 'I'], Symbols.pi), (['x'], Symbols.pi)]⟩
    session sources .builtin =
      [(.ok [Symbols.pi], symbols),
        (.error (.eval (.symbolNotFound ['z'] ⟨0, 4⟩)), symbols),
        (.error (.parse (.grammar (.unexpectedEnd ⟨0, 2⟩))), symbols),
        (.ok [Symbols.pi], symbols),
        (.ok [Symbols.pi], symbols.bind ['y'] Symbols.pi)] ∧
    session (select mask sources) .builtin =
      [(.ok [Symbols.pi], symbols), (.ok [Symbols.pi], symbols.bind ['y'] Symbols.pi)] := by
  intro sources mask symbols
  obtain ⟨hassign, hunbound, hgrammar, hread, hlast⟩ :
      parse "x = PI".toList = .ok (.program [.assignment ['x']
        (.identifier ['P', 'I'] ⟨0, 4⟩) ⟨0, 0⟩] .origin) ∧
      parse "x = z".toList = .ok (.program [.assignment ['x']
        (.identifier ['z'] ⟨0, 4⟩) ⟨0, 0⟩] .origin) ∧
      parse "x + ".toList = .error (.parse (.grammar (.unexpectedEnd ⟨0, 2⟩))) ∧
      parse "x".toList = .ok (.program [.identifier ['x'] ⟨0, 0⟩] .origin) ∧
      parse "y = x".toList = .ok (.program [.assignment ['y']
        (.identifier ['x'] ⟨0, 4⟩) ⟨0, 0⟩] .origin) := by
    refine ⟨?_, ?_, ?_, ?_, ?_⟩ <;> cbv
  have hsession : session sources .builtin =
      [(.ok [Symbols.pi], symbols),
        (.error (.eval (.symbolNotFound ['z'] ⟨0, 4⟩)), symbols),
        (.error (.parse (.grammar (.unexpectedEnd ⟨0, 2⟩))), symbols),
        (.ok [Symbols.pi], symbols),
        (.ok [Symbols.pi], symbols.bind ['y'] Symbols.pi)] := by
    simp only [sources, session, evaluate, hassign, hunbound, hgrammar, hread, hlast]
    rfl
  refine ⟨hsession, ?_⟩
  obtain ⟨-, hselect⟩ := session_changes_by_assignments sources .builtin
  have hidle : ∀ (i : Nat) source result after, sources[i]? = some source → mask[i]? = some false →
      (session sources .builtin)[i]? = some (result, after) →
      (∃ e, result = .error e) ∨ target? source = none := by
    rw [hsession]
    intro i source result after hs hm hr
    rcases i with _ | _ | _ | _ | _ | i
    · cases hm
    · cases hr
      exact Or.inl ⟨_, rfl⟩
    · cases hr
      exact Or.inl ⟨_, rfl⟩
    · cases hs
      exact Or.inr (by rw [target?, hread])
    · cases hm
    · cases hr
  obtain ⟨hkept, -⟩ := hselect mask rfl hidle
  rw [hkept, hsession]
  rfl

end Source

end Calculator
