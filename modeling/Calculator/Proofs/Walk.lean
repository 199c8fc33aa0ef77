import Mathlib
import Calculator.Automaton

/-! Walks of an automaton. A walk reads the longest prefix along which every transition is
defined, and its state is the one reached along that prefix. -/

set_option autoImplicit false

namespace Calculator.Automaton

variable {σ : Type} {next : σ → Char → Option σ}

/-- The state reached along a text, if all transitions are defined. -/
def follow (next : σ → Char → Option σ) : σ → Text → Option σ
  | s, [] => some s
  | s, c :: rest => (next s c).bind fun s' => follow next s' rest

theorem follow_append (s : σ) (t u : Text) :
    follow next s (t ++ u) = (follow next s t).bind fun s' => follow next s' u := by
  induction t generalizing s with
  | nil => rfl
  | cons c t ih => simp only [List.cons_append, follow, ih, Option.bind_assoc]

theorem follow_concat {s s' : σ} {t : Text} (h : follow next s t = some s') (c : Char) :
    follow next s (t ++ [c]) = next s' c := by
  simp only [follow_append, h, follow, Option.bind_some, Option.bind_fun_some]

theorem walk_exists_rest (s : σ) (input : Text) : ∃ rest, input = (walk next s input).1 ++ rest ∧
    follow next s (walk next s input).1 = some (walk next s input).2 ∧
    ∀ c ∈ rest.head?, next (walk next s input).2 c = none := by
  induction input generalizing s with
  | nil => exact ⟨[], rfl, rfl, by simp⟩
  | cons c input ih =>
    cases hc : next s c with
    | none =>
      simp only [walk, hc]
      exact ⟨c :: input, rfl, rfl, by simpa using hc⟩
    | some s' =>
      obtain ⟨rest, hi, hf, hr⟩ := ih s'
      simp only [walk, hc]
      refine ⟨rest, congrArg (List.cons c) hi, ?_, hr⟩
      simpa only [follow, hc, Option.bind_some] using hf

/-- A prefix along which all transitions are defined, and none for what follows, is the walk. -/
theorem walk_append {s s' : σ} {read rest : Text} (hf : follow next s read = some s')
    (hr : ∀ c ∈ rest.head?, next s' c = none) : walk next s (read ++ rest) = (read, s') := by
  induction read generalizing s with
  | nil =>
    obtain rfl : s = s' := Option.some.inj hf
    cases rest with
    | nil => rfl
    | cons c rest => simp only [List.nil_append, walk, hr c rfl]
  | cons c read ih =>
    cases hc : next s c with
    | none => simp [follow, hc] at hf
    | some t =>
      simp only [follow, hc, Option.bind_some] at hf
      simp only [List.cons_append, walk, hc, ih hf]

/-- A walk goes as far as all transitions are defined. -/
theorem isPrefix_walk {s : σ} {q input : Text} (h : q <+: input)
    (hq : (follow next s q).isSome) : q <+: (walk next s input).1 := by
  induction q generalizing s input with
  | nil => exact List.nil_prefix
  | cons c q ih =>
    obtain ⟨rest, rfl⟩ := h
    cases hc : next s c with
    | none =>
      rw [follow, hc] at hq
      cases hq
    | some s' =>
      rw [follow, hc] at hq
      simp only [List.cons_append, walk, hc]
      apply (List.prefix_cons_inj c).mpr
      exact ih (List.prefix_append q rest) hq

/-- A match is a prefix that leads to an accepting state, from which the run cannot go on. -/
theorem run_eq_some_iff [DecidableEq σ] (a : Automaton σ) (input p : Text) :
    a.run input = some p ↔ ∃ rest s, input = p ++ rest ∧ follow a.next a.initial p = some s ∧
      s ∈ a.accepting ∧ ∀ c ∈ rest.head?, a.next s c = none := by
  simp only [run, Option.ite_none_right_eq_some, Option.some.injEq]
  constructor
  · rintro ⟨hacc, rfl⟩
    obtain ⟨rest, hi, hf, hr⟩ := @walk_exists_rest _ a.next a.initial input
    exact ⟨rest, _, hi, hf, hacc, hr⟩
  · rintro ⟨rest, s, rfl, hf, hacc, hr⟩
    rw [walk_append hf hr]
    exact ⟨hacc, rfl⟩

end Calculator.Automaton
