import Calculator.Proofs.Walk

/-! Longest runs. Along the prefixes of a text an automaton can run up to a longest one, and a match
is that prefix and no other: the automaton never falls back to a shorter one. So a match is matched
again, alone and in front of whatever the automaton cannot go on with. -/

set_option autoImplicit false

namespace Calculator.Automaton

variable {σ : Type} {next : σ → Char → Option σ} {s s' t : σ} {input p q : Text}

/-- The longest prefix of a text along which all transitions from a state are defined, and the
state to which it leads. -/
structure LongestRun (next : σ → Char → Option σ) (s : σ) (input p : Text) (s' : σ) : Prop where
  front : p <+: input
  reached : follow next s p = some s'
  longest : ∀ q, q <+: input → (follow next s q).isSome → q.length ≤ p.length

namespace LongestRun

theorem unique (h : LongestRun next s input p s') (h' : LongestRun next s input q t) :
    q = p ∧ t = s' := by
  have hle : q.length ≤ p.length := by
    apply h.longest q h'.front
    rw [h'.reached]
    rfl
  have hge : p.length ≤ q.length := by
    apply h'.longest p h.front
    rw [h.reached]
    rfl
  obtain rfl := (List.prefix_of_prefix_length_le h'.front h.front hle).eq_of_length (by omega)
  exact ⟨rfl, Option.some.inj (h'.reached.symm.trans h.reached)⟩

/-- The walk is the longest run. -/
theorem walk (next : σ → Char → Option σ) (s : σ) (input : Text) :
    LongestRun next s input (walk next s input).1 (walk next s input).2 := by
  obtain ⟨rest, -, hfollow, -⟩ := @walk_exists_rest _ next s input
  refine ⟨walk_fst_isPrefix next s input, hfollow, ?_⟩
  intro q hq hdefined
  exact (isPrefix_walk hq hdefined).length_le

/-- A run is the longest one in front of any text with whose first character it cannot go on. -/
theorem of_follow {more : Text} (h : follow next s p = some s')
    (hmore : ∀ c ∈ more.head?, next s' c = none) : LongestRun next s (p ++ more) p s' := by
  have hwalk := LongestRun.walk next s (p ++ more)
  rw [walk_append h hmore] at hwalk
  exact hwalk

theorem run_eq [DecidableEq σ] {a : Automaton σ} (h : LongestRun a.next a.initial input p s) :
    a.run input = if s ∈ a.accepting then some p else none := by
  obtain ⟨hp, hs⟩ := h.unique (.walk a.next a.initial input)
  rw [run, hp, hs]

end LongestRun

section Match
variable [DecidableEq σ] {a : Automaton σ}

theorem run_eq_some_iff_longestRun :
    a.run input = some p ↔ ∃ s, LongestRun a.next a.initial input p s ∧ s ∈ a.accepting := by
  constructor
  · intro hrun
    have hwalk := LongestRun.walk a.next a.initial input
    rw [hwalk.run_eq, Option.ite_none_right_eq_some] at hrun
    obtain ⟨hacc, hp⟩ := hrun
    rw [← Option.some.inj hp]
    exact ⟨_, hwalk, hacc⟩
  · rintro ⟨s, hlongest, hacc⟩
    rw [hlongest.run_eq, if_pos hacc]

theorem LongestRun.run_eq_none_iff (h : LongestRun a.next a.initial input p s) :
    a.run input = none ↔ s ∉ a.accepting := by
  rw [h.run_eq, ite_eq_right_iff]
  exact forall_congr' fun _ => iff_of_false (Option.some_ne_none p) id

/-- What is built has the parts of its description. -/
theorem eq_of_build {states accepting : List σ} {initial : σ}
    (h : build states initial accepting next = .ok a) :
    a.initial = initial ∧ a.accepting = accepting ∧ a.next = next := by
  unfold build at h
  split at h
  · split at h
    · obtain rfl := Except.ok.inj h
      exact ⟨rfl, rfl, rfl⟩
    · cases h
  · cases h

end Match

/-- Of a text an automaton matches the longest prefix along which its transitions are defined, if
this leads to an accepting state, and nothing otherwise. What it matches it matches again, alone
and in front of a text with whose first character it cannot go on. -/
theorem run_matches_longest_run [DecidableEq σ] (states : List σ) (initial : σ)
    (accepting : List σ) (next : σ → Char → Option σ) (a : Automaton σ)
    (h : build states initial accepting next = .ok a) (input : Text) :
    (∀ p, a.run input = some p ↔ ∃ s, LongestRun next initial input p s ∧ s ∈ accepting) ∧
    (∃ p s, LongestRun next initial input p s ∧
      (∀ q t, LongestRun next initial input q t → q = p ∧ t = s) ∧
      (a.run input = none ↔ s ∉ accepting)) ∧
    ∀ p, a.run input = some p → a.run p = some p ∧
      ∃ s, follow next initial p = some s ∧
        ∀ more, (∀ c ∈ more.head?, next s c = none) → a.run (p ++ more) = some p := by
  obtain ⟨rfl, rfl, rfl⟩ := eq_of_build h
  have hwalk := LongestRun.walk a.next a.initial input
  refine ⟨fun p => run_eq_some_iff_longestRun, ⟨_, _, hwalk, ?_, hwalk.run_eq_none_iff⟩, ?_⟩
  · intro q t hlongest
    exact hwalk.unique hlongest
  · intro p hrun
    obtain ⟨s, hlongest, hacc⟩ := run_eq_some_iff_longestRun.mp hrun
    have hagain : ∀ more, (∀ c ∈ more.head?, a.next s c = none) → a.run (p ++ more) = some p := by
      intro more hmore
      rw [(LongestRun.of_follow hlongest.reached hmore).run_eq, if_pos hacc]
    refine ⟨?_, s, hlongest.reached, hagain⟩
    have halone := hagain [] (by simp)
    rw [List.append_nil] at halone
    exact halone

/-- Texts of zeros and ones of even length: a third digit spoils a match of two. -/
theorem run_matches_even_length :
    let next : Bool → Char → Option Bool :=
      fun odd c => if c = '0' ∨ c = '1' then some (!odd) else none
    ∃ a, build [false, true] false [false] next = .ok a ∧
      (a.run "01x".toList = some "01".toList ∧ a.run "01".toList = some "01".toList ∧
        a.run ("01".toList ++ "yz".toList) = some "01".toList) ∧
      ∃ p, LongestRun next false "011x".toList p true ∧ a.run "011x".toList = none := by
  intro next
  have hbuild : build [false, true] false [false] next =
      .ok ⟨[false, true], false, [false], next, by decide, by decide⟩ := rfl
  refine ⟨_, hbuild, ?_, ?_⟩
  · obtain ⟨-, -, hagain⟩ := run_matches_longest_run _ _ _ _ _ hbuild "01x".toList
    obtain ⟨halone, s, hs, hmore⟩ := hagain "01".toList rfl
    obtain rfl : false = s := Option.some.inj hs
    exact ⟨rfl, halone, hmore "yz".toList (by simp [next])⟩
  · obtain ⟨-, ⟨p, s, hlongest, hunique, hnone⟩, -⟩ :=
      run_matches_longest_run _ _ _ _ _ hbuild "011x".toList
    obtain ⟨-, rfl⟩ := hunique _ _ (LongestRun.walk next false "011x".toList)
    exact ⟨p, hlongest, hnone.mpr (by decide)⟩

end Calculator.Automaton
