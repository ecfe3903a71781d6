import Regular.Proofs.Context
import Regular.Proofs.Outcome
/-!
# Cutoff — a limit on states refuses what needs more, and changes nothing else

The array only grows while tokens are read, so a run with a limit goes as the run without one until it needs a state too
many.  How many states a run needs before it ends is read off the run without a limit (`demand`), and comparing that
number with the limit decides between the two outcomes there are (`build_eq_within`).  Everything else about limits
follows from this comparison; an odd limit is no better than the even one below it because the number is even.
-/
namespace Regular
namespace Construction

/-- The number of states made for the tokens before the one that lacks operands, or for all tokens if none does: two for
each but a concatenation. -/
def demand (ts : List Token) : Nat :=
  match build none ts with
  | .error (.tooFewOperands _ position _ _) => 2 * ((ts.take position).filter Token.addsStates).length
  | _ => 2 * (ts.filter Token.addsStates).length

/-- The tokens come to an outcome under a limit, and it is not the limit that refuses them. -/
structure Admits (limit : Nat) (ts : List Token) (result : Except PatternError Automaton) : Prop where
  build_eq : build (some limit) ts = result
  ne_tooManyStates : ∀ most, result ≠ .error (.tooManyStates most)

theorem length_arena_of_rebuild {ts : List Token} {es : List Expr} (h : Expr.rebuild [] ts = some es) :
    (arena es).length = 2 * (ts.filter Token.addsStates).length := by
  rw [length_arena, Expr.postorders_of_rebuild h]
  rfl

theorem demand_of_short {ts : List Token} {i needed found : Nat} {t : Token} {es : List Expr}
    (hes : Expr.rebuild [] (ts.take i) = some es) (hbuild : build none ts = .error (.tooFewOperands t i needed found)) :
    demand ts = (arena es).length := by
  rw [demand, hbuild, length_arena_of_rebuild hes]

theorem demand_of_supplied {ts : List Token} {es : List Expr} (hes : Expr.rebuild [] ts = some es)
    (hbuild : build none ts = finish (laid es)) : demand ts = (arena es).length := by
  rw [demand, hbuild, length_arena_of_rebuild hes]
  rcases es with _ | ⟨e, _ | ⟨e', es⟩⟩
  · rfl
  · rw [finish_laid_singleton]
  · rw [finish_laid_many]

/-- **With a limit the outcome is the one without it, unless the tokens need more states than allowed.** -/
theorem build_eq_within (limit : Option Nat) (ts : List Token) :
    build limit ts = (within limit (demand ts) ()).bind fun _ => build none ts := by
  rcases supplied_or_firstShort ts with hsupplied | ⟨i, t, hshort⟩
  · obtain ⟨es, hes, -, hbuild⟩ := build_of_supplied hsupplied
    have hnone : build none ts = finish (laid es) := hbuild none
    rw [demand_of_supplied hes hnone, hnone, hbuild]
  · obtain ⟨es, hes, -, hbuild⟩ := build_of_firstShort hshort
    have hnone : build none ts = .error (.tooFewOperands t i t.arity es.length) := hbuild none
    rw [demand_of_short hes hnone, hnone, hbuild]

theorem build_some_eq (limit : Nat) (ts : List Token) :
    build (some limit) ts = if demand ts ≤ limit then build none ts else .error (.tooManyStates limit) := by
  rw [build_eq_within]
  by_cases h : demand ts ≤ limit
  · rw [if_pos h, within_of_fits fun _ hm => (by cases hm; exact h)]
    rfl
  · rw [if_neg h, show within (some limit) (demand ts) () = .error (.tooManyStates limit) from if_neg h]
    rfl

theorem build_none_ne_tooManyStates (ts : List Token) (most : Nat) : build none ts ≠ .error (.tooManyStates most) :=
  fun h => hasFault_of_build h

/-- **What is admitted is decided by the demand**, and is the outcome without a limit. -/
theorem admits_iff {limit : Nat} {ts : List Token} {result : Except PatternError Automaton} :
    Admits limit ts result ↔ demand ts ≤ limit ∧ build none ts = result := by
  constructor
  · rintro ⟨hbuild, hne⟩
    rw [build_some_eq] at hbuild
    by_cases h : demand ts ≤ limit
    · exact ⟨h, by rwa [if_pos h] at hbuild⟩
    · rw [if_neg h] at hbuild
      exact absurd hbuild.symm (hne limit)
  · rintro ⟨h, rfl⟩
    exact ⟨by rw [build_some_eq, if_pos h], build_none_ne_tooManyStates ts⟩

/-- The demand is even. -/
theorem exists_demand_eq (ts : List Token) : ∃ n, demand ts = 2 * n := by
  unfold demand
  split
  · exact ⟨_, rfl⟩
  · exact ⟨_, rfl⟩

theorem demand_le_iff_of_odd (ts : List Token) (k : Nat) : demand ts ≤ 2 * k + 1 ↔ demand ts ≤ 2 * k := by
  obtain ⟨n, hn⟩ := exists_demand_eq ts
  omega

/-- An automaton has as many states as its tokens need. -/
theorem size_eq_demand {ts : List Token} {a : Automaton} (h : build none ts = .ok a) : a.size = demand ts := by
  rw [(hasShape_of_build h).size_eq, demand, h]

/-- **A limit on states is a cut-off and nothing else.**  Under a limit the tokens come to what they come to without one
if they need no more states than that, and are refused for their number otherwise.  So whatever a limit admits, every
larger one admits with the same outcome; an automaton has no more states than its limit; and an odd limit admits exactly
what the even one below it does. -/
theorem build_under_limit (ts : List Token) :
    (∀ limit, build (some limit) ts = if demand ts ≤ limit then build none ts else .error (.tooManyStates limit)) ∧
      (∀ limit more result, limit ≤ more → Admits limit ts result → Admits more ts result) ∧
      (∀ limit a, build (some limit) ts = .ok a → a.size ≤ limit) ∧
      ∀ k result, Admits (2 * k + 1) ts result ↔ Admits (2 * k) ts result := by
  refine ⟨fun limit => build_some_eq limit ts, fun limit more result hle hadmits => ?_, fun limit a ha => ?_,
    fun k result => ?_⟩
  · obtain ⟨hdemand, hbuild⟩ := admits_iff.1 hadmits
    exact admits_iff.2 ⟨Nat.le_trans hdemand hle, hbuild⟩
  · have hadmits : Admits limit ts (.ok a) := ⟨ha, nofun⟩
    obtain ⟨hdemand, hbuild⟩ := admits_iff.1 hadmits
    rwa [size_eq_demand hbuild]
  · rw [admits_iff, admits_iff, demand_le_iff_of_odd]

/-- The four states before the operator that lacks an operand are all that its report needs. -/
theorem build_under_limit_short :
    (4 ≤ 9 ∧ Admits 4 [.literal 'a', .literal 'b', .connective .concat, .connective .alternate, .literal 'c']
        (.error (.tooFewOperands (.connective .alternate) 3 2 1)) ∧
      Admits 9 [.literal 'a', .literal 'b', .connective .concat, .connective .alternate, .literal 'c']
        (.error (.tooFewOperands (.connective .alternate) 3 2 1))) ∧
    ∃ a, build (some 5) [.literal 'a', .quantifier .plus] = .ok a ∧ a.size ≤ 5 := by
  have hshort : Admits 4 [.literal 'a', .literal 'b', .connective .concat, .connective .alternate, .literal 'c']
      (.error (.tooFewOperands (.connective .alternate) 3 2 1)) := ⟨rfl, nofun⟩
  have hbuild : build (some 5) [.literal 'a', .quantifier .plus] =
      .ok ⟨#[.silent [1, 2], .consuming 'a' 0, .silent [], .silent [1]], 3, 2⟩ := rfl
  exact ⟨⟨by decide, hshort, (build_under_limit _).2.1 4 9 _ (by decide) hshort⟩,
    _, hbuild, (build_under_limit _).2.2.1 5 _ hbuild⟩

end Construction
end Regular
