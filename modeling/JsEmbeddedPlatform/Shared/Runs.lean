import Mathlib.Data.List.Basic

/-!
# Finite runs of a partial machine

A step consumes one input and hands back one output; `none` means that the input
is not possible in this state. Every prefix of a run is a run, so a statement
about all runs is a statement about every state on the way.
-/

set_option autoImplicit false

namespace Runs

universe u v w x

variable {State : Type u} {Input : Type v} {Output : Type w}

def run (step : State → Input → Option (State × Output)) :
    State → List Input → Option (State × List Output)
  | s, [] => some (s, [])
  | s, i :: is =>
    match step s i with
    | none => none
    | some (t, o) =>
      match run step t is with
      | none => none
      | some (u, os) => some (u, o :: os)

section Basic
variable {step : State → Input → Option (State × Output)}

@[simp] theorem run_nil (s : State) : run step s [] = some (s, []) := rfl

theorem run_cons_iff {s u : State} {i : Input} {is : List Input} {outs : List Output} :
    run step s (i :: is) = some (u, outs) ↔
      ∃ t o os, step s i = some (t, o) ∧ run step t is = some (u, os) ∧ outs = o :: os := by
  constructor
  · intro h
    simp only [run] at h
    cases hs : step s i with
    | none => simp [hs] at h
    | some next =>
      obtain ⟨t, o⟩ := next
      simp only [hs] at h
      cases hr : run step t is with
      | none => simp [hr] at h
      | some last =>
        obtain ⟨u', os⟩ := last
        simp only [hr, Option.some.injEq, Prod.mk.injEq] at h
        exact ⟨t, o, os, rfl, by rw [hr, h.1], h.2.symm⟩
  · rintro ⟨t, o, os, hs, hr, rfl⟩
    simp only [run, hs, hr]

theorem run_concat {s u : State} {is : List Input} {i : Input} {outs : List Output}
    (h : run step s (is ++ [i]) = some (u, outs)) :
    ∃ t before o, run step s is = some (t, before) ∧ step t i = some (u, o) := by
  induction is generalizing s outs with
  | nil =>
    obtain ⟨t, o, os, hstep, hrun, _⟩ := run_cons_iff.mp h
    cases hrun
    exact ⟨s, [], o, rfl, hstep⟩
  | cons j is ih =>
    obtain ⟨t, o, os, hstep, hrun, _⟩ := run_cons_iff.mp h
    obtain ⟨v, before, p, hbefore, hlast⟩ := ih hrun
    exact ⟨v, o :: before, p, run_cons_iff.mpr ⟨t, o, before, hstep, hbefore, rfl⟩, hlast⟩

theorem run_append {s t u : State} {is js : List Input} {outs more : List Output}
    (h : run step s is = some (t, outs)) (later : run step t js = some (u, more)) :
    run step s (is ++ js) = some (u, outs ++ more) := by
  induction is generalizing s outs with
  | nil =>
    cases h
    exact later
  | cons i is ih =>
    obtain ⟨v, o, os, hstep, hrun, rfl⟩ := run_cons_iff.mp h
    exact run_cons_iff.mpr ⟨v, o, os ++ more, hstep, ih hrun, rfl⟩

/-- A run that is evaluated to its end. -/
theorem run_evaluated {s : State} {is : List Input} {test : State → List Output → Bool}
    (h : (run step s is).any (fun last => test last.1 last.2) = true) :
    ∃ t outs, run step s is = some (t, outs) ∧ test t outs = true := by
  obtain ⟨⟨t, outs⟩, hrun, htest⟩ := (Option.any_eq_true _ _).mp h
  exact ⟨t, outs, hrun, htest⟩

/-- Every step of the run meets `C`, a condition on the state before it and its input. -/
def Along (C : State → Input → Prop) (step : State → Input → Option (State × Output)) :
    State → List Input → Prop
  | _, [] => True
  | s, i :: is => C s i ∧ ∀ t o, step s i = some (t, o) → Along C step t is

instance decidableAlong (C : State → Input → Prop) [∀ s i, Decidable (C s i)]
    (step : State → Input → Option (State × Output)) (s : State) (is : List Input) :
    Decidable (Along C step s is) :=
  match is with
  | [] => isTrue trivial
  | i :: is =>
    match hs : step s i with
    | none => decidable_of_iff (C s i) ⟨fun h => ⟨h, by simp [hs]⟩, And.left⟩
    | some (t, o) =>
      have : Decidable (Along C step t is) := decidableAlong C step t is
      decidable_of_iff (C s i ∧ Along C step t is)
        ⟨fun h => ⟨h.1, fun u p hu => by rw [hs] at hu; cases hu; exact h.2⟩,
          fun h => ⟨h.1, h.2 t o hs⟩⟩

/-- What a step that meets `C` preserves of the inputs and outputs so far and the state,
a run whose steps all meet `C` preserves. -/
theorem run_along_invariant {C : State → Input → Prop}
    {P : List Input → List Output → State → Prop}
    (keep : ∀ past seen s i t o, P past seen s → C s i → step s i = some (t, o) →
      P (past ++ [i]) (seen ++ [o]) t)
    {past : List Input} {seen : List Output} {s u : State} {is : List Input} {outs : List Output}
    (hs : P past seen s) (meets : Along C step s is) (h : run step s is = some (u, outs)) :
    P (past ++ is) (seen ++ outs) u := by
  induction is generalizing past seen s outs with
  | nil =>
    simp only [run_nil, Option.some.injEq, Prod.mk.injEq] at h
    rw [← h.1, ← h.2, List.append_nil, List.append_nil]
    exact hs
  | cons i is ih =>
    obtain ⟨t, o, os, h1, h2, rfl⟩ := run_cons_iff.mp h
    have later := ih (keep past seen s i t o hs meets.1 h1) (meets.2 t o h1) h2
    rwa [List.append_assoc, List.append_assoc, List.singleton_append,
      List.singleton_append] at later

theorem along_of_all {C : State → Input → Prop} (all : ∀ s i, C s i) (s : State)
    (is : List Input) : Along C step s is := by
  induction is generalizing s with
  | nil => trivial
  | cons i is ih => exact ⟨all s i, fun t _ _ => ih t⟩

theorem run_along {C : State → Input → Prop} {P : List Input → List Output → State → Prop}
    (keep : ∀ past seen s i t o, P past seen s → C s i → step s i = some (t, o) →
      P (past ++ [i]) (seen ++ [o]) t)
    {s u : State} {is : List Input} {outs : List Output} (hs : P [] [] s)
    (meets : Along C step s is) (h : run step s is = some (u, outs)) : P is outs u :=
  run_along_invariant keep hs meets h

/-- The same without a condition on the steps. -/
theorem run_history {P : List Input → List Output → State → Prop}
    (keep : ∀ past seen s i t o, P past seen s → step s i = some (t, o) →
      P (past ++ [i]) (seen ++ [o]) t)
    {s u : State} {is : List Input} {outs : List Output} (hs : P [] [] s)
    (h : run step s is = some (u, outs)) : P is outs u :=
  run_along (C := fun _ _ => True)
    (fun past seen s i t o hP _ hstep => keep past seen s i t o hP hstep) hs
    (along_of_all (fun _ _ => trivial) s is) h

/-- `P` holds of every state of the run, the first and the last one included. -/
def Always (P : State → Prop) (step : State → Input → Option (State × Output)) :
    State → List Input → Prop
  | s, [] => P s
  | s, i :: is => P s ∧ ∀ t o, step s i = some (t, o) → Always P step t is

theorem Always.here {P : State → Prop} {s : State} {is : List Input} (h : Always P step s is) :
    P s := by
  cases is with
  | nil => exact h
  | cons i is => exact h.1

theorem Always.at_end {P : State → Prop} {s u : State} {is : List Input} {outs : List Output}
    (h : Always P step s is) (hrun : run step s is = some (u, outs)) : P u := by
  induction is generalizing s outs with
  | nil =>
    cases hrun
    exact h
  | cons i is ih =>
    obtain ⟨t, o, os, hstep, hrest, _⟩ := run_cons_iff.mp hrun
    exact ih (h.2 t o hstep) hrest

theorem Always.mono {P Q : State → Prop} {s : State} {is : List Input} (h : Always P step s is)
    (hPQ : ∀ t, P t → Q t) : Always Q step s is := by
  induction is generalizing s with
  | nil => exact hPQ s h
  | cons i is ih => exact ⟨hPQ s h.1, fun t o hstep => ih (h.2 t o hstep)⟩

/-- What a step that meets `C` preserves holds all along a run whose steps all meet `C`. -/
theorem always_of_along {P : State → Prop} {C : State → Input → Prop}
    (keep : ∀ s i t o, P s → C s i → step s i = some (t, o) → P t) {s : State} {is : List Input}
    (hs : P s) (h : Along C step s is) : Always P step s is := by
  induction is generalizing s with
  | nil => exact hs
  | cons i is ih =>
    exact ⟨hs, fun t o hstep => ih (keep s i t o hs h.1 hstep) (h.2 t o hstep)⟩

/-- A step that leads to `P` from where it holds is one that meets `C`. Then `P` holds all along a
run when every step of it meets `C`, and not otherwise. -/
theorem always_iff_along {I P : State → Prop} {C : State → Input → Prop}
    (keep : ∀ s i t o, I s → step s i = some (t, o) → I t)
    (exact : ∀ s i t o, I s → P s → step s i = some (t, o) → (P t ↔ C s i))
    {s u : State} {is : List Input} {outs : List Output} (hI : I s) (hP : P s)
    (h : run step s is = some (u, outs)) : Always P step s is ↔ Along C step s is := by
  induction is generalizing s outs with
  | nil => exact ⟨fun _ => trivial, fun _ => hP⟩
  | cons i is ih =>
    obtain ⟨t, o, os, hstep, hrun, _⟩ := run_cons_iff.mp h
    have only : ∀ v p, step s i = some (v, p) → v = t := by
      intro v p hv
      rw [hstep] at hv
      cases hv
      rfl
    have hiff := exact s i t o hI hP hstep
    constructor
    · intro hall
      have ht := hall.2 t o hstep
      refine ⟨hiff.mp ht.here, ?_⟩
      intro v p hv
      rw [only v p hv]
      exact (ih (keep s i t o hI hstep) ht.here hrun).mp ht
    · intro hmeets
      refine ⟨hP, ?_⟩
      intro v p hv
      rw [only v p hv]
      exact (ih (keep s i t o hI hstep) (hiff.mpr hmeets.1) hrun).mpr (hmeets.2 t o hstep)

theorem run_map {Source : Type x} (f : Source → Input) (s : State) (is : List Source) :
    run (fun s i => step s (f i)) s is = run step s (is.map f) := by
  induction is generalizing s with
  | nil => rfl
  | cons i is ih => simp only [run, List.map_cons, ih]

end Basic

section Forced
variable {step : State → Input → Option (State × Output)}

/-- A path at each of whose states one input is possible and no other. -/
inductive Forced (step : State → Input → Option (State × Output)) :
    State → List Input → State → List Output → Prop where
  | nil (s : State) : Forced step s [] s []
  | cons {s t u : State} {i : Input} {is : List Input} {o : Output} {os : List Output} :
      step s i = some (t, o) → (∀ j, j ≠ i → step s j = none) → Forced step t is u os →
      Forced step s (i :: is) u (o :: os)

theorem Forced.single {s t : State} {i : Input} {o : Output} (h : step s i = some (t, o))
    (only : ∀ j, j ≠ i → step s j = none) : Forced step s [i] t [o] :=
  .cons h only (.nil t)

theorem Forced.trans {s t u : State} {is js : List Input} {os ps : List Output}
    (h : Forced step s is t os) (later : Forced step t js u ps) :
    Forced step s (is ++ js) u (os ++ ps) := by
  induction h with
  | nil => exact later
  | cons hs only _ ih => exact .cons hs only (ih later)

theorem Forced.run {s u : State} {is : List Input} {os : List Output}
    (h : Forced step s is u os) : Runs.run step s is = some (u, os) := by
  induction h with
  | nil s => rfl
  | cons hs _ _ ih => exact run_cons_iff.mpr ⟨_, _, _, hs, ih, rfl⟩

/-- When nothing is possible at its end, every run is a part of it from the beginning on. -/
theorem Forced.every_run {s u v : State} {is js : List Input} {os ps : List Output}
    (h : Forced step s is u os) (stuck : ∀ j, step u j = none)
    (hrun : Runs.run step s js = some (v, ps)) : js <+: is := by
  induction h generalizing js ps with
  | nil s =>
    cases js with
    | nil => exact List.prefix_rfl
    | cons j js =>
      obtain ⟨t, o, os, hs, _⟩ := run_cons_iff.mp hrun
      rw [stuck j] at hs
      cases hs
  | @cons s t u i is o os hs only _ ih =>
    cases js with
    | nil => exact List.nil_prefix
    | cons j js =>
      obtain ⟨m, p, rest, hstep, hrest, _⟩ := run_cons_iff.mp hrun
      by_cases hij : j = i
      · subst hij
        cases hs.symm.trans hstep
        exact (List.prefix_cons_inj _).mpr (ih stuck hrest)
      · rw [only j hij] at hstep
        cases hstep

/-- There is one such path to a state where nothing is possible. -/
theorem Forced.end_unique {s u v : State} {is js : List Input} {os ps : List Output}
    (h : Forced step s is u os) (stuck : ∀ j, step u j = none)
    (h' : Forced step s js v ps) (stuck' : ∀ j, step v j = none) : u = v ∧ os = ps := by
  have hle := h.every_run stuck h'.run
  have hge := h'.every_run stuck' h.run
  have hsame := hle.eq_of_length_le hge.length_le
  subst hsame
  have hrun := h.run.symm.trans h'.run
  cases hrun
  exact ⟨rfl, rfl⟩

end Forced

section Simulation
variable {Spec : Type x} {concrete : State → Input → Option (State × Output)}
variable {abstract : Spec → Input → Option (Spec × Output)}

/-- Related states accept the same inputs, answer them alike and stay related. -/
def Simulates (R : State → Spec → Prop)
    (concrete : State → Input → Option (State × Output))
    (abstract : Spec → Input → Option (Spec × Output)) : Prop :=
  ∀ s a i, R s a →
    (concrete s i = none ∧ abstract a i = none) ∨
    ∃ t b o, concrete s i = some (t, o) ∧ abstract a i = some (b, o) ∧ R t b

theorem Simulates.run {R : State → Spec → Prop} (sim : Simulates R concrete abstract)
    {s : State} {a : Spec} (h : R s a) (is : List Input) :
    (Runs.run concrete s is = none ∧ Runs.run abstract a is = none) ∨
    ∃ t b os, Runs.run concrete s is = some (t, os) ∧
      Runs.run abstract a is = some (b, os) ∧ R t b := by
  induction is generalizing s a with
  | nil => exact Or.inr ⟨s, a, [], rfl, rfl, h⟩
  | cons i is ih =>
    rcases sim s a i h with ⟨hc, ha⟩ | ⟨t, b, o, hc, ha, hR⟩
    · exact Or.inl ⟨by simp only [Runs.run, hc], by simp only [Runs.run, ha]⟩
    · rcases ih hR with ⟨hc', ha'⟩ | ⟨u, c, os, hc', ha', hR'⟩
      · exact Or.inl ⟨by simp only [Runs.run, hc, hc'], by simp only [Runs.run, ha, ha']⟩
      · exact Or.inr ⟨u, c, o :: os, by simp only [Runs.run, hc, hc'],
          by simp only [Runs.run, ha, ha'], hR'⟩

end Simulation

end Runs
