import Mathlib.Data.List.Basic

/-!
# A loop that tests after its body

The body handles one item and has a result. The loop goes on while there are items left
and the result says so; without any item it faults, since the body comes first.
-/

set_option autoImplicit false

namespace DoWhile

universe u v w x

variable {Item : Type u} {State : Type v} {Result : Type w} {Fault : Type x}

/-- Each item has the result that lets the loop go on. -/
inductive Passes (goOn : Result) (body : Item → State → Except Fault (Result × State)) :
    List Item → State → State → Prop where
  | nil (s : State) : Passes goOn body [] s s
  | cons {item : Item} {rest : List Item} {s t u : State} : body item s = .ok (goOn, t) →
      Passes goOn body rest t u → Passes goOn body (item :: rest) s u

section Passing
variable {goOn : Result} {body : Item → State → Except Fault (Result × State)}
variable {items : List Item} {s t : State}

/-- What holds after each item that passes holds after the loop. -/
theorem Passes.invariant {P : State → Prop} (h : Passes goOn body items s t) (hs : P s)
    (keep : ∀ item s t, P s → body item s = .ok (goOn, t) → P t) : P t := by
  induction h with
  | nil s => exact hs
  | cons hbody _ ih => exact ih (keep _ _ _ hs hbody)

theorem Passes.forall_mem {P : Item → Prop} (h : Passes goOn body items s t)
    (of_body : ∀ item s t, body item s = .ok (goOn, t) → P item) : ∀ item ∈ items, P item := by
  induction h with
  | nil s =>
    intro item hitem
    cases hitem
  | cons hbody _ ih =>
    intro item hitem
    rcases List.mem_cons.mp hitem with rfl | hitem
    · exact of_body _ _ _ hbody
    · exact ih item hitem

end Passing

def run [DecidableEq Result] (goOn : Result) (nothing : Fault)
    (body : Item → State → Except Fault (Result × State)) :
    List Item → State → Except Fault (Result × State)
  | [], _ => .error nothing
  | [item], s => body item s
  | item :: next :: rest, s =>
    match body item s with
    | .error fault => .error fault
    | .ok (result, t) => if result = goOn then run goOn nothing body (next :: rest) t
      else .ok (result, t)

section Rules
variable [DecidableEq Result] {goOn : Result} {nothing : Fault}
variable {body : Item → State → Except Fault (Result × State)}
variable {item : Item} {items before rest : List Item} {s t : State}

theorem run_cons_ok (h : body item s = .ok (goOn, t)) (hrest : rest ≠ []) :
    run goOn nothing body (item :: rest) s = run goOn nothing body rest t := by
  cases rest with
  | nil => exact absurd rfl hrest
  | cons next rest =>
    rw [run, h]
    exact if_pos rfl

theorem run_cons_stop {result : Result} (h : body item s = .ok (result, t))
    (hstop : result ≠ goOn) : run goOn nothing body (item :: rest) s = .ok (result, t) := by
  cases rest with
  | nil => exact h
  | cons next rest =>
    rw [run, h]
    exact if_neg hstop

theorem run_cons_error {fault : Fault} (h : body item s = .error fault) :
    run goOn nothing body (item :: rest) s = .error fault := by
  cases rest with
  | nil => exact h
  | cons next rest => rw [run, h]

theorem Passes.run_append (h : Passes goOn body before s t) (hrest : rest ≠ []) :
    run goOn nothing body (before ++ rest) s = run goOn nothing body rest t := by
  induction h with
  | nil s => rfl
  | @cons item later s t u hbody _ ih =>
    rw [List.cons_append, run_cons_ok hbody (by simp [hrest]), ih]

theorem passes_of_run (h : run goOn nothing body items s = .ok (goOn, t)) :
    Passes goOn body items s t := by
  induction items generalizing s with
  | nil => cases h
  | cons item rest ih =>
    cases rest with
    | nil => exact .cons h (.nil t)
    | cons next rest =>
      cases hbody : body item s with
      | error fault =>
        rw [run_cons_error hbody] at h
        cases h
      | ok r =>
        obtain ⟨result, u⟩ := r
        by_cases hresult : result = goOn
        · subst hresult
          rw [run_cons_ok hbody (by simp)] at h
          exact .cons hbody (ih h)
        · rw [run_cons_stop hbody hresult] at h
          cases h
          exact absurd rfl hresult

/-- The outcome of the loop is the one of its body at an item that is reached. -/
theorem run_outcome (goOn : Result) (nothing : Fault)
    (body : Item → State → Except Fault (Result × State)) (s : State) (hitems : items ≠ []) :
    ∃ before item after t, items = before ++ item :: after ∧ Passes goOn body before s t ∧
      run goOn nothing body items s = body item t := by
  induction items generalizing s with
  | nil => exact absurd rfl hitems
  | cons item rest ih =>
    cases hbody : body item s with
    | error fault =>
      refine ⟨[], item, rest, s, rfl, .nil s, ?_⟩
      rw [run_cons_error hbody, hbody]
    | ok r =>
      obtain ⟨result, t⟩ := r
      by_cases hresult : result = goOn
      · subst hresult
        cases rest with
        | nil => exact ⟨[], item, [], s, rfl, .nil s, rfl⟩
        | cons next rest =>
          obtain ⟨before, last, after, u, hsplit, hpasses, houtcome⟩ := ih t (by simp)
          refine ⟨item :: before, last, after, u, ?_, .cons hbody hpasses, ?_⟩
          · rw [hsplit, List.cons_append]
          · rw [run_cons_ok hbody (by simp), houtcome]
      · refine ⟨[], item, rest, s, rfl, .nil s, ?_⟩
        rw [run_cons_stop hbody hresult, hbody]

/-- Items that all pass, and at least one of them. -/
theorem Passes.run (h : Passes goOn body items s t) (hitems : items ≠ []) :
    run goOn nothing body items s = .ok (goOn, t) := by
  induction h with
  | nil s => exact absurd rfl hitems
  | @cons item rest s t u hbody hrest ih =>
    by_cases hnil : rest = []
    · subst hnil
      cases hrest
      exact hbody
    · rw [run_cons_ok hbody hnil]
      exact ih hnil

/-- A loop that has a result stops at an item. -/
theorem run_stops {result : Result} {u : State} (hitems : items ≠ [])
    (h : DoWhile.run goOn nothing body items s = .ok (result, u)) :
    ∃ before item after t, items = before ++ item :: after ∧ Passes goOn body before s t ∧
      body item t = .ok (result, u) := by
  obtain ⟨before, item, after, t, hsplit, hpasses, houtcome⟩ :=
    run_outcome goOn nothing body s hitems
  exact ⟨before, item, after, t, hsplit, hpasses, houtcome.symm.trans h⟩

theorem run_error {fault : Fault} (h : run goOn nothing body items s = .error fault)
    (hfault : fault ≠ nothing) :
    ∃ before item after t, items = before ++ item :: after ∧ Passes goOn body before s t ∧
      body item t = .error fault := by
  have hitems : items ≠ [] := by
    intro hnil
    subst hnil
    cases h
    exact hfault rfl
  obtain ⟨before, item, after, t, hsplit, hpasses, houtcome⟩ :=
    run_outcome goOn nothing body s hitems
  exact ⟨before, item, after, t, hsplit, hpasses, houtcome.symm.trans h⟩

theorem run_result {result : Result} {u : State}
    (h : run goOn nothing body items s = .ok (result, u)) :
    ∃ item ∈ items, ∃ t, body item t = .ok (result, u) := by
  have hitems : items ≠ [] := by
    intro hnil
    subst hnil
    cases h
  obtain ⟨before, item, after, t, hsplit, _, hbody⟩ := run_stops hitems h
  refine ⟨item, ?_, t, hbody⟩
  rw [hsplit]
  exact List.mem_append_right before List.mem_cons_self

end Rules

section Decisions
variable {goOn : Result} {refusal : Result → Prop} {good : State → Prop}

/-- The result says whether something is accepted, and the state stays good either way. -/
def Decides (goOn : Result) (refusal : Result → Prop) (good : State → Prop) (accepted : Prop)
    (outcome : Except Fault (Result × State)) : Prop :=
  ∃ result t, outcome = .ok (result, t) ∧ good t ∧
    (result = goOn ∧ accepted ∨ refusal result ∧ ¬ accepted)

/-- A loop over items accepts when each of them is accepted. -/
theorem run_decides [DecidableEq Result] {nothing : Fault}
    {body : Item → State → Except Fault (Result × State)} {accepted : Item → Prop}
    {items : List Item} (hrefusal : ¬ refusal goOn)
    (hbody : ∀ item ∈ items, ∀ s, good s →
      Decides goOn refusal good (accepted item) (body item s))
    (hitems : items ≠ []) {s : State} (hs : good s) :
    Decides goOn refusal good (∀ item ∈ items, accepted item)
      (run goOn nothing body items s) := by
  induction items generalizing s with
  | nil => exact absurd rfl hitems
  | cons item rest ih =>
    obtain ⟨result, t, hresult, ht, hdecided⟩ := hbody item List.mem_cons_self s hs
    rcases hdecided with ⟨rfl, hitem⟩ | ⟨hrefused, hitem⟩
    · by_cases hnil : rest = []
      · subst hnil
        exact ⟨result, t, hresult, ht, Or.inl ⟨rfl, by simpa using hitem⟩⟩
      · rw [run_cons_ok hresult hnil]
        obtain ⟨last, u, hlast, hu, hrest⟩ :=
          ih (fun later hlater => hbody later (List.mem_cons_of_mem item hlater)) hnil ht
        refine ⟨last, u, hlast, hu, ?_⟩
        rw [List.forall_mem_cons]
        tauto
    · have hstop : result ≠ goOn := fun heq => hrefusal (heq ▸ hrefused)
      rw [run_cons_stop hresult hstop]
      refine ⟨result, t, rfl, ht, Or.inr ⟨hrefused, ?_⟩⟩
      exact fun hall => hitem (hall item List.mem_cons_self)

end Decisions

end DoWhile
