/-
Runs of a system that takes step after step.

A system is given by a step relation `Step s e s'`: in state `s` the event `e` can lead to `s'`.
`Run Step s es s'` is a finite run through the events `es`.  A run *whose steps all meet a
condition* is a run of the restricted relation `Step.under C`, so that one induction rule serves
the unconditional and the conditional case:

* `Run.invariant` — what every step keeps holds at the end of every run;
* `Run.append` — runs compose;
* `Run.handsOut` — numbers that are handed out one after the other;
* `Run.of_runPartial`, `Run.of_runGuarded` — when a step is a partial function, runs can be
  computed;
* `Run.witness`, `Run.witnessUnder` — such a run, with what can be decided of its end.
-/
import Mathlib

/-- A step relation: state before, event, state after. -/
abbrev StepRel (σ ε : Type) := σ → ε → σ → Prop

/-- The step relation restricted to the steps that meet a condition on the state before and the
event. -/
def StepRel.under {σ ε : Type} (Step : StepRel σ ε) (C : σ → ε → Prop) : StepRel σ ε :=
  fun s e s' => Step s e s' ∧ C s e

/-- Finite runs, events in the order in which they happen. -/
inductive Run {σ ε : Type} (Step : StepRel σ ε) : σ → List ε → σ → Prop
  | nil (s : σ) : Run Step s [] s
  | cons {s s' s'' : σ} {e : ε} {es : List ε} :
      Step s e s' → Run Step s' es s'' → Run Step s (e :: es) s''

namespace Run

variable {σ ε : Type} {Step Step' : StepRel σ ε}

variable {es : List ε} {s' s : σ}

/-- **The invariant rule.**  What holds at the start and is kept by every step holds at the end. -/
theorem invariant {I : σ → Prop} (hstep : ∀ s e s', I s → Step s e s' → I s')
    (hrun : Run Step s es s') (h0 : I s) : I s' := by
  induction hrun with
  | nil s => exact h0
  | cons hs _ ih => exact ih (hstep _ _ _ h0 hs)

theorem append {s'' : σ} {es' : List ε} (h : Run Step s es s') (h' : Run Step s' es' s'') :
    Run Step s (es ++ es') s'' := by
  induction h with
  | nil s => exact h'
  | cons hs _ ih => exact .cons hs (ih h')

theorem mono (hsub : ∀ s e s', Step s e s' → Step' s e s') (h : Run Step s es s') :
    Run Step' s es s' := by
  induction h with
  | nil s => exact .nil s
  | cons hs _ ih => exact .cons (hsub _ _ _ hs) ih

/-- What is handed out in consecutive order: when every step hands out nothing, or the counter and
moves it on, a run hands out the counter and its successors. -/
theorem handsOut {τ : Type} {I : σ → Prop} (handed : σ → List τ) (counter : σ → τ) (next : τ → τ)
    (hstep : ∀ s e s', I s → Step s e s' → I s' ∧
      (handed s' = handed s ∧ counter s' = counter s ∨
        handed s' = handed s ++ [counter s] ∧ counter s' = next (counter s)))
    (hrun : Run Step s es s') (h0 : I s) :
    ∃ k, handed s' = handed s ++ List.iterate next (counter s) k := by
  induction hrun with
  | nil s => exact ⟨0, (List.append_nil _).symm⟩
  | cons hs _ ih =>
    obtain ⟨hI, hhanded⟩ := hstep _ _ _ h0 hs
    obtain ⟨k, hk⟩ := ih hI
    rcases hhanded with ⟨hhanded, hcounter⟩ | ⟨hhanded, hcounter⟩
    · exact ⟨k, by rw [hk, hhanded, hcounter]⟩
    · refine ⟨k + 1, ?_⟩
      rw [hk, hhanded, hcounter, List.append_assoc]
      rfl

end Run

/-- The step relation of a partial function. -/
def StepRel.ofPartial {σ ε : Type} (f : σ → ε → Option σ) : StepRel σ ε :=
  fun s e s' => f s e = some s'

/-- All events in order, as long as there is a next state. -/
def runPartial {σ ε : Type} (f : σ → ε → Option σ) : σ → List ε → Option σ
  | s, [] => some s
  | s, e :: es => (f s e).bind fun s' => runPartial f s' es

theorem Run.of_runPartial {σ ε : Type} {f : σ → ε → Option σ} {s s' : σ} {es : List ε}
    (h : runPartial f s es = some s') : Run (StepRel.ofPartial f) s es s' := by
  induction es generalizing s with
  | nil =>
    cases h
    exact .nil _
  | cons e es ih =>
    obtain ⟨t, hstep, hrest⟩ := Option.bind_eq_some_iff.1 h
    exact .cons hstep (ih hrest)

/-- A partial function that also stops where a condition fails. -/
def guarded {σ ε : Type} (f : σ → ε → Option σ) (C : σ → ε → Prop) [∀ s e, Decidable (C s e)]
    (s : σ) (e : ε) : Option σ :=
  if C s e then f s e else none

theorem Run.of_runGuarded {σ ε : Type} {f : σ → ε → Option σ} {C : σ → ε → Prop}
    [∀ s e, Decidable (C s e)] {s s' : σ} {es : List ε}
    (h : runPartial (guarded f C) s es = some s') :
    Run ((StepRel.ofPartial f).under C) s es s' := by
  refine (Run.of_runPartial h).mono fun t e t' hstep => ?_
  by_cases hC : C t e
  · exact ⟨(if_pos hC).symm.trans hstep, hC⟩
  · have hnone : guarded f C t e = none := if_neg hC
    rw [StepRel.ofPartial, hnone] at hstep
    cases hstep

section Witness

variable {σ ε : Type} {f : σ → ε → Option σ} {s : σ} {es : List ε} {P Q : σ → Prop}
  [DecidablePred P]

theorem Option.exists_of_any {o : Option σ} (h : o.any (decide <| P ·) = true) :
    ∃ t, o = some t ∧ P t := by
  obtain ⟨t, ht, hP⟩ := (Option.any_eq_true _ _).1 h
  exact ⟨t, ht, of_decide_eq_true hP⟩

/-- A run is computed, with a property of its end that can be decided. -/
theorem Run.witness (hQ : ∀ t, Run (.ofPartial f) s es t → P t → Q t)
    (h : (runPartial f s es).any (decide <| P ·) = true) :
    ∃ t, Run (.ofPartial f) s es t ∧ Q t := by
  obtain ⟨t, ht, hP⟩ := Option.exists_of_any h
  exact ⟨t, .of_runPartial ht, hQ t (.of_runPartial ht) hP⟩

theorem Run.witnessUnder {C : σ → ε → Prop} [∀ s e, Decidable (C s e)]
    (hQ : ∀ t, Run ((StepRel.ofPartial f).under C) s es t → P t → Q t)
    (h : (runPartial (guarded f C) s es).any (decide <| P ·) = true) :
    ∃ t, Run ((StepRel.ofPartial f).under C) s es t ∧ Q t := by
  obtain ⟨t, ht, hP⟩ := Option.exists_of_any h
  exact ⟨t, .of_runGuarded ht, hQ t (.of_runGuarded ht) hP⟩

end Witness
