import Mathlib.Logic.Relation
import Mathlib.Order.Basic

/-!
# Labelled transition systems

A system is a set of initial states and a labelled step relation. Runs may be
restricted to steps that meet a condition; the condition sees the state before, the
label and the state after. Safety is proved by an invariant (`Lts.Reach.invariant`),
and a step that is a sequence of smaller moves keeps whatever each move keeps
(`preserved_of_reflTransGen`).
-/

/-- A labelled transition system. -/
structure Lts (σ ℓ : Type*) where
  /-- the initial states -/
  init : σ → Prop
  /-- one step -/
  step : σ → ℓ → σ → Prop

namespace Lts

variable {σ ℓ : Type*} {S : Lts σ ℓ} {ok ok' : σ → ℓ → σ → Prop}

/-- The states that runs reach whose steps all meet the condition `ok`. -/
inductive Reach (S : Lts σ ℓ) (ok : σ → ℓ → σ → Prop) : σ → Prop where
  /-- an initial state -/
  | init {s : σ} : S.init s → Reach S ok s
  /-- one more step -/
  | step {s s' : σ} {l : ℓ} : Reach S ok s → S.step s l s' → ok s l s' → Reach S ok s'

/-- **The invariant rule.** What holds initially and is kept by every step from a
reachable state holds in every reachable state. -/
theorem Reach.invariant {P : σ → Prop} (hinit : ∀ s, S.init s → P s)
    (hstep : ∀ s l s', S.Reach ok s → P s → S.step s l s' → ok s l s' → P s')
    {s : σ} (h : S.Reach ok s) : P s := by
  induction h with
  | init h0 => exact hinit _ h0
  | step hr hs hok ih => exact hstep _ _ _ hr ih hs hok

/-- The states that runs from `s` reach whose steps all meet the condition `ok`. -/
inductive Run (S : Lts σ ℓ) (ok : σ → ℓ → σ → Prop) (s : σ) : σ → Prop where
  /-- no step -/
  | refl : Run S ok s s
  /-- one more step -/
  | step {s' s'' : σ} {l : ℓ} : Run S ok s s' → S.step s' l s'' → ok s' l s'' → Run S ok s s''

/-- A run may go on. -/
theorem Reach.run (himp : ∀ s l s', ok' s l s' → ok s l s') {s s' : σ} (h : S.Reach ok s)
    (hrun : S.Run ok' s s') : S.Reach ok s' := by
  induction hrun with
  | refl => exact h
  | step _ hs hok ih => exact .step ih hs (himp _ _ _ hok)

end Lts

/-- What every move keeps, every sequence of moves keeps. -/
theorem preserved_of_reflTransGen {σ : Type*} {move : σ → σ → Prop} {P : σ → Prop}
    (hmove : ∀ s s', P s → move s s' → P s') {s s' : σ}
    (h : Relation.ReflTransGen move s s') (hP : P s) : P s' := by
  induction h with
  | refl => exact hP
  | tail _ hm ih => exact hmove _ _ ih hm

/-- What every move keeps that leaves a rising measure where it is, every sequence of moves
keeps that leaves it there. -/
theorem preserved_of_level {σ α : Type*} [PartialOrder α] {move : σ → σ → Prop} {P : σ → Prop}
    {μ : σ → α}
    (hrise : ∀ s s', move s s' → μ s ≤ μ s')
    (hmove : ∀ s s', P s → move s s' → μ s' = μ s → P s') {s s' : σ}
    (h : Relation.ReflTransGen move s s') (hlevel : μ s' = μ s) (hP : P s) : P s' := by
  have hkept : μ s ≤ μ s' ∧ (μ s' ≤ μ s → P s') := by
    clear hlevel
    induction h with
    | refl => exact ⟨le_rfl, fun _ => hP⟩
    | tail _ hm ih =>
      have hle := hrise _ _ hm
      refine ⟨ih.1.trans hle, fun hback => ?_⟩
      exact hmove _ _ (ih.2 (hle.trans hback)) hm (le_antisymm (hback.trans ih.1) hle)
  exact hkept.2 hlevel.le
