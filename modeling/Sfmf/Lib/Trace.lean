import Mathlib.Tactic

/-!
# Executions as indexed traces

For a system with a total step function, `stateAt step s es n` is the state
after the first `n` events of `es`.

* `stateAt_succ`: one more event is one more step.
* `stateAt_inv`: the invariant rule over the points of one trace.
-/

namespace Sfmf

variable {σ ε : Type}

/-- The state after the first `n` events. -/
def stateAt (step : σ → ε → σ) (s : σ) (es : List ε) (n : ℕ) : σ := (es.take n).foldl step s

variable {step : σ → ε → σ} {s : σ} {es : List ε}

@[simp] theorem stateAt_zero : stateAt step s es 0 = s := by simp [stateAt]

/-- **One more event is one more step.** -/
theorem stateAt_succ {n : ℕ} (hn : n < es.length) :
    stateAt step s es (n + 1) = step (stateAt step s es n) es[n] := by
  unfold stateAt
  rw [List.take_add_one, List.getElem?_eq_getElem hn, Option.toList_some, List.foldl_append]
  rfl

/-- **The invariant rule.** What holds at the start, and is kept by every event of
the trace, holds at every point. -/
theorem stateAt_inv (P : σ → Prop) (h0 : P s)
    (hstep : ∀ n (hn : n < es.length), P (stateAt step s es n) → P (step (stateAt step s es n) es[n])) :
    ∀ n, n ≤ es.length → P (stateAt step s es n) := by
  intro n
  induction n with
  | zero => intro _; simpa using h0
  | succ n ih =>
    intro hn
    rw [stateAt_succ (by omega)]
    exact hstep n (by omega) (ih (by omega))

end Sfmf
