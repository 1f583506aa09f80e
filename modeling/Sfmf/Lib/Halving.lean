import Mathlib.Tactic

/-!
# A search that halves its width

A search stands at a center. In each round it halves its width and moves by it: down, up, or
not at all.

* `Within.walk`: whichever way it moves, it stays in the range that its width left to it.
* `start_within`: from the middle of a range, with half of its length, that is the range.
* `foldl_halving`: what is left of a width that is halved in each round.
-/

namespace Sfmf.Halving

/-- Which way a search moves. -/
inductive Move where
  | down
  | stay
  | up
  deriving DecidableEq, Repr

/-- Where a search stands, and how far it can still go. -/
structure Probe where
  center : ℕ
  width : ℕ
  deriving DecidableEq, Repr

/-- One round. -/
def Probe.step (p : Probe) : Move → Probe
  | .down => ⟨p.center - p.width / 2, p.width / 2⟩
  | .stay => ⟨p.center, p.width / 2⟩
  | .up => ⟨p.center + p.width / 2, p.width / 2⟩

/-- The middle of a range, and half of its length. -/
def start (lo hi : ℕ) : Probe := ⟨(hi + lo) / 2, (hi - lo) / 2⟩

/-- The width does not lead out of the range. -/
def Probe.Within (lo hi : ℕ) (p : Probe) : Prop := lo + p.width ≤ p.center ∧ p.center + p.width ≤ hi

variable {lo hi : ℕ} {p : Probe}

theorem start_within (h : lo ≤ hi) : (start lo hi).Within lo hi := by
  unfold start Probe.Within
  dsimp only
  omega

/-- A round gives up one half of the width and moves by the other. -/
theorem Probe.Within.step (h : p.Within lo hi) (m : Move) : (p.step m).Within lo hi := by
  unfold Probe.Within at *
  cases m with
  | down =>
    simp only [Probe.step]
    omega
  | stay =>
    simp only [Probe.step]
    omega
  | up =>
    simp only [Probe.step]
    omega

/-- **A search stays in its range**, whichever way it moves. -/
theorem Probe.Within.walk (h : p.Within lo hi) (moves : List Move) : (moves.foldl Probe.step p).Within lo hi := by
  induction moves generalizing p with
  | nil => exact h
  | cons m moves ih => exact ih (h.step m)

/-- **A width that is halved in each round**, whatever else a round does. -/
theorem foldl_halving {σ ε : Type} {step : σ → ε → σ} (width : σ → ℕ)
    (hstep : ∀ s e, width (step s e) = width s / 2) (es : List ε) (s : σ) :
    width (es.foldl step s) = width s / 2 ^ es.length := by
  induction es generalizing s with
  | nil => simp
  | cons e es ih =>
    rw [List.foldl_cons, ih, hstep, Nat.div_div_eq_div_mul, List.length_cons, pow_succ, mul_comm]

end Sfmf.Halving
