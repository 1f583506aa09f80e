import Sfmf.Lib.Exec

/-!
# How runs end when the budget is large enough

A run whose loops have a step budget ends in one way from some budget on, or it
does not. `Exec.Leads Q R run` is the judgement that it does, with a value for
which `Q` holds or for a reason in `R`; what is in `R` is the choice of who uses it.
With `R` empty the run returns, and with all reasons but `Stop.spin` in it the run
comes to an end, so one derivation serves both.

* `Exec.Leads.bind`: the rule for sequences, `Exec.Leads.foldlM` and
  `Exec.Leads.mapM` those for loops.
* `Exec.Leads.assert`: an assertion has to hold where `R` has no room for failures.
* `Exec.Below`: the order of runs by their budgets, in which a run that has not used it up is the same as with a
  larger one. `Exec.Below.bind` and `Exec.Below.foldlM` are its rules, and `Exec.Growing.settles` says that one run
  with a result is enough to know what all later ones do.
-/

namespace Sfmf

variable {α β σ : Type}

/-- A run has one result for large enough budgets. -/
theorem Exec.Settles.unique {run : ℕ → Exec α} {x y : Exec α} (hx : Exec.Settles run x) (hy : Exec.Settles run y) :
    x = y := by
  obtain ⟨k, hx, hy⟩ := (hx.and hy).exists
  exact hx.symm.trans hy

/-- A value for which `Q` holds, or a reason in `R`. -/
def Exec.Ending (Q : α → Prop) (R : Stop → Prop) : Exec α → Prop
  | .ok a => Q a
  | .error s => R s

/-- **With every budget from some one on the run ends in one way**: it returns a value for which `Q`
holds, or stops for a reason in `R`. -/
def Exec.Leads (Q : α → Prop) (R : Stop → Prop) (run : ℕ → Exec α) : Prop :=
  ∃ x, Exec.Settles run x ∧ Exec.Ending Q R x

/-- Whether the code may stop by itself, at an assertion or with a message. -/
def MayStop (R : Stop → Prop) : Prop := ∀ s, s ≠ .spin → R s

theorem mayStop_ne_spin : MayStop (· ≠ .spin) := fun _ h => h

namespace Exec.Leads

variable {Q : α → Prop} {Q' : β → Prop} {R : Stop → Prop} {run : ℕ → Exec α}

theorem congr {run' : ℕ → Exec α} (h : ∀ k, run k = run' k) (hrun : Exec.Leads Q R run') : Exec.Leads Q R run := by
  obtain ⟨x, hx, hend⟩ := hrun
  exact ⟨x, .congr h hx, hend⟩

theorem of_settles {a : α} (h : Exec.Settles run (.ok a)) (ha : Q a) : Exec.Leads Q R run := ⟨.ok a, h, ha⟩

theorem pure {a : α} (ha : Q a) : Exec.Leads Q R (fun _ => .ok a) := .of_settles (.of_eq fun _ => rfl) ha

theorem stop (hR : MayStop R) {s : Stop} (hs : s ≠ .spin) : Exec.Leads Q R (fun _ => .error s) :=
  ⟨.error s, .of_eq fun _ => rfl, hR s hs⟩

/-- What holds of every value that is returned holds of this one. -/
theorem post {P : α → Prop} (h : Exec.Leads Q R run) (hP : ∀ k a, run k = .ok a → P a) :
    Exec.Leads (fun a => Q a ∧ P a) R run := by
  obtain ⟨x, hx, hend⟩ := h
  refine ⟨x, hx, ?_⟩
  cases x with
  | ok a =>
    obtain ⟨k, hk⟩ := hx.exists
    exact ⟨hend, hP k a hk⟩
  | error s => exact hend

/-- **The rule for sequences.** -/
theorem bind {f : ℕ → α → Exec β} (hrun : Exec.Leads Q R run)
    (hf : ∀ a, Exec.Settles run (.ok a) → Q a → Exec.Leads Q' R (fun k => f k a)) :
    Exec.Leads Q' R (fun k => run k >>= f k) := by
  obtain ⟨x, hx, hend⟩ := hrun
  cases x with
  | ok a =>
    obtain ⟨y, hy, hend'⟩ := hf a hx hend
    exact ⟨y, hx.bind hy, hend'⟩
  | error s => exact ⟨.error s, hx.bind_error, hend⟩

/-- **An assertion** holds, where the code may not stop. -/
theorem assert {p : Prop} [Decidable p] {text : String} (h : p ∨ MayStop R) :
    Exec.Leads (fun _ => p) R (fun _ => cAssert p text) := by
  by_cases hp : p
  · rw [cAssert_pos hp]
    exact .pure hp
  · rw [cAssert, if_neg hp]
    exact .stop (h.resolve_left hp) fun he => by cases he

/-- **The rule for loops that thread a state.** -/
theorem foldlM {P : σ → Prop} {f : ℕ → σ → α → Exec σ} {l : List α}
    (hstep : ∀ s a, a ∈ l → P s → Exec.Leads P R (fun k => f k s a)) :
    ∀ {s}, P s → Exec.Leads P R (fun k => l.foldlM (f k) s) := by
  induction l with
  | nil => exact fun hs => .pure hs
  | cons a l ih =>
    intro s hs
    exact (hstep s a List.mem_cons_self hs).bind fun s' _ hs' =>
      ih (fun s a ha => hstep s a (List.mem_cons_of_mem _ ha)) hs'

/-- **The rule for loops that collect results.** -/
theorem mapM {T : β → Prop} {f : ℕ → α → Exec β} {l : List α} (hf : ∀ a ∈ l, Exec.Leads T R (fun k => f k a)) :
    Exec.Leads (fun bs => ∀ b ∈ bs, T b) R (fun k => l.mapM (f k)) := by
  induction l with
  | nil => exact .pure (by simp)
  | cons a l ih =>
    simp only [List.mapM_cons]
    refine (hf a List.mem_cons_self).bind fun b _ hb => ?_
    refine (ih fun a ha => hf a (List.mem_cons_of_mem _ ha)).bind fun bs _ hbs => .pure ?_
    exact List.forall_mem_cons.2 ⟨hb, hbs⟩

end Exec.Leads

/-! ## More and more budget -/

/-- **The order of runs by their budgets**: one that has used it up is below all others. -/
def Exec.Below (x y : Exec α) : Prop := x = .error .spin ∨ x = y

namespace Exec.Below

theorem refl (x : Exec α) : Exec.Below x x := .inr rfl

theorem spin (y : Exec α) : Exec.Below (.error .spin) y := .inl rfl

/-- A run that has not used up its budget has nothing above it. -/
theorem eq {x y : Exec α} (h : Exec.Below x y) (hx : x ≠ .error .spin) : y = x := (h.resolve_left hx).symm

theorem ok {y : Exec α} {a : α} (h : Exec.Below (.ok a) y) : y = .ok a := h.eq fun he => by cases he

/-- **The rule for sequences.** -/
theorem bind {x y : Exec α} {f g : α → Exec β} (h : Exec.Below x y) (hf : ∀ a, Exec.Below (f a) (g a)) :
    Exec.Below (x >>= f) (y >>= g) := by
  rcases h with rfl | rfl
  · exact .spin _
  · cases x with
    | ok a => exact hf a
    | error s => exact .refl _

/-- **The rule for loops.** -/
theorem foldlM {f g : σ → α → Exec σ} {l : List α} (h : ∀ s, ∀ a ∈ l, Exec.Below (f s a) (g s a)) (s : σ) :
    Exec.Below (l.foldlM f s) (l.foldlM g s) := by
  induction l generalizing s with
  | nil => exact .refl _
  | cons a l ih =>
    exact (h s a List.mem_cons_self).bind fun s' => ih (fun s b hb => h s b (List.mem_cons_of_mem _ hb)) s'

end Exec.Below

/-- A run that does the same with a larger budget, if it has not used up its own. -/
def Exec.Growing (run : ℕ → Exec α) : Prop := ∀ k k', k ≤ k' → Exec.Below (run k) (run k')

/-- **One run with a result tells what all later ones do.** -/
theorem Exec.Growing.settles {run : ℕ → Exec α} (h : Exec.Growing run) {k : ℕ} (hk : run k ≠ .error .spin) :
    Exec.Settles run (run k) :=
  Filter.eventually_atTop.2 ⟨k, fun k' hle => (h k k' hle).eq hk⟩

end Sfmf
