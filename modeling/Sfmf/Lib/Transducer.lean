import Mathlib.Tactic

/-!
# Transducers with an end

A transducer reads letters and writes words. It may refuse a letter, and from its
end on it refuses every letter; with the last letter it writes nothing. The words
that it reads to its end are a prefix-free code.

* `Transducer.decode`, `Transducer.decode_prefixFree`: the code.
* `Transducer.pull`: read what is at hand while there is room for what is written;
  a letter is read only when all that is owed has been given.
* `Transducer.pull_reads`, `Transducer.pull_fits`, `Transducer.pull_progress`: what that reads and gives.
-/

/-- A transducer from words over `α` to words over `β`. -/
structure Transducer (α β : Type) where
  State : Type
  start : State
  /-- the next state and what is written, unless the letter is refused -/
  step : State → α → Option (State × List β)
  ended : State → Bool
  ended_step : ∀ {s}, ended s = true → ∀ a, step s a = none
  last_step : ∀ {s a s' w}, step s a = some (s', w) → ended s' = true → w = []

namespace Transducer

variable {α β : Type} (T : Transducer α β)

/-- Read a word: the state behind it and all that is written. -/
def run : T.State → List α → Option (T.State × List β)
  | s, [] => some (s, [])
  | s, a :: x => (T.step s a).bind fun p => (run p.1 x).map fun q => (q.1, p.2 ++ q.2)

/-- What a word that is read to the end stands for. -/
def decode (x : List α) : Option (List β) :=
  (T.run T.start x).bind fun p => if T.ended p.1 then some p.2 else none

variable {T}

theorem run_cons {s s' : T.State} {a : α} {w : List β} (h : T.step s a = some (s', w)) (x : List α) :
    T.run s (a :: x) = (T.run s' x).map fun p => (p.1, w ++ p.2) := by
  rw [run, h, Option.bind_some]

theorem run_append {s s' : T.State} {x : List α} {w : List β} (h : T.run s x = some (s', w)) (y : List α) :
    T.run s (x ++ y) = (T.run s' y).map fun p => (p.1, w ++ p.2) := by
  induction x generalizing s w with
  | nil =>
    obtain ⟨rfl, rfl⟩ := Prod.mk.inj (Option.some.inj h)
    cases hy : T.run s y <;> simp [hy]
  | cons a x ih =>
    cases ha : T.step s a with
    | none => simp [run, ha] at h
    | some p =>
      obtain ⟨s₁, w₁⟩ := p
      rw [run_cons ha] at h
      obtain ⟨⟨s₂, w₂⟩, hx, he⟩ := Option.map_eq_some_iff.1 h
      obtain ⟨rfl, rfl⟩ := Prod.mk.inj he
      rw [List.cons_append, run_cons ha, ih hx, Option.map_map]
      congr 1
      funext p
      simp

theorem run_append_none {s : T.State} {x : List α} (h : T.run s x = none) (y : List α) : T.run s (x ++ y) = none := by
  induction x generalizing s with
  | nil => cases h
  | cons a x ih =>
    cases ha : T.step s a with
    | none => simp [run, ha]
    | some p =>
      rw [run_cons ha, Option.map_eq_none_iff] at h
      rw [List.cons_append, run_cons ha, ih h, Option.map_none]

/-- Nothing is read behind the end. -/
theorem run_ended {s : T.State} (h : T.ended s = true) {x : List α} (hx : x ≠ []) : T.run s x = none := by
  cases x with
  | nil => exact absurd rfl hx
  | cons a x => simp [run, T.ended_step h a]

theorem decode_eq_some {x : List α} {d : List β} :
    T.decode x = some d ↔ ∃ s, T.run T.start x = some (s, d) ∧ T.ended s = true := by
  unfold decode
  constructor
  · intro h
    obtain ⟨⟨s, w⟩, hs, h⟩ := Option.bind_eq_some_iff.1 h
    by_cases hend : T.ended s = true
    · rw [if_pos hend, Option.some.injEq] at h
      exact ⟨s, h ▸ hs, hend⟩
    · rw [if_neg hend] at h
      cases h
  · rintro ⟨s, hs, hend⟩
    rw [hs, Option.bind_some, if_pos hend]

theorem decode_isSome {x : List α} {s : T.State} {w : List β} (h : T.run T.start x = some (s, w)) :
    (T.decode x).isSome ↔ T.ended s = true := by
  simp only [Option.isSome_iff_exists, decode_eq_some, h]
  constructor
  · rintro ⟨d, s', hs, hend⟩
    obtain ⟨rfl, rfl⟩ := Prod.mk.inj (Option.some.inj hs)
    exact hend
  · exact fun hend => ⟨w, s, rfl, hend⟩

/-- What has been read has no end within it. -/
theorem decode_stops {z x : List α} {p : T.State × List β} (h : T.run T.start x = some p)
    (hz : (T.decode z).isSome) (hzx : z <+: x) : z = x := by
  obtain ⟨d, hd⟩ := Option.isSome_iff_exists.1 hz
  obtain ⟨s, hs, hend⟩ := decode_eq_some.1 hd
  obtain ⟨y, rfl⟩ := hzx
  by_contra hne
  have hy : y ≠ [] := fun hy => hne (by rw [hy, List.append_nil])
  rw [run_append hs, run_ended hend hy] at h
  cases h

/-- **The words that are read to the end are a prefix-free code.** -/
theorem decode_prefixFree {z z' : List α} (hz : (T.decode z).isSome) (hz' : (T.decode z').isSome) (h : z <+: z') :
    z = z' := by
  obtain ⟨d, hd⟩ := Option.isSome_iff_exists.1 hz'
  obtain ⟨s, hs, _⟩ := decode_eq_some.1 hd
  exact decode_stops hs hz h

/-! ## Reading with bounded room -/

variable (T)

/-- The state of a reader: what has been written but not been given yet is owed. -/
structure Pulling where
  state : T.State
  owed : List β

/-- What a call of the reader does: the letters it has read, what it has given, and whether it has met
a letter that is refused before the end. -/
structure Pulled where
  next : T.Pulling
  consumed : ℕ
  out : List β
  refused : Bool

/-- Read letters of `x` while there is room for what is owed, `n` letters at the start. -/
def pull : T.Pulling → List α → ℕ → T.Pulled
  | r, [], n => ⟨⟨r.state, r.owed.drop n⟩, 0, r.owed.take n, false⟩
  | r, a :: x, n =>
    if n < r.owed.length then ⟨⟨r.state, r.owed.drop n⟩, 0, r.owed.take n, false⟩
    else
      match T.step r.state a with
      | none => ⟨⟨r.state, []⟩, 0, r.owed, !T.ended r.state⟩
      | some (s, w) =>
        let p := pull ⟨s, w⟩ x (n - r.owed.length)
        ⟨p.next, p.consumed + 1, r.owed ++ p.out, p.refused⟩

variable {T}

theorem pull_full {r : T.Pulling} {n : ℕ} (h : n < r.owed.length) (x : List α) :
    T.pull r x n = ⟨⟨r.state, r.owed.drop n⟩, 0, r.owed.take n, false⟩ := by
  cases x with
  | nil => rfl
  | cons a x => rw [pull, if_pos h]

theorem pull_refuse {r : T.Pulling} {a : α} {n : ℕ} (hn : ¬ n < r.owed.length) (h : T.step r.state a = none)
    (x : List α) : T.pull r (a :: x) n = ⟨⟨r.state, []⟩, 0, r.owed, !T.ended r.state⟩ := by
  simp only [pull, if_neg hn, h]

theorem pull_step {r : T.Pulling} {a : α} {s : T.State} {w : List β} {n : ℕ} (hn : ¬ n < r.owed.length)
    (h : T.step r.state a = some (s, w)) (x : List α) :
    T.pull r (a :: x) n =
      ⟨(T.pull ⟨s, w⟩ x (n - r.owed.length)).next, (T.pull ⟨s, w⟩ x (n - r.owed.length)).consumed + 1,
        r.owed ++ (T.pull ⟨s, w⟩ x (n - r.owed.length)).out, (T.pull ⟨s, w⟩ x (n - r.owed.length)).refused⟩ := by
  simp only [pull, if_neg hn, h]

/-- Nothing is owed at the end. -/
def Pulling.Settled (r : T.Pulling) : Prop := T.ended r.state = true → r.owed = []

/-- What a call of the reader does to `x` from the state `r`. -/
structure Pulled.Reads (p : T.Pulled) (r : T.Pulling) (x : List α) : Prop where
  fits : p.consumed ≤ x.length
  /-- what was owed and what is written now has been given, or is owed -/
  reads : ∃ w, T.run r.state (x.take p.consumed) = some (p.next.state, w) ∧ r.owed ++ w = p.out ++ p.next.owed
  settled : r.Settled → p.next.Settled
  refused : p.refused = true → T.ended p.next.state = false ∧
    ∃ a y, x.drop p.consumed = a :: y ∧ T.step p.next.state a = none

/-- **What a call of the reader does.** -/
theorem pull_reads (r : T.Pulling) (x : List α) (n : ℕ) : (T.pull r x n).Reads r x := by
  induction x generalizing r n with
  | nil =>
    refine ⟨Nat.zero_le _, ⟨[], rfl, ?_⟩, fun h hend => ?_, fun h => by cases h⟩
    · rw [pull, List.append_nil, List.take_append_drop]
    · rw [pull, h hend, List.drop_nil]
  | cons a x ih =>
    by_cases hn : n < r.owed.length
    · rw [pull_full hn]
      refine ⟨Nat.zero_le _, ⟨[], rfl, ?_⟩, fun h hend => ?_, fun h => by cases h⟩
      · rw [List.append_nil, List.take_append_drop]
      · rw [h hend, List.drop_nil]
    cases ha : T.step r.state a with
    | none =>
      rw [pull_refuse hn ha]
      refine ⟨Nat.zero_le _, ⟨[], rfl, rfl⟩, fun _ _ => rfl, fun h => ⟨by simpa using h, a, x, rfl, ha⟩⟩
    | some p =>
      obtain ⟨s, w⟩ := p
      have h := ih ⟨s, w⟩ (n - r.owed.length)
      rw [pull_step hn ha]
      generalize T.pull ⟨s, w⟩ x (n - r.owed.length) = q at h
      obtain ⟨w', hrun, hout⟩ := h.reads
      refine ⟨Nat.succ_le_succ h.fits, ⟨w ++ w', ?_, ?_⟩, fun _ => h.settled fun hend => T.last_step ha hend,
        h.refused⟩
      · rw [List.take_succ_cons, run_cons ha, hrun, Option.map_some]
      · rw [hout, List.append_assoc]

/-- A call gives no more than there is room for. -/
theorem pull_fits (r : T.Pulling) (x : List α) (n : ℕ) : (T.pull r x n).out.length ≤ n := by
  induction x generalizing r n with
  | nil => exact List.length_take_le _ _
  | cons a x ih =>
    by_cases hn : n < r.owed.length
    · rw [pull_full hn]
      exact List.length_take_le _ _
    cases ha : T.step r.state a with
    | none =>
      rw [pull_refuse hn ha]
      exact Nat.le_of_not_lt hn
    | some p =>
      rw [pull_step hn ha, List.length_append]
      have := ih ⟨p.1, p.2⟩ (n - r.owed.length)
      omega

/-- Before the end, a call with input and room reads a letter, gives one, or meets one that is refused. -/
theorem pull_progress {r : T.Pulling} {x : List α} {n : ℕ} (hx : x ≠ []) (hn : 0 < n)
    (hr : T.ended r.state = false) (hp : (T.pull r x n).refused = false) :
    0 < (T.pull r x n).consumed ∨ (T.pull r x n).out ≠ [] := by
  by_cases hfull : n < r.owed.length
  · rw [pull_full hfull]
    refine .inr fun h => ?_
    have hlen := congrArg List.length h
    rw [List.length_take, List.length_nil] at hlen
    omega
  obtain ⟨a, y, rfl⟩ := List.exists_cons_of_ne_nil hx
  cases ha : T.step r.state a with
  | none =>
    rw [pull_refuse hfull ha, hr] at hp
    cases hp
  | some p => rw [pull_step hfull ha]; exact .inl (Nat.succ_pos _)

/-- At the end nothing is read or given. -/
theorem pull_ended {r : T.Pulling} (hr : T.ended r.state = true) (ho : r.owed = []) (x : List α) (n : ℕ) :
    T.pull r x n = ⟨r, 0, [], false⟩ := by
  obtain ⟨s, owed⟩ := r
  simp only at ho hr
  subst ho
  cases x with
  | nil => simp [pull]
  | cons a x =>
    rw [pull_refuse (by simp) (T.ended_step hr a)]
    simp [hr]

end Transducer
