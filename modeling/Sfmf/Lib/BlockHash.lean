import Mathlib.Tactic

/-!
# Hashing in blocks

A hash function that compresses its message block by block into a chaining value.

* `Compressor.chain`, `Compressor.rest`: the chaining value after the full blocks of
  a message, and what is behind them.
* `chain_append`, `rest_append`: a message that is continued needs only these two.
* `chain_short`, `chain_block`: what is behind, before and when it fills a block.
-/

namespace Sfmf

/-- A compression function on blocks of `size` items. -/
structure Compressor (α S : Type) where
  size : ℕ
  size_pos : 0 < size
  compress : S → List α → S

namespace Compressor

variable {α S : Type} (C : Compressor α S)

/-- `k` blocks, one after another. -/
def absorb : ℕ → S → List α → S
  | 0, s, _ => s
  | k + 1, s, m => absorb k (C.compress s (m.take C.size)) (m.drop C.size)

/-- The chaining value after the full blocks of a message. -/
def chain (s : S) (m : List α) : S := C.absorb (m.length / C.size) s m

/-- What is behind the full blocks. -/
def rest (m : List α) : List α := m.drop (m.length / C.size * C.size)

theorem absorb_add (a b : ℕ) (s : S) (m : List α) :
    C.absorb (a + b) s m = C.absorb b (C.absorb a s m) (m.drop (a * C.size)) := by
  induction a generalizing s m with
  | zero => simp [absorb]
  | succ a ih =>
    rw [Nat.succ_add, absorb, absorb, ih, List.drop_drop]
    congr 2
    ring

/-- What is behind `k` blocks does not matter to them. -/
theorem absorb_append {k : ℕ} {m : List α} (h : k * C.size ≤ m.length) (s : S) (x : List α) :
    C.absorb k s (m ++ x) = C.absorb k s m := by
  induction k generalizing s m with
  | zero => rfl
  | succ k ih =>
    rw [Nat.succ_mul] at h
    have hsize : C.size ≤ m.length := by omega
    rw [absorb, absorb, List.take_append_of_le_length hsize, List.drop_append_of_le_length hsize]
    exact ih (by rw [List.length_drop]; omega) _

@[simp] theorem rest_length (m : List α) : (C.rest m).length = m.length % C.size := by
  rw [rest, List.length_drop]
  have := Nat.div_add_mod' m.length C.size
  omega

/-- The number of full blocks of a message that is continued. -/
theorem length_append_div (m x : List α) :
    (m ++ x).length / C.size = m.length / C.size + (C.rest m ++ x).length / C.size := by
  have hlen : (m ++ x).length = (C.rest m ++ x).length + C.size * (m.length / C.size) := by
    have := Nat.div_add_mod m.length C.size
    rw [List.length_append, List.length_append, rest_length]
    omega
  rw [hlen, Nat.add_mul_div_left _ _ C.size_pos, Nat.add_comm]

theorem drop_append_rest (m x : List α) : (m ++ x).drop (m.length / C.size * C.size) = C.rest m ++ x :=
  List.drop_append_of_le_length (Nat.div_mul_le_self _ _)

/-- **A message that is continued**: its full blocks and what is behind them are all that matters. -/
theorem chain_append (s : S) (m x : List α) : C.chain s (m ++ x) = C.chain (C.chain s m) (C.rest m ++ x) := by
  rw [chain, length_append_div, absorb_add, absorb_append C (Nat.div_mul_le_self _ _), drop_append_rest]
  rfl

theorem rest_append (m x : List α) : C.rest (m ++ x) = C.rest (C.rest m ++ x) := by
  rw [rest, length_append_div, Nat.add_mul, ← List.drop_drop, drop_append_rest]
  rfl

/-- Less than a block is only kept. -/
theorem chain_short {m : List α} (h : m.length < C.size) (s : S) : C.chain s m = s := by
  rw [chain, Nat.div_eq_of_lt h, absorb]

theorem rest_short {m : List α} (h : m.length < C.size) : C.rest m = m := by
  rw [rest, Nat.div_eq_of_lt h, Nat.zero_mul, List.drop_zero]

/-- **A full block** is compressed. -/
theorem chain_block {b : List α} (h : b.length = C.size) (s : S) (m : List α) :
    C.chain s (b ++ m) = C.chain (C.compress s b) m := by
  have hone : b.length / C.size = 1 := by rw [h, Nat.div_self C.size_pos]
  have hrest : C.rest b = [] := List.eq_nil_of_length_eq_zero (by rw [rest_length, h, Nat.mod_self])
  have hchain : C.chain s b = C.compress s b := by rw [chain, hone, absorb, absorb, List.take_of_length_le h.le]
  rw [chain_append, hrest, List.nil_append, hchain]

theorem rest_block {b : List α} (h : b.length = C.size) (m : List α) : C.rest (b ++ m) = C.rest m := by
  have hrest : C.rest b = [] := List.eq_nil_of_length_eq_zero (by rw [rest_length, h, Nat.mod_self])
  rw [rest_append, hrest, List.nil_append]

end Compressor

end Sfmf
