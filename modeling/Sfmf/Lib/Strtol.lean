import Mathlib.Data.List.TakeWhile
import Sfmf.Lib.Bytes

/-!
# Decimal numbers in strings

`strtol` with the base 10, in the C locale and with a `long` of 64 bits, and the grammar of what
it reads.

* `scanLong_iff`: the whole string is read exactly when it is a decimal number.
* `Decimal.unique`: a string has one number at most.
* `strtol_whole`: what `strtol` returns where nothing is left and no limit is met.
-/

namespace Sfmf

def longMin : ℤ := -2 ^ 63

def longMax : ℤ := 2 ^ 63 - 1

/-- White space of the C locale. -/
def isspace (b : UInt8) : Bool := b.toNat = 0x20 ∨ (0x09 ≤ b.toNat ∧ b.toNat ≤ 0x0d)

def isdigit (b : UInt8) : Bool := 0x30 ≤ b.toNat ∧ b.toNat ≤ 0x39

/-- `+`. -/
def plusSign : UInt8 := 0x2b

/-- `-`. -/
def minusSign : UInt8 := 0x2d

/-- The value of a string of digits. -/
def digitsValue (ds : Bytes) : ℕ := ds.foldl (fun n d => 10 * n + (d.toNat - 0x30)) 0

/-- Whether there is a minus sign, and what follows the sign. -/
def takeSign (s : Bytes) : Bool × Bytes :=
  if s.head? = some minusSign then (true, s.drop 1)
  else if s.head? = some plusSign then (false, s.drop 1)
  else (false, s)

/-- The number at the start of a string, without a bound, and the rest of the string. -/
def scanLong (s : Bytes) : Option (ℤ × Bytes) :=
  let (negative, rest) := takeSign (s.dropWhile isspace)
  let ds := rest.takeWhile isdigit
  if ds = [] then none
  else some (if negative then -(digitsValue ds : ℤ) else digitsValue ds, rest.dropWhile isdigit)

/-- `strtol(s, &endptr, 10)`: the value, and the string at `endptr`. Without digits, that is the string it
was given. -/
def strtol (s : Bytes) : ℤ × Bytes :=
  match scanLong s with
  | none => (0, s)
  | some (n, endptr) => (max longMin (min longMax n), endptr)

/-- **A decimal number**: white space, a sign and digits. -/
inductive Decimal : Bytes → ℤ → Prop
  | unsigned {ws ds : Bytes} : (∀ b ∈ ws, isspace b) → ds ≠ [] → (∀ b ∈ ds, isdigit b) →
      Decimal (ws ++ ds) (digitsValue ds)
  | plus {ws ds : Bytes} : (∀ b ∈ ws, isspace b) → ds ≠ [] → (∀ b ∈ ds, isdigit b) →
      Decimal (ws ++ plusSign :: ds) (digitsValue ds)
  | minus {ws ds : Bytes} : (∀ b ∈ ws, isspace b) → ds ≠ [] → (∀ b ∈ ds, isdigit b) →
      Decimal (ws ++ minusSign :: ds) (-(digitsValue ds : ℤ))

/-! ## What is read -/

theorem isdigit_iff {b : UInt8} : isdigit b ↔ 0x30 ≤ b.toNat ∧ b.toNat ≤ 0x39 := by
  simp [isdigit]

/-- A digit is neither white space nor a sign. -/
theorem digit_ne {b : UInt8} (h : isdigit b) : ¬ isspace b ∧ b ≠ minusSign ∧ b ≠ plusSign := by
  rw [isdigit_iff] at h
  refine ⟨fun hs => ?_, ?_, ?_⟩
  · have := of_decide_eq_true hs
    omega
  · rintro rfl
    exact absurd h (by decide)
  · rintro rfl
    exact absurd h (by decide)

/-- White space is passed over, up to the first byte that is none. -/
theorem dropWhile_isspace {ws : Bytes} (hws : ∀ b ∈ ws, isspace b) {b : UInt8} (hb : ¬ isspace b) (s : Bytes) :
    (ws ++ b :: s).dropWhile isspace = b :: s := by
  rw [List.dropWhile_append_of_pos hws, List.dropWhile_cons_of_neg hb]

/-- Digits up to the end of the string. -/
theorem takeWhile_isdigit {ds : Bytes} (hds : ∀ b ∈ ds, isdigit b) :
    ds.takeWhile isdigit = ds ∧ ds.dropWhile isdigit = [] :=
  ⟨List.takeWhile_eq_self_iff.2 hds, List.dropWhile_eq_nil_iff.2 hds⟩

theorem takeSign_none {b : UInt8} (hminus : b ≠ minusSign) (hplus : b ≠ plusSign) (s : Bytes) :
    takeSign (b :: s) = (false, b :: s) := by
  rw [takeSign, List.head?_cons, if_neg fun h => hminus (Option.some.inj h),
    if_neg fun h => hplus (Option.some.inj h)]

/-- **A decimal number is read as a whole.** -/
theorem Decimal.scan {s : Bytes} {n : ℤ} (h : Decimal s n) : scanLong s = some (n, []) := by
  cases h with
  | @unsigned ws ds hws hne hds =>
    obtain ⟨htake, hdrop⟩ := takeWhile_isdigit hds
    obtain ⟨d, ds, rfl⟩ := List.exists_cons_of_ne_nil hne
    obtain ⟨hspace, hminus, hplus⟩ := digit_ne (hds d List.mem_cons_self)
    unfold scanLong
    rw [dropWhile_isspace hws hspace, takeSign_none hminus hplus]
    simp only [htake, hdrop, if_neg hne, Bool.false_eq_true, if_false]
  | @plus ws ds hws hne hds =>
    obtain ⟨htake, hdrop⟩ := takeWhile_isdigit hds
    have hsign : takeSign (plusSign :: ds) = (false, ds) := rfl
    unfold scanLong
    rw [dropWhile_isspace hws (by decide), hsign]
    simp only [htake, hdrop, if_neg hne, Bool.false_eq_true, if_false]
  | @minus ws ds hws hne hds =>
    obtain ⟨htake, hdrop⟩ := takeWhile_isdigit hds
    have hsign : takeSign (minusSign :: ds) = (true, ds) := rfl
    unfold scanLong
    rw [dropWhile_isspace hws (by decide), hsign]
    simp only [htake, hdrop, if_neg hne, if_true]

theorem takeSign_cases (s : Bytes) : (s = minusSign :: (takeSign s).2 ∧ (takeSign s).1 = true) ∨
    (s = plusSign :: (takeSign s).2 ∧ (takeSign s).1 = false) ∨ (s = (takeSign s).2 ∧ (takeSign s).1 = false) := by
  cases s with
  | nil => exact .inr (.inr ⟨rfl, rfl⟩)
  | cons b s =>
    by_cases hminus : b = minusSign
    · subst hminus
      exact .inl ⟨rfl, rfl⟩
    by_cases hplus : b = plusSign
    · subst hplus
      exact .inr (.inl ⟨rfl, rfl⟩)
    rw [takeSign_none hminus hplus]
    exact .inr (.inr ⟨rfl, rfl⟩)

/-- **Only a decimal number is read as a whole.** -/
theorem decimal_of_scan {s : Bytes} {n : ℤ} (h : scanLong s = some (n, [])) : Decimal s n := by
  have hsplit := List.takeWhile_append_dropWhile (p := isspace) (l := s)
  have hws : ∀ b ∈ s.takeWhile isspace, isspace b := fun b hb => List.mem_takeWhile_imp hb
  unfold scanLong at h
  simp only at h
  split at h
  · cases h
  rename_i hne
  obtain ⟨hn, hend⟩ := Prod.mk.inj (Option.some.inj h)
  have hds := List.dropWhile_eq_nil_iff.1 hend
  rw [List.takeWhile_eq_self_iff.2 hds] at hn hne
  rw [← hsplit]
  rcases takeSign_cases (s.dropWhile isspace) with ⟨hs, hneg⟩ | ⟨hs, hneg⟩ | ⟨hs, hneg⟩
  · rw [hneg, if_pos rfl] at hn
    rw [hs, ← hn]
    exact .minus hws hne hds
  · rw [hneg, if_neg Bool.false_ne_true] at hn
    rw [hs, ← hn]
    exact .plus hws hne hds
  · rw [hneg, if_neg Bool.false_ne_true] at hn
    rw [hs, ← hn]
    exact .unsigned hws hne hds

theorem scanLong_iff {s : Bytes} {n : ℤ} : scanLong s = some (n, []) ↔ Decimal s n := ⟨decimal_of_scan, Decimal.scan⟩

/-- **A string has one number at most.** -/
theorem Decimal.unique {s : Bytes} {m n : ℤ} (hm : Decimal s m) (hn : Decimal s n) : m = n := by
  have h := hm.scan
  rw [hn.scan, Option.some.injEq, Prod.mk.injEq] at h
  exact h.1.symm

/-- **What `strtol` returns for the whole of a string**, away from the limits of a `long`. -/
theorem strtol_whole {s : Bytes} (hs : s ≠ []) {n : ℤ} :
    (strtol s = (n, []) ∧ n ≠ longMin ∧ n ≠ longMax) ↔ Decimal s n ∧ longMin < n ∧ n < longMax := by
  rw [← scanLong_iff]
  unfold strtol
  cases hscan : scanLong s with
  | none => simp [hs]
  | some r =>
    obtain ⟨m, endptr⟩ := r
    have hlimits : longMin < longMax := by decide
    simp only [Prod.mk.injEq, Option.some.injEq]
    constructor
    · rintro ⟨⟨hn, hend⟩, hmin, hmax⟩
      refine ⟨⟨?_, hend⟩, ?_, ?_⟩ <;> omega
    · rintro ⟨⟨hn, hend⟩, hmin, hmax⟩
      refine ⟨⟨?_, hend⟩, ?_, ?_⟩ <;> omega

end Sfmf
