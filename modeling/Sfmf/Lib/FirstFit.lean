import Mathlib.Tactic

/-!
# First fit

Items of a size go one by one into bins of a capacity: into the first bin with room,
or into a new one.

* `insert_cases`: what putting one item away does to the bins.
* `IsPacking.insert`: what it keeps of a packing.
* `pack_isPacking`: every list is packed without loss, within the capacity, and so that no
  item fits into an earlier bin.
-/

namespace Sfmf.FirstFit

variable {α : Type} (size : α → ℕ) (cap : ℕ)

/-- What is in a bin, by its size. -/
def load (bin : List α) : ℕ := (bin.map size).sum

/-- Put an item away. -/
def insert (x : α) : List (List α) → List (List α)
  | [] => [[x]]
  | b :: bins => if load size b + size x ≤ cap then (b ++ [x]) :: bins else b :: insert x bins

/-- Put the items of a list away, in its order. -/
def pack (l : List α) : List (List α) := l.foldl (fun bins x => insert size cap x bins) []

variable {size cap}

@[simp] theorem load_singleton (x : α) : load size [x] = size x := by simp [load]

@[simp] theorem load_append (b c : List α) : load size (b ++ c) = load size b + load size c := by
  simp [load]

/-- **What one item does to the bins**: it ends the first bin with room, or there is none and it is a new
bin. -/
theorem insert_cases (size : α → ℕ) (cap : ℕ) (x : α) (bins : List (List α)) :
    (∃ pre b post, bins = pre ++ b :: post ∧ insert size cap x bins = pre ++ (b ++ [x]) :: post ∧
      load size b + size x ≤ cap ∧ ∀ p ∈ pre, cap < load size p + size x) ∨
    (insert size cap x bins = bins ++ [[x]] ∧ ∀ p ∈ bins, cap < load size p + size x) := by
  induction bins with
  | nil => exact .inr ⟨rfl, by simp⟩
  | cons c bins ih =>
    unfold insert
    by_cases hfit : load size c + size x ≤ cap
    · rw [if_pos hfit]
      exact .inl ⟨[], c, bins, rfl, rfl, hfit, by simp⟩
    rw [if_neg hfit]
    rcases ih with ⟨pre, b, post, rfl, hins, hb, hpre⟩ | ⟨hins, hall⟩
    · refine .inl ⟨c :: pre, b, post, rfl, by rw [hins]; rfl, hb, fun p hp => ?_⟩
      rcases List.mem_cons.1 hp with rfl | hp
      · omega
      · exact hpre p hp
    · refine .inr ⟨by rw [hins]; rfl, fun p hp => ?_⟩
      rcases List.mem_cons.1 hp with rfl | hp
      · omega
      · exact hall p hp

/-- **A packing of a list**: nothing is lost or twice there, each bin is in the order of the list and within
the capacity unless it has a single larger item, and no item has room in an earlier bin. -/
structure IsPacking (size : α → ℕ) (cap : ℕ) (l : List α) (bins : List (List α)) : Prop where
  perm : bins.flatten.Perm l
  order : ∀ b ∈ bins, b.Sublist l
  nonempty : ∀ b ∈ bins, b ≠ []
  bounded : ∀ b ∈ bins, load size b ≤ cap ∨ ∃ x, b = [x] ∧ cap < size x
  tight : bins.Pairwise fun b c => ∀ x ∈ c, cap < load size b + size x

theorem IsPacking.nil : IsPacking size cap [] [] :=
  ⟨.refl _, by simp, by simp, by simp, .nil⟩

/-- An item that ends a bin with room keeps a packing, if no earlier bin has room for it. -/
theorem IsPacking.grow {l b : List α} {pre post : List (List α)} {x : α} (h : IsPacking size cap l (pre ++ b :: post))
    (hb : load size b + size x ≤ cap) (hpre : ∀ p ∈ pre, cap < load size p + size x) :
    IsPacking size cap (l ++ [x]) (pre ++ (b ++ [x]) :: post) := by
  have hmem : ∀ c ∈ pre ++ (b ++ [x]) :: post, c = b ++ [x] ∨ c ∈ pre ++ b :: post := by
    intro c hc
    rcases List.mem_append.1 hc with hc | hc
    · exact .inr (List.mem_append_left _ hc)
    rcases List.mem_cons.1 hc with rfl | hc
    · exact .inl rfl
    · exact .inr (List.mem_append_right _ (List.mem_cons_of_mem _ hc))
  constructor
  case perm =>
    have hmove : (pre ++ (b ++ [x]) :: post).flatten.Perm ((pre ++ b :: post).flatten ++ [x]) := by
      simp only [List.flatten_append, List.flatten_cons, List.append_assoc]
      exact (List.perm_append_comm.append_left b).append_left pre.flatten
    exact hmove.trans (h.perm.append_right [x])
  case order =>
    intro c hc
    rcases hmem c hc with rfl | hc
    · exact (h.order b (by simp)).append_right [x]
    · exact (h.order c hc).trans (List.sublist_append_left l [x])
  case nonempty =>
    intro c hc
    rcases hmem c hc with rfl | hc
    · simp
    · exact h.nonempty c hc
  case bounded =>
    intro c hc
    rcases hmem c hc with rfl | hc
    · exact .inl (by simpa using hb)
    · exact h.bounded c hc
  case tight =>
    have htight := h.tight
    rw [List.pairwise_append, List.pairwise_cons] at htight ⊢
    obtain ⟨hpp, ⟨hbp, hpost⟩, hcross⟩ := htight
    refine ⟨hpp, ⟨fun c hc y hy => ?_, hpost⟩, fun p hp c hc => ?_⟩
    · -- the bin has grown, so what had no room in it has none
      have hroom := hbp c hc y hy
      rw [load_append]
      omega
    rcases List.mem_cons.1 hc with rfl | hc
    · intro y hy
      rcases List.mem_append.1 hy with hy | hy
      · exact hcross p hp b List.mem_cons_self y hy
      · rw [List.mem_singleton.1 hy]
        exact hpre p hp
    · exact hcross p hp c (List.mem_cons_of_mem _ hc)

/-- An item in a new bin keeps a packing, if no bin has room for it. -/
theorem IsPacking.newBin {l : List α} {bins : List (List α)} {x : α} (h : IsPacking size cap l bins)
    (hall : ∀ p ∈ bins, cap < load size p + size x) : IsPacking size cap (l ++ [x]) (bins ++ [[x]]) := by
  have hmem : ∀ c ∈ bins ++ [[x]], c = [x] ∨ c ∈ bins := by
    intro c hc
    rcases List.mem_append.1 hc with hc | hc
    · exact .inr hc
    · exact .inl (List.mem_singleton.1 hc)
  constructor
  case perm =>
    rw [List.flatten_append, List.flatten_singleton]
    exact h.perm.append_right [x]
  case order =>
    intro c hc
    rcases hmem c hc with rfl | hc
    · exact List.sublist_append_right l [x]
    · exact (h.order c hc).trans (List.sublist_append_left l [x])
  case nonempty =>
    intro c hc
    rcases hmem c hc with rfl | hc
    · simp
    · exact h.nonempty c hc
  case bounded =>
    intro c hc
    rcases hmem c hc with rfl | hc
    · by_cases hfit : size x ≤ cap
      · exact .inl (by simpa using hfit)
      · exact .inr ⟨x, rfl, by omega⟩
    · exact h.bounded c hc
  case tight =>
    rw [List.pairwise_append]
    refine ⟨h.tight, List.pairwise_singleton _ _, fun p hp c hc y hy => ?_⟩
    rw [List.mem_singleton.1 hc, List.mem_singleton] at hy
    rw [hy]
    exact hall p hp

/-- **One more item keeps a packing.** A bin only grows, so what had no room in it never has. -/
theorem IsPacking.insert {l : List α} {bins : List (List α)} (h : IsPacking size cap l bins) (x : α) :
    IsPacking size cap (l ++ [x]) (insert size cap x bins) := by
  rcases insert_cases size cap x bins with ⟨pre, b, post, rfl, hins, hb, hpre⟩ | ⟨hins, hall⟩
  · rw [hins]
    exact h.grow hb hpre
  · rw [hins]
    exact h.newBin hall

/-- **First fit packs every list.** -/
theorem pack_isPacking (l : List α) : IsPacking size cap l (pack size cap l) := by
  have hrun : ∀ (rest done : List α) (bins : List (List α)), IsPacking size cap done bins →
      IsPacking size cap (done ++ rest) (rest.foldl (fun bins x => insert size cap x bins) bins) := by
    intro rest
    induction rest with
    | nil => intro done bins h; simpa using h
    | cons x rest ih =>
      intro done bins h
      have hx := ih (done ++ [x]) _ (h.insert x)
      rwa [List.append_assoc, List.singleton_append] at hx
  exact hrun l [] [] .nil

end Sfmf.FirstFit
