import Mathlib.Tactic

/-!
# Runs of a program that can stop early

`Exec α` is the result of running a piece of code: a value, or the reason it
did not return. Code stops at a failed assertion, at an explicit exit, or, for
a loop that need not end, when the step budget the caller gave is used up.

* `bind_ok`: a sequence returns exactly when both parts do.
* `mapM_ok`: a loop over a list returns exactly when every round does.
* `foldlM_inv`: the invariant rule for a loop that threads a state.
* `Exec.Avoids`: an assertion that a run does not fail, and `Exec.Avoids.bind`.
* `Exec.Checks`: a run that is a check and a value, and `Exec.Checks.bind`, `Exec.Checks.mapM`.
* `Exec.Rel`: two runs that stop alike or return related values, and
  `Exec.Rel.bind` for sequences.
* `Exec.Settles`, `Exec.Ends`: the result of a run with every budget that is large
  enough, and that it has one.
-/

namespace Sfmf

/-- Why a run did not return a value. -/
inductive Stop where
  /-- A failed `assert`, with its text. -/
  | assertion (text : String)
  /-- A call of `exit` after a message. -/
  | exit (msg : String)
  /-- A loop is still running when the step budget is used up. -/
  | spin
  /-- An access outside the memory of the program: nothing is known from there on. -/
  | fault
  deriving DecidableEq, Repr

/-- The result of running a piece of code. -/
abbrev Exec (α : Type) := Except Stop α

/-- `assert(p)`. -/
def cAssert (p : Prop) [Decidable p] (text : String) : Exec Unit :=
  if p then .ok () else .error (.assertion text)

/-- Leave the program with a message, as `exit(1)` after `fprintf` does. -/
def failAndExit {α : Type} (msg : String) : Exec α := .error (.exit msg)

variable {α β σ : Type}

@[simp] theorem cAssert_ok {p : Prop} [Decidable p] {t : String} {u : Unit} :
    cAssert p t = .ok u ↔ p := by
  unfold cAssert; split <;> simp_all

theorem cAssert_pos {p : Prop} [Decidable p] {t : String} (h : p) : cAssert p t = .ok () := by
  simp [h]

@[simp] theorem failAndExit_ne_ok {msg : String} {a : α} : (failAndExit msg : Exec α) = .ok a ↔ False := by
  simp [failAndExit]

@[simp] theorem ok_bind (a : α) (f : α → Exec β) : ((.ok a : Exec α) >>= f) = f a := rfl

@[simp] theorem error_bind (s : Stop) (f : α → Exec β) : ((.error s : Exec α) >>= f) = .error s := rfl

@[simp] theorem ok_map (f : α → β) (a : α) : f <$> (.ok a : Exec α) = .ok (f a) := rfl

@[simp] theorem error_map (f : α → β) (s : Stop) : f <$> (.error s : Exec α) = .error s := rfl

@[simp] theorem pure_eq_ok (a : α) : (pure a : Exec α) = .ok a := rfl

/-- **A sequence returns exactly when both parts do.** -/
@[simp] theorem bind_ok {x : Exec α} {f : α → Exec β} {b : β} :
    (x >>= f) = .ok b ↔ ∃ a, x = .ok a ∧ f a = .ok b := by
  cases x <;> simp

@[simp] theorem map_ok {x : Exec α} {f : α → β} {b : β} :
    (f <$> x) = .ok b ↔ ∃ a, x = .ok a ∧ f a = b := by
  cases x <;> simp [Functor.map, Except.map]

/-- **A loop over a list returns exactly when every round does**, with the
results in order. -/
theorem mapM_ok {f : α → Exec β} {l : List α} {r : List β} :
    l.mapM f = .ok r ↔ List.Forall₂ (fun a b => f a = .ok b) l r := by
  induction l generalizing r with
  | nil => simp [eq_comm]
  | cons a l ih =>
    simp only [List.mapM_cons, bind_ok, pure_eq_ok, Except.ok.injEq, List.forall₂_cons_left_iff, ih]
    constructor
    · rintro ⟨b, hb, bs, hbs, rfl⟩; exact ⟨b, bs, hb, hbs, rfl⟩
    · rintro ⟨b, bs, hb, hbs, rfl⟩; exact ⟨b, hb, bs, hbs, rfl⟩

theorem mapM_replicate {f : α → Exec β} {a : α} {b : β} (h : f a = .ok b) (n : ℕ) :
    (List.replicate n a).mapM f = .ok (List.replicate n b) := by
  induction n with
  | zero => rfl
  | succ n ih => simp only [List.replicate_succ, List.mapM_cons, h, ih, ok_bind, pure_eq_ok]

/-- Every round of a loop that returns does. -/
theorem mapM_mem {f : α → Exec β} {l : List α} {r : List β} (h : l.mapM f = .ok r) {a : α} (ha : a ∈ l) :
    ∃ b, f a = .ok b := by
  have hall := mapM_ok.1 h
  obtain ⟨i, hi, rfl⟩ := List.getElem_of_mem ha
  exact ⟨_, hall.get hi (hall.length_eq ▸ hi)⟩

/-- The progress rule for a loop over a list that collects results. -/
theorem mapM_total {P : α → β → Prop} {f : α → Exec β} : ∀ {l : List α}, (∀ a ∈ l, ∃ b, f a = .ok b ∧ P a b) →
    ∃ r, l.mapM f = .ok r ∧ List.Forall₂ P l r := by
  intro l
  induction l with
  | nil => intro _; exact ⟨[], rfl, .nil⟩
  | cons a l ih =>
    intro h
    obtain ⟨b, hb, hab⟩ := h a List.mem_cons_self
    obtain ⟨r, hr, hlr⟩ := ih fun a ha => h a (List.mem_cons_of_mem _ ha)
    exact ⟨b :: r, by simp only [List.mapM_cons, hb, hr, ok_bind]; rfl, .cons hab hlr⟩

/-- **The invariant rule.** What holds before a loop, and is kept by each round
that returns, holds after it. -/
theorem foldlM_inv (P : σ → Prop) {f : σ → α → Exec σ} {l : List α}
    (hstep : ∀ s a s', a ∈ l → P s → f s a = .ok s' → P s') :
    ∀ {s s'}, P s → l.foldlM f s = .ok s' → P s' := by
  induction l with
  | nil => intro s s' hs h; simp at h; subst h; exact hs
  | cons a l ih =>
    intro s s' hs h
    simp only [List.foldlM_cons, bind_ok] at h
    obtain ⟨s₁, h1, h2⟩ := h
    exact ih (fun s a s' ha => hstep s a s' (List.mem_cons_of_mem _ ha))
      (hstep s a s₁ List.mem_cons_self hs h1) h2

/-- The invariant rule for a loop over a list, where the invariant is about what is done. -/
theorem foldlM_inv_done (P : List α → σ → Prop) {f : σ → α → Exec σ} {l : List α}
    (hstep : ∀ done a rest s s', l = done ++ a :: rest → P done s → f s a = .ok s' → P (done ++ [a]) s') :
    ∀ {s s'}, P [] s → l.foldlM f s = .ok s' → P l s' := by
  have hrun : ∀ (rest done : List α) (s s' : σ), l = done ++ rest → P done s → rest.foldlM f s = .ok s' → P l s' := by
    intro rest
    induction rest with
    | nil => intro done s s' hl hs h; cases h; rwa [hl, List.append_nil]
    | cons a rest ih =>
      intro done s s' hl hs h
      simp only [List.foldlM_cons, bind_ok] at h
      obtain ⟨t, ht, h⟩ := h
      exact ih (done ++ [a]) t s' (by rw [hl]; simp) (hstep done a rest s t hl hs ht) h
  intro s s' hs h
  exact hrun l [] s s' rfl hs h

/-- The invariant rule for a counting loop: the invariant knows how many rounds are done. -/
theorem foldlM_range_inv (P : ℕ → σ → Prop) {f : σ → ℕ → Exec σ} : ∀ {n : ℕ},
    (∀ i s s', i < n → P i s → f s i = .ok s' → P (i + 1) s') →
    ∀ {s s'}, P 0 s → (List.range n).foldlM f s = .ok s' → P n s' := by
  intro n
  induction n with
  | zero => intro _ s s' hs h; cases h; exact hs
  | succ n ih =>
    intro hstep s s' hs h
    rw [List.range_succ, List.foldlM_append] at h
    obtain ⟨t, ht, h⟩ := bind_ok.1 h
    simp only [List.foldlM_cons, List.foldlM_nil, bind_ok, pure_eq_ok, Except.ok.injEq, exists_eq_right] at h
    exact hstep n t s' (Nat.lt_succ_self n) (ih (fun i s s' hi => hstep i s s' (Nat.lt_succ_of_lt hi)) hs ht) h

/-- **The progress rule.** If every round returns from a state with the
invariant, and keeps it, the loop returns. -/
theorem foldlM_total (P : σ → Prop) {f : σ → α → Exec σ} {l : List α}
    (hstep : ∀ s a, a ∈ l → P s → ∃ s', f s a = .ok s' ∧ P s') :
    ∀ {s}, P s → ∃ s', l.foldlM f s = .ok s' ∧ P s' := by
  induction l with
  | nil => intro s hs; exact ⟨s, rfl, hs⟩
  | cons a l ih =>
    intro s hs
    obtain ⟨s₁, h1, hs₁⟩ := hstep s a List.mem_cons_self hs
    obtain ⟨s', h2, hs'⟩ := ih (fun s a ha => hstep s a (List.mem_cons_of_mem _ ha)) hs₁
    exact ⟨s', by simp only [List.foldlM_cons, bind_ok]; exact ⟨s₁, h1, h2⟩, hs'⟩

/-- Loops over two lists do the same if their rounds do. -/
theorem foldlM_congr₂ {α β σ : Type} {f : σ → α → Exec σ} {g : σ → β → Exec σ} {l : List α} {l' : List β}
    (h : List.Forall₂ (fun a b => ∀ s, f s a = g s b) l l') (s : σ) : l.foldlM f s = l'.foldlM g s := by
  induction h generalizing s with
  | nil => rfl
  | cons hab _ ih =>
    rw [List.foldlM_cons, List.foldlM_cons, hab s]
    exact bind_congr ih

/-- A loop over a mapped list does what the loop over the list does, mapped. -/
theorem foldlM_map {α α' σ σ' : Type} {g : α → α'} {h : σ → σ'} {f : σ → α → Exec σ} {f' : σ' → α' → Exec σ'}
    {l : List α} (P : σ → Prop)
    (hstep : ∀ s a, a ∈ l → P s → f' (h s) (g a) = (f s a).map h ∧ ∀ s', f s a = .ok s' → P s') :
    ∀ s, P s → (l.map g).foldlM f' (h s) = (l.foldlM f s).map h := by
  induction l with
  | nil => exact fun _ _ => rfl
  | cons a l ih =>
    intro s hs
    obtain ⟨heq, hP⟩ := hstep s a List.mem_cons_self hs
    rw [List.map_cons, List.foldlM_cons, List.foldlM_cons, heq]
    cases hfs : f s a with
    | error x => rfl
    | ok s' => exact ih (fun s a ha => hstep s a (List.mem_cons_of_mem _ ha)) s' (hP s' hfs)

/-- The same for a loop that collects results. -/
theorem mapM_map {α α' β β' : Type} {g : α → α'} {h : β → β'} {f : α → Exec β} {f' : α' → Exec β'} {l : List α}
    (hf : ∀ a ∈ l, f' (g a) = (f a).map h) : (l.map g).mapM f' = (l.mapM f).map (List.map h) := by
  induction l with
  | nil => rfl
  | cons a l ih =>
    rw [List.map_cons, List.mapM_cons, List.mapM_cons, hf a List.mem_cons_self,
      ih fun a ha => hf a (List.mem_cons_of_mem _ ha)]
    cases f a with
    | error x => rfl
    | ok b => cases l.mapM f <;> rfl

/-- The progress rule for a loop whose invariant knows what is done. -/
theorem foldlM_total_done (P : List α → σ → Prop) {f : σ → α → Exec σ} {l : List α}
    (hstep : ∀ done a rest s, l = done ++ a :: rest → P done s → ∃ s', f s a = .ok s' ∧ P (done ++ [a]) s') :
    ∀ {s}, P [] s → ∃ s', l.foldlM f s = .ok s' ∧ P l s' := by
  have hrun : ∀ (rest done : List α) (s : σ), l = done ++ rest → P done s →
      ∃ s', rest.foldlM f s = .ok s' ∧ P l s' := by
    intro rest
    induction rest with
    | nil => intro done s hl hs; exact ⟨s, rfl, by rw [hl, List.append_nil]; exact hs⟩
    | cons a rest ih =>
      intro done s hl hs
      obtain ⟨s₁, h₁, hs₁⟩ := hstep done a rest s hl hs
      obtain ⟨s', h', hs'⟩ := ih (done ++ [a]) s₁ (by rw [hl]; simp) hs₁
      exact ⟨s', by simp only [List.foldlM_cons, h₁, ok_bind, h'], hs'⟩
  intro s hs
  exact hrun l [] s rfl hs

/-- A search whose tests all return is a search. -/
theorem findM_ok {p : α → Exec Bool} {q : α → Bool} : ∀ {l : List α}, (∀ a ∈ l, p a = .ok (q a)) →
    l.findM? p = .ok (l.find? q)
  | [], _ => rfl
  | a :: l, h => by
    rw [List.findM?, h a List.mem_cons_self, List.find?_cons]
    cases q a with
    | true => rfl
    | false => exact findM_ok fun b hb => h b (List.mem_cons_of_mem _ hb)

theorem anyM_ok {p : α → Exec Bool} {q : α → Bool} : ∀ {l : List α}, (∀ a ∈ l, p a = .ok (q a)) →
    l.anyM p = .ok (l.any q)
  | [], _ => rfl
  | a :: l, h => by
    rw [List.anyM, h a List.mem_cons_self, List.any_cons]
    cases q a with
    | true => rfl
    | false => exact anyM_ok fun b hb => h b (List.mem_cons_of_mem _ hb)

/-- A search that returns: each test up to the one that succeeds has returned. -/
theorem findM_some {p : α → Exec Bool} : ∀ {l : List α} {a : α}, l.findM? p = .ok (some a) →
    a ∈ l ∧ p a = .ok true
  | [], _, h => by cases h
  | b :: l, a, h => by
    simp only [List.findM?, bind_ok] at h
    obtain ⟨t, ht, h⟩ := h
    cases t with
    | true => cases h; exact ⟨List.mem_cons_self, ht⟩
    | false =>
      obtain ⟨ha, hp⟩ := findM_some h
      exact ⟨List.mem_cons_of_mem _ ha, hp⟩

/-- A search that returns has tested whatever stands behind entries that are not found. -/
theorem findM_reaches {p : α → Exec Bool} {a : α} {l₂ : List α} {o : Option α} : ∀ {l₁ : List α},
    (l₁ ++ a :: l₂).findM? p = .ok o → (∀ b ∈ l₁, p b ≠ .ok true) → ∃ t, p a = .ok t
  | [], h, _ => by
    simp only [List.nil_append, List.findM?, bind_ok] at h
    obtain ⟨t, ht, _⟩ := h
    exact ⟨t, ht⟩
  | b :: l₁, h, hno => by
    simp only [List.cons_append, List.findM?, bind_ok] at h
    obtain ⟨t, ht, h⟩ := h
    cases t with
    | true => exact absurd ht (hno b List.mem_cons_self)
    | false => exact findM_reaches h fun b hb => hno b (List.mem_cons_of_mem _ hb)

/-- A search that returns is a search, as far as its tests have returned. -/
theorem findM_eq {p : α → Exec Bool} {q : α → Bool} : ∀ {l : List α} {o : Option α}, l.findM? p = .ok o →
    (∀ a ∈ l, ∀ t, p a = .ok t → t = q a) → o = l.find? q
  | [], _, h, _ => by cases h; rfl
  | a :: l, o, h, hq => by
    simp only [List.findM?, bind_ok] at h
    obtain ⟨t, ht, h⟩ := h
    rw [List.find?_cons, ← hq a List.mem_cons_self t ht]
    cases t with
    | true => cases h; rfl
    | false => exact findM_eq h fun b hb => hq b (List.mem_cons_of_mem _ hb)

theorem anyM_eq {p : α → Exec Bool} {q : α → Bool} : ∀ {l : List α} {t : Bool}, l.anyM p = .ok t →
    (∀ a ∈ l, ∀ t, p a = .ok t → t = q a) → t = l.any q
  | [], _, h, _ => by cases h; rfl
  | a :: l, t, h, hq => by
    simp only [List.anyM, bind_ok] at h
    obtain ⟨t', ht, h⟩ := h
    rw [List.any_cons, ← hq a List.mem_cons_self t' ht]
    cases t' with
    | true => cases h; rfl
    | false => exact anyM_eq h fun b hb => hq b (List.mem_cons_of_mem _ hb)

/-! ## Assertions that do not fail -/

/-- A run does not end in the assertion with this text. -/
def Exec.Avoids (text : String) (x : Exec α) : Prop := x ≠ .error (.assertion text)

theorem Exec.Avoids.of_ok {text : String} {a : α} : Exec.Avoids text (.ok a) := fun h => by cases h

theorem Exec.Avoids.of_spin {text : String} : Exec.Avoids text (.error .spin : Exec α) := fun h => by cases h

/-- A sequence avoids what both parts avoid. -/
theorem Exec.Avoids.bind {text : String} {x : Exec α} {f : α → Exec β} (hx : Exec.Avoids text x)
    (hf : ∀ a, x = .ok a → Exec.Avoids text (f a)) : Exec.Avoids text (x >>= f) := by
  cases x with
  | ok a => exact hf a rfl
  | error s =>
    rw [error_bind]
    intro h
    exact hx (by rw [Except.error.inj h])

/-- An assertion with another text, or one that holds. -/
theorem Exec.Avoids.assert {text t : String} {p : Prop} [Decidable p] (h : t ≠ text ∨ p) :
    Exec.Avoids text (cAssert p t) := by
  unfold cAssert
  split
  · exact .of_ok
  · rename_i hp
    intro he
    exact (h.resolve_right hp) (Stop.assertion.inj (Except.error.inj he))

/-- A search avoids what each test avoids. -/
theorem Exec.Avoids.findM {text : String} {p : α → Exec Bool} : ∀ {l : List α}, (∀ a ∈ l, Exec.Avoids text (p a)) →
    Exec.Avoids text (l.findM? p)
  | [], _ => .of_ok
  | a :: l, h => by
    refine (h a List.mem_cons_self).bind fun t _ => ?_
    cases t with
    | true => exact .of_ok
    | false => exact Exec.Avoids.findM fun b hb => h b (List.mem_cons_of_mem _ hb)

theorem Exec.Avoids.anyM {text : String} {p : α → Exec Bool} : ∀ {l : List α}, (∀ a ∈ l, Exec.Avoids text (p a)) →
    Exec.Avoids text (l.anyM p)
  | [], _ => .of_ok
  | a :: l, h => by
    refine (h a List.mem_cons_self).bind fun t _ => ?_
    cases t with
    | true => exact .of_ok
    | false => exact Exec.Avoids.anyM fun b hb => h b (List.mem_cons_of_mem _ hb)

/-- Whether a run returns a value that passes a test. -/
def Exec.passes (x : Exec α) (p : α → Bool) : Bool :=
  match x with
  | .ok a => p a
  | .error _ => false

theorem Exec.of_passes {x : Exec α} {p : α → Bool} (h : x.passes p = true) : ∃ a, x = .ok a ∧ p a = true := by
  cases x with
  | ok a => exact ⟨a, rfl, h⟩
  | error _ => cases h

/-! ## Checks -/

/-- A run that returns this value if the condition holds, and else none. -/
def Exec.Checks (x : Exec α) (p : Prop) (a : α) : Prop := ∀ b, x = .ok b ↔ p ∧ b = a

theorem Exec.Checks.returns {x : Exec α} {p : Prop} {a : α} (h : Exec.Checks x p a) (hp : p) : x = .ok a :=
  (h a).2 ⟨hp, rfl⟩

/-- **Checks in sequence.** -/
theorem Exec.Checks.bind {x : Exec α} {f : α → Exec β} {p q : Prop} {a : α} {b : β} (hx : Exec.Checks x p a)
    (hf : Exec.Checks (f a) q b) : Exec.Checks (x >>= f) (p ∧ q) b := by
  intro c
  rw [bind_ok]
  constructor
  · rintro ⟨a', ha', hc⟩
    obtain ⟨hp, rfl⟩ := (hx a').1 ha'
    obtain ⟨hq, rfl⟩ := (hf c).1 hc
    exact ⟨⟨hp, hq⟩, rfl⟩
  · rintro ⟨⟨hp, hq⟩, rfl⟩
    exact ⟨a, hx.returns hp, hf.returns hq⟩

/-- A check, and a value that is made of what it returns. -/
theorem Exec.Checks.map {x : Exec α} {p : Prop} {a : α} (hx : Exec.Checks x p a) (g : α → β) :
    Exec.Checks (x >>= fun a => .ok (g a)) p (g a) := by
  intro c
  rw [hx.bind (q := True) (b := g a) (fun b => by simp [eq_comm]) c, and_true]

/-- **A loop of checks.** -/
theorem Exec.Checks.mapM {f : α → Exec β} {p : α → Prop} {g : α → β} (h : ∀ a, Exec.Checks (f a) (p a) (g a))
    (l : List α) : Exec.Checks (l.mapM f) (∀ a ∈ l, p a) (l.map g) := by
  induction l with
  | nil => intro b; simp [eq_comm]
  | cons a l ih =>
    intro b
    rw [List.mapM_cons, List.forall_mem_cons, List.map_cons]
    exact (h a).bind (f := fun r => l.mapM f >>= fun rs => .ok (r :: rs)) (ih.map (g a :: ·)) b

/-! ## Two runs side by side -/

/-- Two runs that stop alike, or return related values. -/
def Exec.Rel {α' : Type} (R : α → α' → Prop) : Exec α → Exec α' → Prop
  | .ok a, .ok a' => R a a'
  | .error s, .error s' => s = s'
  | _, _ => False

variable {α' β' : Type}

/-- **Related first parts and related continuations give related sequences.** -/
theorem Exec.Rel.bind {R : α → α' → Prop} {T : β → β' → Prop} {x : Exec α} {x' : Exec α'}
    {f : α → Exec β} {f' : α' → Exec β'} (hx : Exec.Rel R x x')
    (hf : ∀ a a', R a a' → Exec.Rel T (f a) (f' a')) : Exec.Rel T (x >>= f) (x' >>= f') := by
  cases x <;> cases x' <;> simp_all [Exec.Rel]

theorem Exec.Rel.assert {T : β → β' → Prop} {p p' : Prop} [Decidable p] [Decidable p'] {t : String}
    {f : Unit → Exec β} {f' : Unit → Exec β'} (hp : p ↔ p') (hf : p → Exec.Rel T (f ()) (f' ())) :
    Exec.Rel T (cAssert p t >>= f) (cAssert p' t >>= f') := by
  by_cases h : p
  · simpa [cAssert, h, hp.1 h] using hf h
  · simp [cAssert, h, mt hp.2 h, Exec.Rel]

/-- A run that is related to one that returns, returns too. -/
theorem Exec.Rel.ok_right {R : α → α' → Prop} {x : Exec α} {a' : α'} (h : Exec.Rel R x (.ok a')) :
    ∃ a, x = .ok a ∧ R a a' := by
  cases x with
  | ok a => exact ⟨a, rfl, h⟩
  | error s => exact h.elim

/-- The same first part. -/
theorem Exec.Rel.same {T : β → β' → Prop} {x : Exec α} {f : α → Exec β} {f' : α → Exec β'}
    (hf : ∀ a, x = .ok a → Exec.Rel T (f a) (f' a)) : Exec.Rel T (x >>= f) (x >>= f') := by
  cases x with
  | error s => rfl
  | ok a => exact hf a rfl

/-- Related runs that are continued alike give the same. -/
theorem Exec.Rel.bind_eq {R : α → α' → Prop} {x : Exec α} {x' : Exec α'} {f : α → Exec β} {f' : α' → Exec β}
    (h : Exec.Rel R x x') (hf : ∀ a a', x = .ok a → x' = .ok a' → R a a' → f a = f' a') : x >>= f = x' >>= f' := by
  cases x <;> cases x' <;> simp_all [Exec.Rel]

/-! ## Loops over indices -/

/-- **A loop over the indices of a list** is a loop over the list. `embed` puts what the loop changes into the state. -/
theorem foldlM_indices {α σ τ : Type} {run : σ → ℕ → Exec σ} {g : τ → α → Exec τ} (embed : τ → σ) :
    ∀ {l : List α} {s : ℕ}, (∀ k a t, l[k]? = some a → run (embed t) (s + k) = embed <$> g t a) →
      ∀ t, (List.range' s l.length).foldlM run (embed t) = embed <$> l.foldlM g t := by
  intro l
  induction l with
  | nil => intro s _ t; rfl
  | cons a l ih =>
    intro s h t
    rw [List.length_cons, List.range'_succ, List.foldlM_cons, List.foldlM_cons]
    have hhead := h 0 a t rfl
    rw [Nat.add_zero] at hhead
    rw [hhead]
    cases g t a with
    | error why => rfl
    | ok t' =>
      rw [ok_map, ok_bind, ok_bind]
      refine ih (fun k b u hk => ?_) t'
      rw [Nat.add_assoc, Nat.add_comm 1 k]
      exact h (k + 1) b u hk

/-! ## Large enough budgets -/

/-- With every budget from some one on, the run has this result. -/
def Exec.Settles (run : ℕ → Exec α) (x : Exec α) : Prop := ∀ᶠ k in Filter.atTop, run k = x

theorem Exec.Settles.of_eq {run : ℕ → Exec α} {x : Exec α} (h : ∀ k, run k = x) : Exec.Settles run x :=
  Filter.Eventually.of_forall h

theorem Exec.Settles.congr {run run' : ℕ → Exec α} {x : Exec α} (h : ∀ k, run k = run' k)
    (hx : Exec.Settles run' x) : Exec.Settles run x :=
  hx.mono fun k hk => (h k).trans hk

/-- A loop settles if what is left of it after one round does. -/
theorem Exec.Settles.round {run run' : ℕ → Exec α} {x : Exec α} (h : ∀ k, run (k + 1) = run' k)
    (hx : Exec.Settles run' x) : Exec.Settles run x := by
  obtain ⟨n, hn⟩ := Filter.eventually_atTop.1 hx
  refine Filter.eventually_atTop.2 ⟨n + 1, fun k hk => ?_⟩
  obtain ⟨k, rfl⟩ : ∃ j, k = j + 1 := ⟨k - 1, by omega⟩
  exact (h k).trans (hn k (by omega))

/-- **A sequence settles when both parts do.** -/
theorem Exec.Settles.bind {run : ℕ → Exec α} {f : ℕ → α → Exec β} {a : α} {y : Exec β}
    (hx : Exec.Settles run (.ok a)) (hf : Exec.Settles (fun k => f k a) y) :
    Exec.Settles (fun k => run k >>= f k) y := by
  filter_upwards [hx, hf] with k hx hf
  rw [hx, ok_bind, hf]

theorem Exec.Settles.bind_error {run : ℕ → Exec α} {f : ℕ → α → Exec β} {s : Stop}
    (hx : Exec.Settles run (.error s)) : Exec.Settles (fun k => run k >>= f k) (.error s) :=
  hx.mono fun k hk => by simp only [hk, error_bind]

/-- With every budget from some one on, the run comes to an end. -/
def Exec.Ends (run : ℕ → Exec α) : Prop := ∀ᶠ k in Filter.atTop, run k ≠ .error .spin

theorem Exec.Settles.ends {run : ℕ → Exec α} {x : Exec α} (h : Exec.Settles run x) (hx : x ≠ .error .spin) :
    Exec.Ends run :=
  h.mono fun _ hk => hk ▸ hx

theorem Exec.Settles.not_ends {run : ℕ → Exec α} (h : Exec.Settles run (.error .spin)) : ¬ Exec.Ends run := by
  intro he
  obtain ⟨k, hk, hne⟩ := (h.and he).exists
  exact hne hk

theorem Exec.Ends.congr {run : ℕ → Exec α} {run' : ℕ → Exec β}
    (h : ∀ k, run k = .error .spin ↔ run' k = .error .spin) : Exec.Ends run ↔ Exec.Ends run' :=
  Filter.eventually_congr (.of_forall fun k => not_congr (h k))

/-- Runs that stop alike. -/
theorem Exec.Rel.spin {R : α → α' → Prop} {x : Exec α} {x' : Exec α'} (h : Exec.Rel R x x') :
    x = .error .spin ↔ x' = .error .spin := by
  cases x <;> cases x' <;> simp_all [Exec.Rel]

end Sfmf
